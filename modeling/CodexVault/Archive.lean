import CodexVault.Manifest
import CodexVault.ReaderRuns
import CodexVault.VaultWriter

/-!
# Sealing and unsealing directories

`sealDirectory` writes the archive of a directory through a `VaultWriter` into a
temporary file and renames it; `unsealDirectory` reads an archive through a
`VaultReader` and unpacks its files and directories.

A file whose transfers all succeed is a byte string; one that will fail is a
`FailingSink` or a `FailingSource`.
-/

namespace CodexVault

open ByteStrings Programs

/-- A file open for writing that fails once it has taken `left` more bytes. -/
structure FailingSink where
  accepted : Bytes
  left : Nat
  error : IoError

instance : Sink FailingSink where
  accepted := FailingSink.accepted
  writeAll w b :=
    if b.length ≤ w.left then
      (.ok (), { w with accepted := w.accepted ++ b, left := w.left - b.length })
    else (.error w.error, { w with accepted := w.accepted ++ b.take w.left, left := 0 })
  flush w := (.ok (), w)
  accepted_of_ok := by
    intro w b w' h
    split at h
    · cases h
      rfl
    · cases h
  accepted_of_error := by
    intro w b e w' h
    split at h
    · cases h
    · cases h
      exact ⟨b.take w.left, List.take_prefix _ _, rfl⟩
  accepted_flush := fun _ => rfl

/-- A file open for reading that fails after `rest`. -/
structure FailingSource where
  rest : Bytes
  error : IoError

instance : Source FailingSource where
  read r n :=
    if n = 0 then (.ok [], r)
    else if r.rest = [] then (.error r.error, r)
    else (.ok (r.rest.take n), { r with rest := r.rest.drop n })
  readExact r n :=
    if h : n ≤ r.rest.length then
      (.ok ⟨r.rest.take n, by simp [h]⟩, { r with rest := r.rest.drop n })
    else (.error r.error, { r with rest := [] })

section Sealing

variable {W : Type} [Sink W] (A : Aead)

/-- Successive `write_all` calls, up to the first that fails. -/
def VaultWriter.writeInputs (w : VaultWriter W) : List Bytes → Except IoError Unit × VaultWriter W
  | [] => (.ok (), w)
  | input :: rest =>
      match VaultWriter.write A w input with
      | (.error e, w) => (.error e, w)
      | (.ok _, w) => VaultWriter.writeInputs w rest

/-- The archive builder over the writer: the entries, the trailer, `finish`.  A
builder that is dropped after an error still writes its trailer. -/
def sealWriter (w : VaultWriter W) (inputs : List Bytes) (stop : Option IoError) :
    Except VaultError Unit × VaultWriter W :=
  match VaultWriter.writeInputs A w inputs with
  | (.error e, w) => (.error (.io e), (VaultWriter.write A w Tar.trailer).2)
  | (.ok (), w) =>
      match stop with
      | some e => (.error (.io e), (VaultWriter.write A w Tar.trailer).2)
      | none =>
          match VaultWriter.write A w Tar.trailer with
          | (.error e, w) => (.error (.io e), w)
          | (.ok _, w) =>
              match VaultWriter.finish A w with
              | (.error e, w) => (.error e, w)
              | (.ok _, w) => (.ok (), w)

/-- The writer's whole life, and the bytes its file has taken. -/
def sealStream (random : Option (FixedBytes 12)) (sink : W) (dataKey : Key)
    (inputs : List Bytes) (stop : Option IoError) : Except VaultError Unit × Bytes :=
  match VaultWriter.new random sink dataKey with
  | .error e =>
      (.error e, match random with
        | none => Sink.accepted sink
        | some seed => Sink.accepted (Sink.writeAll sink (fileHeader seed)).2)
  | .ok w =>
      let out := sealWriter A w inputs stop
      (out.1, (out.2.inner.map Sink.accepted).getD [])

end Sealing

/-- The same over a file as it was opened. -/
def sealFile (A : Aead) (fault : Option TransferFault) (random : Option (FixedBytes 12))
    (dataKey : Key) (inputs : List Bytes) (stop : Option IoError) :
    Except VaultError Unit × Bytes :=
  match fault with
  | none => sealStream A random ([] : Bytes) dataKey inputs stop
  | some fault =>
      sealStream A random
        ({ accepted := [], left := fault.after, error := .os fault.kind } : FailingSink)
        dataKey inputs stop

/-- What the builder writes for a walk, and what stops it. -/
def builderInputs (tar : Tar) (tree : List TreeEntry × Option IoError) :
    List Bytes × Option IoError :=
  let entries := archiveEntries tree.1
  (tar.writes entries.1, entries.2 <|> tree.2)

/-- The part of a name before its last dot, unless that dot is the first letter. -/
def fileStem (name : List Char) : List Char :=
  let stem := (name.reverse.dropWhile (· ≠ '.')).tail.reverse
  if stem = [] then name else stem

/-- `Path::with_extension`. -/
def withExtension (path : FsPath) (extension : String) : FsPath :=
  path.dropLast ++ [String.ofList (fileStem (path.getLastD "").toList) ++ "." ++ extension]

/-- The closure of `seal_directory`. -/
def sealInto (lib : Libraries) (directory temporary destination : FsPath) (dataKey : Key) :
    Io Unit := do
  let fault ← sys (request (.createFile temporary))
  let random ← ask (.random 12)
  let tree ← ask (.readTree directory)
  let inputs := builderInputs lib.tar tree
  let out := sealFile lib.aead fault random dataKey inputs.1 inputs.2
  ask (.store temporary out.2)
  ofExcept out.1
  sys (request (.sync temporary))
  sys (request (.rename temporary destination))

/-- `seal_directory`. -/
def sealDirectory (lib : Libraries) (directory destination : FsPath) (dataKey : Key) :
    Io Unit := do
  let id ← ask .newUuid
  let temporary := withExtension destination ("tmp-" ++ lib.uuidText id)
  Prog.onError (sealInto lib directory temporary destination dataKey)
    (ignore (request (.removeFile temporary)))

/-- What `unpack_in` is to make of an entry. -/
def ReadEntry.unpacking (read : ReadEntry) : Unpacking where
  isDir := read.makesDirectory
  mode := read.entry.mode
  body := read.entry.body
  fault := read.fault

/-- One pass of the loop of `unseal_directory`. -/
def unpackEntry (destination : FsPath) (read : ReadEntry) : Io Unit :=
  let entryType := read.entry.entryType
  if entryType.isSymlink || entryType.isHardLink then pure ()
  else if !(entryType.isFile || entryType.isDir) then pure ()
  else match unpackTarget read.entry.path with
    | none => throw (.integrity "archive entry escaped the runtime directory")
    | some [] => pure ()
    | some (name :: rest) =>
        Prog.mapError mapReadError
          (Prog.fallible (request (.unpack destination (name :: rest) read.unpacking)))

/-- The loop of `unseal_directory`. -/
def unpackEntries (destination : FsPath) : List ReadEntry → Io Unit
  | [] => pure ()
  | entry :: rest => do
      unpackEntry destination entry
      unpackEntries destination rest

/-- `unseal_directory` from the opened file on. -/
def unsealFrom {R : Type} [Source R] (lib : Libraries) (inner : R) (destination : FsPath)
    (dataKey : Key) : Io Unit :=
  match VaultReader.new inner dataKey with
  | .error e => throw e
  | .ok reader => do
      let stream := VaultReader.remaining lib.aead reader
      let found := lib.tar.entries stream
      unpackEntries destination found.1
      match found.2 with
      | some e => throw (mapReadError e)
      | none =>
          let drained := (VaultReader.reads lib.aead reader (lib.tar.readSizes stream)).2
          ofExcept (VaultReader.verifyFinished lib.aead drained)

/-- `unseal_directory`. -/
def unsealDirectory (lib : Libraries) (env : Env) (source destination : FsPath) (dataKey : Key) :
    Io Unit := do
  let _ ← Prog.mapError (fun _ => .integrity "unsafe vault state file")
    (validatePrivateFile env source)
  match ← sys (request (.openRead source)) with
  | (contents, none) => unsealFrom lib contents destination dataKey
  | (contents, some fault) =>
      unsealFrom lib ({ rest := contents, error := .os fault.kind } : FailingSource) destination
        dataKey

end CodexVault
