import CodexVault.Programs
import CodexVault.TarArchive

/-!
# System calls

The calls the store makes and what the machine does with them.  `respond` is the
machine: given the call, the world and the `Oracle` of everything the program
does not control (failures, random bytes, the clock, the order of a directory
listing), it is a function.  `serve` also records the call in the history.

`Env` is what a process sees of the machine and does not change: its user, its
environment variables, and what it may do in directories of other users.
-/

namespace CodexVault

open ByteStrings Programs

/-- The bytes of a text. -/
def textBytes (text : String) : Bytes := text.toByteArray.data.toList

/-- A configured path, which need not be absolute. -/
structure RootPath where
  absolute : Bool
  path : FsPath
  deriving DecidableEq

/-- A UUID. -/
abbrev Uuid := FixedBytes 16

/-- A process and its environment. -/
structure Env where
  uid : UInt32
  process : Nat
  /-- Whether the process may use a file or directory of another user. -/
  foreign : FsPath → Bool
  /-- Permission bits of a directory made without asking for any. -/
  directoryMode : Nat
  /-- `env::temp_dir`. -/
  tempDir : FsPath
  /-- `CODEX_VAULT_RUNTIME_DIR`. -/
  runtimeOverride : Option RootPath
  /-- `XDG_RUNTIME_DIR`. -/
  xdgRuntimeDir : Option RootPath

/-- The process may use the file at `p` in the ways of `mask`. -/
def Env.permits (env : Env) (attr : Attr) (mask : Nat) (p : FsPath) : Bool :=
  decide (env.uid = 0) ||
    if attr.owner = env.uid then decide (attr.mode &&& mask = mask) else env.foreign p

/-- The attributes of a new file or directory. -/
def Env.attr (env : Env) (mode : Nat) : Attr := { owner := env.uid, mode := mode }

/-- An open file description. -/
structure Handle where
  process : Nat
  serial : Nat
  deriving DecidableEq

/-- What `symlink_metadata` reports. -/
structure FileStatus where
  isFile : Bool
  isDir : Bool
  len : Nat
  uid : UInt32
  mode : Nat
  deriving DecidableEq

def Node.status : Node → FileStatus
  | .file attr contents _ =>
      { isFile := true, isDir := false, len := contents.length, uid := attr.owner,
        mode := attr.mode }
  | .directory attr =>
      { isFile := false, isDir := true, len := 0, uid := attr.owner, mode := attr.mode }
  | .symlink => { isFile := false, isDir := false, len := 0, uid := 0, mode := 0 }
  | .special _ attr =>
      { isFile := false, isDir := false, len := 0, uid := attr.owner, mode := attr.mode }

/-- Where the transfers on an opened file fail: after so many bytes, with this
error. -/
structure TransferFault where
  after : Nat
  kind : ErrorKind
  deriving DecidableEq

/-- What `unpack_in` makes at a path. -/
structure Unpacking where
  isDir : Bool
  mode : Nat
  body : Bytes
  fault : Option IoError
  deriving DecidableEq

/-- The calls of the store. -/
inductive Op where
  | lstat (path : FsPath)
  /-- A recursive `DirBuilder` with mode 0700. -/
  | createDirectories (path : FsPath)
  /-- `TempDir` without random bytes: an exclusive `mkdir` that asks for no mode. -/
  | createDirectory (path : FsPath)
  /-- `tempfile::tempdir`: a new directory of its own, made in the same way. -/
  | createTemporaryDirectory
  /-- `create_new` with mode 0600. -/
  | createFile (path : FsPath)
  /-- The bytes a file created by `createFile` has taken. -/
  | store (path : FsPath) (contents : Bytes)
  | sync (path : FsPath)
  | rename (source target : FsPath)
  | removeFile (path : FsPath)
  | removeTree (path : FsPath)
  /-- Opening for reading with `O_NOFOLLOW`, and what the reads will find. -/
  | openRead (path : FsPath)
  | openDirectory (path : FsPath)
  | canonicalize (path : FsPath)
  /-- Opening for reading and writing with `O_CREAT`, `O_NOFOLLOW`, mode 0600. -/
  | openLock (path : FsPath)
  | setPermissions (path : FsPath) (mode : Nat)
  | tryLock (path : FsPath) (lock : Handle)
  | setLength (path : FsPath)
  | seek (path : FsPath)
  | writeText (path : FsPath) (text : String)
  | unlockFile (path : FsPath) (lock : Handle)
  | closeFile (path : FsPath) (lock : Handle)
  /-- `Entry::unpack_in` for an entry that stays inside the destination. -/
  | unpack (destination path : FsPath) (entry : Unpacking)
  /-- The walk of `append_dir_all`: what it can read, and where it stops. -/
  | readTree (path : FsPath)
  | random (size : Nat)
  | newUuid
  | now
  | processId
  deriving DecidableEq

/-- The replies. -/
abbrev Op.Reply : Op → Type
  | lstat _ => Except IoError FileStatus
  | createTemporaryDirectory => Except IoError FsPath
  | createFile _ => Except IoError (Option TransferFault)
  | openRead _ => Except IoError (Bytes × Option TransferFault)
  | canonicalize _ => Except IoError FsPath
  | openLock _ => Except IoError Handle
  | readTree _ => List TreeEntry × Option IoError
  | random size => Option (FixedBytes size)
  | newUuid => Uuid
  | now => Option UInt64
  | processId => Nat
  | store _ _ | closeFile _ _ => Unit
  | createDirectories _ | createDirectory _ | sync _ | rename _ _ | removeFile _ | removeTree _
  | openDirectory _ | setPermissions _ _ | tryLock _ _ | setLength _ | seek _ | writeText _ _
  | unlockFile _ _ | unpack _ _ _ => Except IoError Unit

/-- The kind of the error a reply reports. -/
def Op.failure : (op : Op) → op.Reply → Option ErrorKind
  | lstat _, .error e => some e.kind
  | createTemporaryDirectory, .error e => some e.kind
  | createFile _, .error e => some e.kind
  | openRead _, .error e => some e.kind
  | canonicalize _, .error e => some e.kind
  | openLock _, .error e => some e.kind
  | readTree _, (_, some e) => some e.kind
  | random _, none => some .other
  | createDirectories _, .error e => some e.kind
  | createDirectory _, .error e => some e.kind
  | sync _, .error e => some e.kind
  | rename _ _, .error e => some e.kind
  | removeFile _, .error e => some e.kind
  | removeTree _, .error e => some e.kind
  | openDirectory _, .error e => some e.kind
  | setPermissions _ _, .error e => some e.kind
  | tryLock _ _, .error e => some e.kind
  | setLength _, .error e => some e.kind
  | seek _, .error e => some e.kind
  | writeText _ _, .error e => some e.kind
  | unlockFile _ _, .error e => some e.kind
  | unpack _ _ _, .error e => some e.kind
  | _, _ => none

/-- A call that was made, and the error it reported. -/
structure Event where
  op : Op
  error : Option ErrorKind
  deriving DecidableEq

/-- The state of the machine.  `history` lists the calls made, newest first, and
is read by no call. -/
structure World where
  fs : FileSystem
  locked : FsPath → Option Handle
  nextSerial : Nat
  history : List Event

/-- The file at a path. -/
def World.contents (w : World) (p : FsPath) : Option Bytes :=
  match w.fs.node p with
  | some (.file _ contents _) => some contents
  | _ => none

/-- The same machine before the first call. -/
def World.begin (w : World) : World := { w with history := [] }

/-- What the program does not control in one call. -/
structure Oracle where
  /-- A failure that has nothing to do with the files. -/
  fault : Option ErrorKind
  /-- Where transfers on a file opened by this call fail. -/
  transfer : Option TransferFault
  /-- How far a call that fails has come. -/
  progress : Nat
  /-- What a removal that fails has removed. -/
  removed : FsPath → Bool
  /-- The order in which a directory walk meets the paths. -/
  listing : List FsPath
  entropy : Nat → UInt8
  uuid : Uuid
  clock : Option UInt64
  name : String

/-- Random bytes. -/
def Oracle.draw (oracle : Oracle) (size : Nat) : FixedBytes size :=
  ⟨(List.range size).map oracle.entropy, by simp⟩

namespace FileSystem

variable (env : Env) (fs : FileSystem)

/-- What is wrong with making, replacing or removing an entry at the path. -/
def entryFault (p : FsPath) : Option ErrorKind :=
  match fs.node p.dropLast with
  | none => some (fs.absence p.dropLast)
  | some (.directory attr) =>
      if env.permits attr 0o300 p.dropLast then none else some .permissionDenied
  | some _ => some .notADirectory

/-- `mkdir` with the given mode. -/
def makeDirectory (mode : Nat) (p : FsPath) : Except ErrorKind FileSystem :=
  if fs.node p ≠ none then .error .alreadyExists
  else match fs.entryFault env p with
    | some kind => .error kind
    | none => .ok (fs.place p (.directory (env.attr mode)))

/-- The directories of a list of paths, where they are missing. -/
def makeDirectories (mode : Nat) (fs : FileSystem) : List FsPath → Except ErrorKind FileSystem
  | [] => .ok fs
  | p :: rest =>
      if fs.isDirectory p then makeDirectories mode fs rest
      else match fs.makeDirectory env mode p with
        | .error kind => .error (if fs.node p ≠ none ∧ rest ≠ [] then .notADirectory else kind)
        | .ok fs => makeDirectories mode fs rest

/-- The path and the paths above it, from the top. -/
def ancestry (p : FsPath) : List FsPath := p.inits.tail

/-- The directories made before a failure. -/
def partlyMade (mode : Nat) (ps : List FsPath) : FileSystem :=
  match makeDirectories env mode fs ps with
  | .ok fs => fs
  | .error _ => fs

/-- The new file of `create_new`. -/
def createNew (p : FsPath) (node : Node) : Except ErrorKind FileSystem :=
  if fs.node p ≠ none then .error .alreadyExists
  else match fs.entryFault env p with
    | some kind => .error kind
    | none => .ok (fs.place p node)

/-- Something lies below the path. -/
def hasChildren (p : FsPath) : Bool :=
  fs.paths.any fun q => decide (p <+: q) && decide (q ≠ p) && (fs.node q).isSome

/-- `rename`. -/
def renamed (source target : FsPath) : Except ErrorKind FileSystem :=
  match fs.node source with
  | none => .error (fs.absence source)
  | some n =>
      match fs.entryFault env source, fs.entryFault env target with
      | some kind, _ => .error kind
      | none, some kind => .error kind
      | none, none =>
          if n.isDirectory ∧ fs.node target ≠ none ∧ fs.isDirectory target = false then
            .error .notADirectory
          else if n.isDirectory = false ∧ fs.isDirectory target then .error .isADirectory
          else if fs.hasChildren target then .error .directoryNotEmpty
          else if fs.CanGraft source target then .ok (fs.graft source target)
          else .error .other

/-- `unlink`. -/
def unlinked (p : FsPath) : Except ErrorKind FileSystem :=
  match fs.node p with
  | none => .error (fs.absence p)
  | some n =>
      if n.isDirectory then .error .isADirectory
      else match fs.entryFault env p with
        | some kind => .error kind
        | none => .ok (fs.prune fun q => decide (q = p))

/-- The process can list the directory at the path and search it. -/
def listable (p : FsPath) : Bool :=
  match fs.node p with
  | some (.directory attr) => env.permits attr 0o500 p
  | _ => true

/-- Every entry at and below the path can be removed. -/
def removable (p : FsPath) : Bool :=
  fs.paths.all fun q =>
    !decide (p <+: q) || (fs.node q).isNone ||
      ((fs.entryFault env q).isNone && fs.listable env q)

/-- `remove_dir_all`. -/
def treeRemoved (p : FsPath) : Except ErrorKind FileSystem :=
  match fs.node p with
  | none => .error (fs.absence p)
  | some (.file _ _ _) | some (.special _ _) => .error .notADirectory
  | some _ =>
      if fs.removable env p then .ok (fs.prune fun q => decide (q = p))
      else .error .permissionDenied

/-- What a removal that failed leaves: the path itself stays. -/
def partlyRemoved (p : FsPath) (removed : FsPath → Bool) : FileSystem :=
  fs.prune fun q => removed q && decide (p <+: q) && decide (q ≠ p)

/-- The file at the path, if the process can read it. -/
def readable (p : FsPath) : Except ErrorKind Bytes :=
  match fs.node p with
  | none => .error (fs.absence p)
  | some (.file attr contents _) =>
      if env.permits attr 0o400 p then .ok contents else .error .permissionDenied
  | some (.directory _) => .error .isADirectory
  | some .symlink => .error .filesystemLoop
  | some (.special _ _) => .error .other

/-- Opening a directory to sync it. -/
def directoryReadable (p : FsPath) : Except ErrorKind FileSystem :=
  match fs.node p with
  | none => .error (fs.absence p)
  | some (.directory attr) =>
      if env.permits attr 0o400 p then .ok fs else .error .permissionDenied
  | some _ => .error .other

/-- The lock file, made when it is missing. -/
def lockOpened (p : FsPath) : Except ErrorKind FileSystem :=
  match fs.node p with
  | none =>
      match fs.entryFault env p with
      | some kind => .error kind
      | none => .ok (fs.place p (.file (env.attr 0o600) [] false))
  | some (.file attr _ _) =>
      if env.permits attr 0o600 p then .ok fs else .error .permissionDenied
  | some (.directory _) => .error .isADirectory
  | some .symlink => .error .filesystemLoop
  | some (.special _ _) => .error .other

/-- The file at the path with its attributes and contents changed. -/
def rewrite (p : FsPath) (f : Attr → Bytes → Attr × Bytes) : FileSystem :=
  match fs.node p with
  | some (.file attr contents holes) =>
      fs.place p (.file (f attr contents).1 (f attr contents).2 holes)
  | _ => fs

/-- `fchmod` on the lock file. -/
def permissionsSet (p : FsPath) (mode : Nat) : Except ErrorKind FileSystem :=
  match fs.node p with
  | some (.file attr _ _) =>
      if env.uid = 0 ∨ attr.owner = env.uid then
        .ok (fs.rewrite p fun attr contents => ({ attr with mode := mode }, contents))
      else .error .permissionDenied
  | _ => .ok fs

/-- The directory an entry is unpacked to: a new one, or the one that is there,
with the mode of the entry. -/
def unpackedDirectory (p : FsPath) (mode : Nat) : Except ErrorKind FileSystem :=
  match fs.node p with
  | none =>
      match fs.makeDirectory env (mode &&& 0o777) p with
      | .error kind => .error kind
      | .ok fs => .ok fs
  | some (.directory attr) =>
      if env.uid = 0 ∨ attr.owner = env.uid then
        .ok (fs.place p (.directory { attr with mode := mode &&& 0o777 }))
      else .error .permissionDenied
  | some _ => .error .alreadyExists

/-- A file that is in the way of an entry is removed first. -/
def cleared (p : FsPath) : Except ErrorKind FileSystem :=
  if fs.node p = none then .ok fs else fs.unlinked env p

/-- The file an entry is unpacked to. -/
def unpackedFile (p : FsPath) (mode : Nat) (body : Bytes) : Except ErrorKind FileSystem :=
  match fs.cleared env p with
  | .error kind => .error kind
  | .ok fs => fs.createNew env p (.file (env.attr (mode &&& 0o777)) body false)

/-- `unpack_in`, where the body of the entry can be read. -/
def unpacked (destination path : FsPath) (entry : Unpacking) : Except ErrorKind FileSystem :=
  match makeDirectories env env.directoryMode fs
      (((ancestry path).dropLast).map (destination ++ ·)) with
  | .error kind => .error kind
  | .ok fs =>
      if entry.isDir then fs.unpackedDirectory env (destination ++ path) entry.mode
      else fs.unpackedFile env (destination ++ path) entry.mode entry.body

/-- What an unpacking that fails leaves: nothing, or a file with part of its body. -/
def partlyUnpacked (destination path : FsPath) (entry : Unpacking) (progress : Nat) :
    FileSystem :=
  match fs.unpacked env destination path
      { entry with body := entry.body.take progress, fault := none } with
  | .ok fs => fs
  | .error _ => fs

/-- What stops the walk of `append_dir_all` at a node. -/
def walkFault (p : FsPath) : Node → Option ErrorKind
  | .file attr _ _ => if env.permits attr 0o400 p then none else some .permissionDenied
  | .directory attr => if env.permits attr 0o500 p then none else some .permissionDenied
  | _ => none

/-- The nodes of a walk, up to the first that cannot be read. -/
def walk (directory : FsPath) : List FsPath → List TreeEntry × Option IoError
  | [] => ([], none)
  | path :: rest =>
      match fs.node (directory ++ path) with
      | none => walk directory rest
      | some n =>
          match walkFault env (directory ++ path) n with
          | some kind => ([], some (.os kind))
          | none => (⟨path, n⟩ :: (walk directory rest).1, (walk directory rest).2)

/-- The listing meets exactly what lies at and below the directory, each directory
before what is in it. -/
structure Enumerates (directory : FsPath) (listing : List FsPath) : Prop where
  mem_iff : ∀ path, path ∈ listing ↔ fs.node (directory ++ path) ≠ none
  parentFirst : listing.Pairwise fun a b => ¬ b <+: a

end FileSystem

namespace World

/-- A call that changes files: it fails for an unrelated reason, leaving `partly`,
or it does what the files allow. -/
def change (w : World) (fault : Option ErrorKind) (partly : FileSystem)
    (result : Except ErrorKind FileSystem) : Except IoError Unit × World :=
  match fault, result with
  | some kind, _ => (.error (.os kind), { w with fs := partly })
  | none, .error kind => (.error (.os kind), { w with fs := partly })
  | none, .ok fs => (.ok (), { w with fs := fs })

/-- A call that changes nothing. -/
def inspect {α : Type} (w : World) (fault : Option ErrorKind) (result : Except ErrorKind α) :
    Except IoError α × World :=
  match fault, result with
  | some kind, _ => (.error (.os kind), w)
  | none, .error kind => (.error (.os kind), w)
  | none, .ok a => (.ok a, w)

/-- The lock on a path is given up, if this handle has it. -/
def release (w : World) (p : FsPath) (lock : Handle) : World :=
  if w.locked p = some lock then
    { w with locked := fun q => if q = p then none else w.locked q }
  else w

end World

open FileSystem in
/-- The machine. -/
def respond (env : Env) (oracle : Oracle) (w : World) : (op : Op) → op.Reply × World
  | .lstat p =>
      w.inspect oracle.fault (match w.fs.node p with
        | none => .error (w.fs.absence p)
        | some n => .ok n.status)
  | .createDirectories p =>
      w.change oracle.fault
        (if oracle.fault = none then w.fs
          else w.fs.partlyMade env 0o700 ((ancestry p).take oracle.progress))
        (makeDirectories env 0o700 w.fs (ancestry p))
  | .createDirectory p => w.change oracle.fault w.fs (w.fs.makeDirectory env env.directoryMode p)
  | .createTemporaryDirectory =>
      let p := env.tempDir ++ [oracle.name]
      match w.change oracle.fault w.fs (w.fs.makeDirectory env env.directoryMode p) with
      | (.error e, w) => (.error e, w)
      | (.ok (), w) => (.ok p, w)
  | .createFile p =>
      match w.change oracle.fault w.fs (w.fs.createNew env p (.file (env.attr 0o600) [] false)) with
      | (.error e, w) => (.error e, w)
      | (.ok (), w) => (.ok oracle.transfer, w)
  | .store p contents =>
      ((), { w with fs := w.fs.rewrite p fun attr _ => (attr, contents) })
  | .sync _ => w.inspect oracle.fault (.ok ())
  | .rename source target => w.change oracle.fault w.fs (w.fs.renamed env source target)
  | .removeFile p => w.change oracle.fault w.fs (w.fs.unlinked env p)
  | .removeTree p =>
      w.change oracle.fault (w.fs.partlyRemoved p oracle.removed) (w.fs.treeRemoved env p)
  | .openRead p =>
      match w.inspect oracle.fault (w.fs.readable env p) with
      | (.error e, w) => (.error e, w)
      | (.ok contents, w) =>
          match oracle.transfer with
          | none => (.ok (contents, none), w)
          | some fault => (.ok (contents.take fault.after, some fault), w)
  | .openDirectory p => w.change oracle.fault w.fs (w.fs.directoryReadable env p)
  | .canonicalize p =>
      w.inspect oracle.fault (if w.fs.node p = none then .error (w.fs.absence p) else .ok p)
  | .openLock p =>
      match w.change oracle.fault w.fs (w.fs.lockOpened env p) with
      | (.error e, w) => (.error e, w)
      | (.ok (), w) =>
          (.ok { process := env.process, serial := w.nextSerial },
            { w with nextSerial := w.nextSerial + 1 })
  | .setPermissions p mode => w.change oracle.fault w.fs (w.fs.permissionsSet env p mode)
  | .tryLock p lock =>
      match oracle.fault with
      | some kind => (.error (.os kind), w)
      | none =>
          if w.locked p = none ∨ w.locked p = some lock then
            (.ok (), { w with locked := fun q => if q = p then some lock else w.locked q })
          else (.error (.os .wouldBlock), w)
  | .setLength p => w.change oracle.fault w.fs (.ok (w.fs.rewrite p fun attr _ => (attr, [])))
  | .seek _ => w.inspect oracle.fault (.ok ())
  | .writeText p text =>
      w.change oracle.fault
        (w.fs.rewrite p fun attr contents =>
          (attr, contents ++ (textBytes text).take oracle.progress))
        (.ok (w.fs.rewrite p fun attr contents => (attr, contents ++ textBytes text)))
  | .unlockFile p lock =>
      match oracle.fault with
      | some kind => (.error (.os kind), w)
      | none => (.ok (), w.release p lock)
  | .closeFile p lock => ((), w.release p lock)
  | .unpack destination path entry =>
      let partly := w.fs.partlyUnpacked env destination path entry oracle.progress
      match oracle.fault, entry.fault with
      | none, some e =>
          if entry.isDir then w.change none partly (w.fs.unpacked env destination path entry)
          else (.error { e with integrity := none }, { w with fs := partly })
      | fault, _ => w.change fault partly (w.fs.unpacked env destination path entry)
  | .readTree p =>
      match w.fs.node p with
      | none => (([], some (.os (w.fs.absence p))), w)
      | some _ =>
          let out := walk env w.fs p oracle.listing
          match oracle.fault with
          | none => (out, w)
          | some kind => ((out.1.take oracle.progress, some (.os kind)), w)
  | .random size =>
      match oracle.fault with
      | some _ => (none, w)
      | none => (some (oracle.draw size), w)
  | .newUuid => (oracle.uuid, w)
  | .now => (oracle.clock, w)
  | .processId => (env.process, w)

/-- The machine, and the record of the call. -/
def serve (env : Env) (oracle : Oracle) (w : World) (op : Op) : op.Reply × World :=
  let out := respond env oracle w op
  (out.1, { out.2 with history := ⟨op, op.failure out.1⟩ :: out.2.history })

/-- What the machine can come up with.  A transfer that was interrupted is
retried and is no failure. -/
structure Oracle.Admissible (oracle : Oracle) (w : World) (op : Op) : Prop where
  listing : ∀ p, op = .readTree p → w.fs.Enumerates p oracle.listing
  interrupted : ∀ fault, oracle.transfer = some fault → fault.kind ≠ .interrupted

/-- Nothing fails that the files allow. -/
structure Oracle.Quiet (oracle : Oracle) : Prop where
  fault : oracle.fault = none
  transfer : oracle.transfer = none

/-- The machine as a contract on one process: any admissible oracle within
`allowed`. -/
def machine (env : Env) (allowed : Oracle → Prop) : Contract Op Op.Reply World where
  may op w r w' := ∃ oracle : Oracle, allowed oracle ∧ oracle.Admissible w op ∧
    serve env oracle w op = (r, w')

end CodexVault
