import CodexVault.FileSystem

/-!
# Tar archives

The program builds its archives with `append_dir_all` and reads them entry by
entry.  Which entry stands for which file is decided here, as the library does
it; the bytes of an entry and the parsing of a stream are a parameter `Tar`.

`unpackTarget` is the path arithmetic of `unpack_in`.
-/

namespace CodexVault

open ByteStrings

/-- `tar::EntryType`, as far as the program tells the types apart. -/
inductive EntryType where
  | regular
  | directory
  | symlink
  | hardLink
  | fifo
  | charDevice
  | blockDevice
  | gnuSparse
  | other
  deriving DecidableEq

/-- `EntryType::is_file`. -/
def EntryType.isFile : EntryType → Bool
  | regular => true
  | _ => false

/-- `EntryType::is_dir`. -/
def EntryType.isDir : EntryType → Bool
  | directory => true
  | _ => false

/-- `EntryType::is_symlink`. -/
def EntryType.isSymlink : EntryType → Bool
  | symlink => true
  | _ => false

/-- `EntryType::is_hard_link`. -/
def EntryType.isHardLink : EntryType → Bool
  | hardLink => true
  | _ => false

/-- `std::path::Component`. -/
inductive PathComponent where
  | rootDir
  | curDir
  | parentDir
  | normal (name : String)
  deriving DecidableEq

/-- An entry of an archive. -/
structure TarEntry where
  path : List PathComponent
  entryType : EntryType
  /-- Permission bits. -/
  mode : Nat
  body : Bytes
  deriving DecidableEq

/-- What a directory walk meets: a path relative to the directory and the node. -/
structure TreeEntry where
  path : FsPath
  node : Node
  deriving DecidableEq

/-- The path of an entry of `append_dir_all(".", ..)`: the header drops `./` except for
the directory itself. -/
def archivePath (path : FsPath) : List PathComponent :=
  if path = [] then [.curDir] else path.map .normal

/-- The entry `append_dir_all` writes for a node, with `sparse` on and
`follow_symlinks` off. -/
def archiveEntry (entry : TreeEntry) : Except IoError TarEntry :=
  match entry.node with
  | .file attr contents holes =>
      .ok { path := archivePath entry.path
            entryType := if holes then .gnuSparse else .regular
            mode := attr.mode
            body := contents }
  | .directory attr =>
      .ok { path := archivePath entry.path, entryType := .directory, mode := attr.mode, body := [] }
  | .symlink =>
      .ok { path := archivePath entry.path, entryType := .symlink, mode := 0o777, body := [] }
  | .special .fifo attr =>
      .ok { path := archivePath entry.path, entryType := .fifo, mode := attr.mode, body := [] }
  | .special .charDevice attr =>
      .ok { path := archivePath entry.path, entryType := .charDevice, mode := attr.mode,
            body := [] }
  | .special .blockDevice attr =>
      .ok { path := archivePath entry.path, entryType := .blockDevice, mode := attr.mode,
            body := [] }
  | .special .socket _ => .error (.other "socket can not be archived")

/-- The entries of a walk up to the first node that cannot be archived. -/
def archiveEntries : List TreeEntry → List TarEntry × Option IoError
  | [] => ([], none)
  | entry :: rest =>
      match archiveEntry entry with
      | .error e => ([], some e)
      | .ok first => (first :: (archiveEntries rest).1, (archiveEntries rest).2)

/-- Where `unpack_in` puts an entry, relative to the destination; nothing when
the path has a parent component. -/
def unpackTarget : List PathComponent → Option FsPath
  | [] => some []
  | .parentDir :: _ => none
  | .rootDir :: rest => unpackTarget rest
  | .curDir :: rest => unpackTarget rest
  | .normal name :: rest => (unpackTarget rest).map (name :: ·)

@[simp] theorem unpackTarget_archivePath (path : FsPath) :
    unpackTarget (archivePath path) = some path := by
  have hnormal : unpackTarget (path.map .normal) = some path := by
    induction path with
    | nil => rfl
    | cons name rest ih => simp [unpackTarget, ih]
  unfold archivePath
  split
  · next hroot =>
      rw [hroot]
      rfl
  · exact hnormal

/-- An entry as the iterator hands it out. -/
structure ReadEntry where
  entry : TarEntry
  /-- The name ends in a slash and the header is not of the ustar format; `unpack_in` then
  makes a directory, whatever the type. -/
  slashed : Bool
  /-- The error that reading the body meets, if any. -/
  fault : Option IoError
  deriving DecidableEq

/-- `unpack_in` makes a directory of the entry. -/
def ReadEntry.makesDirectory (read : ReadEntry) : Bool :=
  read.entry.entryType.isDir || read.slashed

/-- The entry is what was written, as far as unpacking it depends on it: the spelling of
the path and the bits above the permissions may differ. -/
structure ReadEntry.Restores (read : ReadEntry) (written : TarEntry) : Prop where
  target : unpackTarget read.entry.path = unpackTarget written.path
  entryType : read.entry.entryType = written.entryType
  mode : read.entry.mode &&& 0o777 = written.mode &&& 0o777
  body : read.entry.body = written.body
  plain : written.entryType = .regular → read.slashed = false
  fault : read.fault = none

/-- The entry read back as it was written. -/
def TarEntry.unchanged (entry : TarEntry) : ReadEntry :=
  { entry := entry, slashed := false, fault := none }

theorem TarEntry.restores_unchanged (entry : TarEntry) : entry.unchanged.Restores entry :=
  ⟨rfl, rfl, rfl, rfl, fun _ => rfl, rfl⟩

theorem restores_map_unchanged (entries : List TarEntry) :
    List.Forall₂ ReadEntry.Restores (entries.map TarEntry.unchanged) entries := by
  induction entries with
  | nil => exact .nil
  | cons entry rest ih => exact .cons entry.restores_unchanged ih

/-- What a stream delivers, and the error it ends with. -/
abbrev Delivered := Bytes × Option IoError

/-- The part of the tar library that deals with bytes. -/
structure Tar where
  /-- The `write` calls of the builder for one entry. -/
  entryWrites : TarEntry → List Bytes
  /-- What iterating over a stream hands out, and the error it ends with. -/
  entries : Delivered → List ReadEntry × Option IoError
  /-- The sizes of the `read` calls the iteration makes. -/
  readSizes : Delivered → List Nat

namespace Tar

/-- The block of zeros that ends an archive, one `write` call. -/
def trailer : Bytes := List.replicate 1024 0

/-- The `write` calls for a list of entries. -/
def writes (tar : Tar) (entries : List TarEntry) : List Bytes :=
  (entries.map tar.entryWrites).flatten

/-- The bytes of a finished archive. -/
def archive (tar : Tar) (entries : List TarEntry) : Bytes :=
  (tar.writes entries ++ [trailer]).flatten

/-- Reading a finished archive gives its entries back. -/
def RoundTrips (tar : Tar) (entries : List TarEntry) : Prop :=
  ∃ found, tar.entries (tar.archive entries, none) = (found, none) ∧
    List.Forall₂ ReadEntry.Restores found entries

end Tar

end CodexVault
