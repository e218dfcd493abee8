import CodexVault.LinkedFileSystem
import CodexVault.PrivatePaths
import Mathlib.Logic.Relation

/-!
# System calls in a file system with links

`linkedMachine` is a machine whose paths may pass symbolic links.  It says what the
calls that look at paths and make entries can do, and nothing about the others; any
of its calls may fail.
-/

namespace CodexVault

open ByteStrings Programs

/-- The machine; `history` lists the calls made, newest first. -/
structure LinkedWorld where
  files : LinkedFiles
  history : List Op

namespace LinkedFiles

variable (fs : LinkedFiles)

/-- What `symlink_metadata` reports of an entry. -/
def status : Entry → FileStatus
  | .file n =>
      let (attr, contents) := (fs.inode n).getD (⟨0, 0⟩, [])
      { isFile := true, isDir := false, len := contents.length, uid := attr.owner,
        mode := attr.mode }
  | .directory attr =>
      { isFile := false, isDir := true, len := 0, uid := attr.owner, mode := attr.mode }
  | .symlink attr _ | .special _ attr =>
      { isFile := false, isDir := false, len := 0, uid := attr.owner, mode := attr.mode }

/-- What a recursive `DirBuilder` may do on its way: it makes directories where
initial segments of the path land and nothing is. -/
inductive MadeDirectories (env : Env) (path : List PathComponent) : LinkedFiles → LinkedFiles → Prop
  | nothing (fs : LinkedFiles) : MadeDirectories env path fs fs
  | one {fs fs' : LinkedFiles} {init : List PathComponent} {parent : FsPath} {name : String}
      {attr : Attr} (h : MadeDirectories env path fs fs') (hinit : init <+: path)
      (hlands : fs'.Lands init (parent ++ [name])) (hnew : fs'.entry (parent ++ [name]) = none)
      (howner : attr.owner = env.uid) (hmode : attr.mode &&& 0o777 = attr.mode &&& 0o700)
      (hput : fs'.CanPut parent name (.directory attr)) :
      MadeDirectories env path fs (fs'.put parent name (.directory attr) hput)

/-- One step of unpacking an entry, which is a directory or a file.  The names of the
entry's path come after the destination. -/
inductive UnpackStep (env : Env) (destination path : FsPath) (entry : Unpacking) :
    LinkedFiles → LinkedFiles → Prop
  /-- A directory above the entry is made, or the entry, which is one. -/
  | parent {fs : LinkedFiles} {init : FsPath} {parent : FsPath} {name : String} {attr : Attr}
      (hinit : init <+: path) (hne : init ≠ []) (hkind : entry.isDir = true ∨ init ≠ path)
      (hlands : fs.Lands (components destination ++ init.map .normal) (parent ++ [name]))
      (hnew : fs.entry (parent ++ [name]) = none) (howner : attr.owner = env.uid)
      (hput : fs.CanPut parent name (.directory attr)) :
      UnpackStep env destination path entry fs (fs.put parent name (.directory attr) hput)
  /-- The entry is a directory and its mode is set. -/
  | mode {fs : LinkedFiles} {loc : FsPath} {attr : Attr} (hdir : entry.isDir = true)
      (hloc : fs.Resolves [] (components destination ++ path.map .normal) loc)
      (hattr : fs.entry loc = some (.directory attr)) :
      UnpackStep env destination path entry fs
        (fs.setAttr loc { attr with mode := entry.mode &&& 0o777 } ⟨attr, hattr⟩)
  /-- The entry is a file and what is in its way is removed. -/
  | clear {fs : LinkedFiles} {loc : FsPath} (hfile : entry.isDir = false)
      (hlands : fs.Lands (components destination ++ path.map .normal) loc)
      (hnot : ¬ fs.IsDirectory loc) : UnpackStep env destination path entry fs (fs.remove loc hnot)
  /-- The entry is a file and a new one is made, with part of the body or all of it. -/
  | file {fs : LinkedFiles} {parent : FsPath} {name : String} {n : Nat} {attr : Attr}
      {contents : Bytes} (hfile : entry.isDir = false)
      (hlands : fs.Lands (components destination ++ path.map .normal) (parent ++ [name]))
      (hnew : fs.entry (parent ++ [name]) = none) (hfresh : fs.inode n = none)
      (hunused : ∀ loc, fs.entry loc ≠ some (.file n)) (howner : attr.owner = env.uid)
      (hcontents : contents <+: entry.body)
      (hput : (fs.write n attr contents).CanPut parent name (.file n)) :
      UnpackStep env destination path entry fs
        ((fs.write n attr contents).put parent name (.file n) hput)

/-- The entry has been unpacked. -/
def Unpacked (destination path : FsPath) (entry : Unpacking) : Prop :=
  ∃ loc, fs.Lands (components destination ++ path.map .normal) loc ∧
    if entry.isDir then fs.IsDirectory loc
    else ∃ n attr, fs.entry loc = some (.file n) ∧ fs.inode n = some (attr, entry.body)

/-- What opening a file for reading delivers, where `transfer` is what interferes. -/
def Opened (path : FsPath) (transfer : Option TransferFault) (contents : Bytes) : Prop :=
  ∃ loc n attr stored, fs.Lands (components path) loc ∧ fs.entry loc = some (.file n) ∧
    fs.inode n = some (attr, stored) ∧
      contents = match transfer with
        | none => stored
        | some fault => stored.take fault.after

variable {fs} in
theorem Opened.unique {path : FsPath} {transfer : Option TransferFault} {a b : Bytes}
    (ha : fs.Opened path transfer a) (hb : fs.Opened path transfer b) : a = b := by
  obtain ⟨loc, n, attr, stored, hlands, hfile, hinode, rfl⟩ := ha
  obtain ⟨loc', n', attr', stored', hlands', hfile', hinode', rfl⟩ := hb
  obtain rfl := hlands.unique hlands'
  rw [hfile] at hfile'
  cases hfile'
  rw [hinode] at hinode'
  cases hinode'
  rfl

/-- What a call may do to the files; `transfer` says where reading a file fails. -/
def May (env : Env) (transfer : FsPath → Option TransferFault) :
    (op : Op) → LinkedFiles → op.Reply → LinkedFiles → Prop
  | .lstat path, fs, reply, fs' =>
      fs' = fs ∧ match reply with
        | .ok status => ∃ loc e, fs.Lands (components path) loc ∧ fs.entry loc = some e ∧
            status = fs.status e
        | .error e => e.kind = .notFound → ∀ loc, fs.Lands (components path) loc →
            fs.entry loc = none
  | .createDirectories path, fs, reply, fs' =>
      MadeDirectories env (components path) fs fs' ∧
        (reply = .ok () → ∃ loc, fs'.Resolves [] (components path) loc ∧ fs'.IsDirectory loc)
  | .canonicalize path, fs, reply, fs' =>
      fs' = fs ∧ ∀ loc, reply = .ok loc → fs.Resolves [] (components path) loc ∧
        fs.entry loc ≠ none
  | .openRead path, fs, reply, fs' =>
      fs' = fs ∧ ∀ contents fault, reply = .ok (contents, fault) →
        fault = transfer path ∧ fs.Opened path fault contents
  | .unpack destination path entry, fs, reply, fs' =>
      Relation.ReflTransGen (UnpackStep env destination path entry) fs fs' ∧
        (reply = .ok () → (entry.fault = none ∨ entry.isDir = true) ∧
          fs'.Unpacked destination path entry)
  | _, _, _, _ => True

end LinkedFiles

/-- The machine as a contract. -/
def linkedMachine (env : Env) (transfer : FsPath → Option TransferFault) :
    Contract Op Op.Reply LinkedWorld where
  may op w reply w' := LinkedFiles.May env transfer op w.files reply w'.files ∧
    w'.history = op :: w.history

end CodexVault
