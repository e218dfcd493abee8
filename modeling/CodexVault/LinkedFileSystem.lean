import CodexVault.TarArchive

/-!
# A file system with links

`LinkedFiles` keeps what `FileSystem` leaves out: the targets of symbolic links, and
the inodes that regular files share when they are hard links to one another.  A
location is a path that passes no link.

`Resolves` follows every link on a path and `Lands` every link but a last one, as
system calls do.  Both keep their result when entries are added.
-/

namespace CodexVault

open ByteStrings

/-- What is at a location. -/
inductive Entry where
  | file (inode : Nat)
  | directory (attr : Attr)
  | symlink (attr : Attr) (target : List PathComponent)
  | special (kind : SpecialKind) (attr : Attr)
  deriving DecidableEq

/-- The files of a machine, by their locations. -/
structure LinkedFiles where
  entry : FsPath → Option Entry
  inode : Nat → Option (Attr × Bytes)
  parent_of : ∀ {p name}, entry (p ++ [name]) ≠ none → ∃ attr, entry p = some (.directory attr)
  name_of : ∀ {p name}, entry (p ++ [name]) ≠ none → name ≠ "." ∧ name ≠ ".."

/-- The components of a path that a call is given. -/
def components (path : FsPath) : List PathComponent :=
  path.map fun name =>
    if name = "." then .curDir else if name = ".." then .parentDir else .normal name

namespace LinkedFiles

variable (fs : LinkedFiles)

def IsDirectory (loc : FsPath) : Prop := ∃ attr, fs.entry loc = some (.directory attr)

/-- From `cur` on, the components lead to the location, every link followed. -/
inductive Resolves : FsPath → List PathComponent → FsPath → Prop
  | here (cur : FsPath) : Resolves cur [] cur
  | root {cur : FsPath} {rest : List PathComponent} {loc : FsPath} (h : Resolves [] rest loc) :
      Resolves cur (.rootDir :: rest) loc
  | same {cur : FsPath} {rest : List PathComponent} {loc : FsPath} (hdir : fs.IsDirectory cur)
      (h : Resolves cur rest loc) : Resolves cur (.curDir :: rest) loc
  | up {cur : FsPath} {rest : List PathComponent} {loc : FsPath} (hdir : fs.IsDirectory cur)
      (h : Resolves cur.dropLast rest loc) : Resolves cur (.parentDir :: rest) loc
  | step {cur : FsPath} {name : String} {rest : List PathComponent} {loc : FsPath} {e : Entry}
      (he : fs.entry (cur ++ [name]) = some e) (hreal : ∀ attr target, e ≠ .symlink attr target)
      (h : Resolves (cur ++ [name]) rest loc) : Resolves cur (.normal name :: rest) loc
  | link {cur : FsPath} {name : String} {rest target : List PathComponent} {loc : FsPath}
      {attr : Attr} (he : fs.entry (cur ++ [name]) = some (.symlink attr target))
      (h : Resolves cur (target ++ rest) loc) : Resolves cur (.normal name :: rest) loc

/-- The components lead to the location, a link at the end not followed. -/
inductive Lands : List PathComponent → FsPath → Prop
  | last {init : List PathComponent} {parent : FsPath} {name : String}
      (h : Resolves fs [] init parent) (hdir : fs.IsDirectory parent) :
      Lands (init ++ [.normal name]) (parent ++ [name])
  | whole {path : List PathComponent} {loc : FsPath}
      (hlast : ∀ name, path.getLast? ≠ some (.normal name)) (h : Resolves fs [] path loc) :
      Lands path loc

/-- Every entry of the one is in the other. -/
def Within (fs fs' : LinkedFiles) : Prop := ∀ loc e, fs.entry loc = some e → fs'.entry loc = some e

variable {fs} {fs' : LinkedFiles}

theorem Within.isDirectory (h : Within fs fs') {loc : FsPath} (hdir : fs.IsDirectory loc) :
    fs'.IsDirectory loc := by
  obtain ⟨attr, hattr⟩ := hdir
  exact ⟨attr, h _ _ hattr⟩

/-- What resolves still does when entries are added. -/
theorem Resolves.mono (hwithin : Within fs fs') {cur loc : FsPath} {path : List PathComponent}
    (h : fs.Resolves cur path loc) : fs'.Resolves cur path loc := by
  induction h with
  | here cur => exact .here cur
  | root _ ih => exact .root ih
  | same hdir _ ih => exact .same (hwithin.isDirectory hdir) ih
  | up hdir _ ih => exact .up (hwithin.isDirectory hdir) ih
  | step he hreal _ ih => exact .step (hwithin _ _ he) hreal ih
  | link he _ ih => exact .link (hwithin _ _ he) ih

theorem Lands.mono (hwithin : Within fs fs') {loc : FsPath} {path : List PathComponent}
    (h : fs.Lands path loc) : fs'.Lands path loc := by
  cases h with
  | last h hdir => exact .last (h.mono hwithin) (hwithin.isDirectory hdir)
  | whole hlast h => exact .whole hlast (h.mono hwithin)

/-- A path leads to one location. -/
theorem Resolves.unique {cur a b : FsPath} {path : List PathComponent}
    (ha : fs.Resolves cur path a) (hb : fs.Resolves cur path b) : a = b := by
  induction ha with
  | here cur =>
      cases hb
      rfl
  | root _ ih =>
      cases hb with
      | root hb => exact ih hb
  | same _ _ ih =>
      cases hb with
      | same _ hb => exact ih hb
  | up _ _ ih =>
      cases hb with
      | up _ hb => exact ih hb
  | step he hreal _ ih =>
      cases hb with
      | step _ _ hb => exact ih hb
      | link hlink _ =>
          rw [he] at hlink
          exact absurd (Option.some.inj hlink) (hreal _ _)
  | link he _ ih =>
      cases hb with
      | step hother hreal _ =>
          rw [he] at hother
          exact absurd (Option.some.inj hother).symm (hreal _ _)
      | link hlink hb =>
          rw [he] at hlink
          cases hlink
          exact ih hb

theorem Resolves.append {cur mid loc : FsPath} {path rest : List PathComponent}
    (h : fs.Resolves cur path mid) (hrest : fs.Resolves mid rest loc) :
    fs.Resolves cur (path ++ rest) loc := by
  induction h with
  | here cur => exact hrest
  | root _ ih => exact .root (ih hrest)
  | same hdir _ ih => exact .same hdir (ih hrest)
  | up hdir _ ih => exact .up hdir (ih hrest)
  | step he hreal _ ih => exact .step he hreal (ih hrest)
  | link he _ ih =>
      have hfollowed := ih hrest
      rw [List.append_assoc] at hfollowed
      exact .link he hfollowed

theorem Lands.unique {path : List PathComponent} {a b : FsPath} (ha : fs.Lands path a)
    (hb : fs.Lands path b) : a = b := by
  generalize hpath : path = other at hb
  cases ha with
  | last h _ =>
      cases hb with
      | last h' _ =>
          obtain ⟨hinit, hname⟩ := List.append_inj' hpath rfl
          cases hinit
          cases hname
          rw [h.unique h']
      | whole hlast _ =>
          rw [← hpath] at hlast
          exact absurd List.getLast?_concat (hlast _)
  | whole hlast h =>
      cases hb with
      | last _ _ =>
          rw [hpath] at hlast
          exact absurd List.getLast?_concat (hlast _)
      | whole _ h' => exact h.unique (hpath ▸ h')

/-- Where a path lands on a directory, it also leads there. -/
theorem Lands.resolves {path : List PathComponent} {loc : FsPath} (h : fs.Lands path loc)
    (hdir : fs.IsDirectory loc) : fs.Resolves [] path loc := by
  cases h with
  | last h _ =>
      obtain ⟨attr, hattr⟩ := hdir
      exact h.append (.step hattr (fun _ _ => Entry.noConfusion) (.here _))
  | whole _ h => exact h

/-- A location leads to itself. -/
theorem resolves_location {loc : FsPath} {e : Entry} (he : fs.entry loc = some e)
    (hreal : ∀ attr target, e ≠ .symlink attr target) :
    fs.Resolves [] (components loc) loc := by
  induction loc using List.reverseRecOn generalizing e with
  | nil => exact .here []
  | append_singleton parent name ih =>
      have hsome : fs.entry (parent ++ [name]) ≠ none := by
        rw [he]
        exact Option.some_ne_none _
      obtain ⟨attr, hattr⟩ := fs.parent_of hsome
      obtain ⟨hdot, hdots⟩ := fs.name_of hsome
      have hparent := ih hattr fun _ _ => Entry.noConfusion
      rw [components, List.map_append, List.map_singleton, if_neg hdot, if_neg hdots]
      exact hparent.append (.step he hreal (.here _))

/-! ## Below a directory without links -/

theorem Resolves.split {cur loc : FsPath} {first rest : List PathComponent}
    (h : fs.Resolves cur (first ++ rest) loc) :
    ∃ mid, fs.Resolves cur first mid ∧ fs.Resolves mid rest loc := by
  generalize hpath : first ++ rest = path at h
  induction h generalizing first with
  | here cur =>
      obtain ⟨rfl, rfl⟩ := List.append_eq_nil_iff.mp hpath
      exact ⟨cur, .here cur, .here cur⟩
  | @root cur rest' loc h ih =>
      cases first with
      | nil =>
          cases hpath
          exact ⟨cur, .here cur, .root h⟩
      | cons c first =>
          obtain ⟨rfl, hrest⟩ := List.cons.inj hpath
          obtain ⟨mid, hfirst, hsecond⟩ := ih hrest
          exact ⟨mid, .root hfirst, hsecond⟩
  | @same cur rest' loc hdir h ih =>
      cases first with
      | nil =>
          cases hpath
          exact ⟨cur, .here cur, .same hdir h⟩
      | cons c first =>
          obtain ⟨rfl, hrest⟩ := List.cons.inj hpath
          obtain ⟨mid, hfirst, hsecond⟩ := ih hrest
          exact ⟨mid, .same hdir hfirst, hsecond⟩
  | @up cur rest' loc hdir h ih =>
      cases first with
      | nil =>
          cases hpath
          exact ⟨cur, .here cur, .up hdir h⟩
      | cons c first =>
          obtain ⟨rfl, hrest⟩ := List.cons.inj hpath
          obtain ⟨mid, hfirst, hsecond⟩ := ih hrest
          exact ⟨mid, .up hdir hfirst, hsecond⟩
  | @step cur name rest' loc e he hreal h ih =>
      cases first with
      | nil =>
          cases hpath
          exact ⟨cur, .here cur, .step he hreal h⟩
      | cons c first =>
          obtain ⟨rfl, hrest⟩ := List.cons.inj hpath
          obtain ⟨mid, hfirst, hsecond⟩ := ih hrest
          exact ⟨mid, .step he hreal hfirst, hsecond⟩
  | @link cur name rest' target loc attr he h ih =>
      cases first with
      | nil =>
          cases hpath
          exact ⟨cur, .here cur, .link he h⟩
      | cons c first =>
          obtain ⟨rfl, hrest⟩ := List.cons.inj hpath
          obtain ⟨mid, hfirst, hsecond⟩ := @ih (target ++ first)
            (by rw [List.append_assoc]; exact congrArg (target ++ ·) hrest)
          exact ⟨mid, .link he hfirst, hsecond⟩

/-- There is no link at or below the location. -/
def LinkFree (fs : LinkedFiles) (d : FsPath) : Prop :=
  ∀ rest attr target, fs.entry (d ++ rest) ≠ some (.symlink attr target)

/-- Where there is no link, names lead where they say. -/
theorem LinkFree.resolves_eq {d : FsPath} (hfree : fs.LinkFree d) {names loc : FsPath}
    (h : fs.Resolves d (names.map .normal) loc) : loc = d ++ names := by
  induction names generalizing d with
  | nil =>
      cases h
      exact (List.append_nil _).symm
  | cons name rest ih =>
      have hnext : fs.LinkFree (d ++ [name]) := by
        intro rest attr target
        rw [List.append_assoc]
        exact hfree _ attr target
      cases h with
      | step _ _ h =>
          rw [ih hnext h, List.append_assoc]
          rfl
      | link he _ => exact absurd he (hfree _ _ _)

/-- So do paths whose first part leads there. -/
theorem LinkFree.below {d : FsPath} (hfree : fs.LinkFree d) {path : List PathComponent}
    (hpath : fs.Resolves [] path d) {names loc : FsPath}
    (h : fs.Resolves [] (path ++ names.map .normal) loc) : loc = d ++ names := by
  obtain ⟨mid, hfirst, hsecond⟩ := h.split
  obtain rfl := hpath.unique hfirst
  exact hfree.resolves_eq hsecond

theorem LinkFree.lands {d : FsPath} (hfree : fs.LinkFree d) {path : List PathComponent}
    (hpath : fs.Resolves [] path d) {names loc : FsPath} (hne : names ≠ [])
    (h : fs.Lands (path ++ names.map .normal) loc) : loc = d ++ names := by
  obtain ⟨init, name, rfl⟩ := (List.eq_nil_or_concat' names).resolve_left hne
  rw [List.map_append, ← List.append_assoc] at h
  generalize hwhole : path ++ init.map .normal ++ [name].map .normal = whole at h
  cases h with
  | @last first parent last h _ =>
      obtain ⟨hinit, hname⟩ := List.append_inj' hwhole rfl
      cases hname
      rw [← hinit] at h
      rw [hfree.below hpath h, List.append_assoc]
  | whole hlast _ =>
      rw [← hwhole] at hlast
      exact absurd List.getLast?_concat (hlast name)

/-! ## Changes -/

variable (fs)

/-- An entry can be put at the location: its parent is a directory, and a directory
is not replaced by something else. -/
structure CanPut (parent : FsPath) (name : String) (e : Entry) : Prop where
  isDirectory : fs.IsDirectory parent
  named : name ≠ "." ∧ name ≠ ".."
  keeps : fs.IsDirectory (parent ++ [name]) → ∃ attr, e = .directory attr

/-- The files with an entry at a location. -/
def put (parent : FsPath) (name : String) (e : Entry) (h : fs.CanPut parent name e) :
    LinkedFiles where
  entry q := if q = parent ++ [name] then some e else fs.entry q
  inode := fs.inode
  parent_of := by
    intro q child hq
    have hdir : fs.IsDirectory q := by
      split at hq
      · next heq =>
          rw [(List.append_inj' heq rfl).1]
          exact h.isDirectory
      · exact fs.parent_of hq
    split
    · next heq =>
        obtain ⟨attr, rfl⟩ := h.keeps (heq ▸ hdir)
        exact ⟨attr, rfl⟩
    · exact hdir
  name_of := by
    intro q child hq
    split at hq
    · next heq =>
        rw [(List.cons.inj (List.append_inj' heq rfl).2).1]
        exact h.named
    · exact fs.name_of hq

/-- The files without the entry at a location, which is no directory. -/
def remove (loc : FsPath) (h : ¬ fs.IsDirectory loc) : LinkedFiles where
  entry q := if q = loc then none else fs.entry q
  inode := fs.inode
  parent_of := by
    intro q child hq
    split at hq
    · exact absurd rfl hq
    · obtain ⟨attr, hattr⟩ := fs.parent_of hq
      rw [if_neg]
      · exact ⟨attr, hattr⟩
      · rintro rfl
        exact h ⟨attr, hattr⟩
  name_of := by
    intro q child hq
    split at hq
    · exact absurd rfl hq
    · exact fs.name_of hq

/-- The files with other attributes for a directory. -/
def setAttr (loc : FsPath) (attr : Attr) (h : fs.IsDirectory loc) : LinkedFiles where
  entry q := if q = loc then some (.directory attr) else fs.entry q
  inode := fs.inode
  parent_of := by
    intro q child hq
    have hdir : fs.IsDirectory q := by
      split at hq
      · next heq =>
          obtain ⟨old, hold⟩ := h
          exact fs.parent_of (by rw [heq, hold]; exact Option.some_ne_none _)
      · exact fs.parent_of hq
    split
    · exact ⟨attr, rfl⟩
    · exact hdir
  name_of := by
    intro q child hq
    split at hq
    · next heq =>
        obtain ⟨old, hold⟩ := h
        exact fs.name_of (by rw [heq, hold]; exact Option.some_ne_none _)
    · exact fs.name_of hq

/-- The files with the attributes and contents of an inode. -/
def write (n : Nat) (attr : Attr) (contents : Bytes) : LinkedFiles :=
  { fs with inode := fun m => if m = n then some (attr, contents) else fs.inode m }

variable {fs}

theorem within_put {parent : FsPath} {name : String} {e : Entry} (h : fs.CanPut parent name e)
    (hnew : fs.entry (parent ++ [name]) = none) : Within fs (fs.put parent name e h) := by
  intro q e' he'
  refine (if_neg ?_).trans he'
  rintro rfl
  rw [hnew] at he'
  cases he'

end LinkedFiles

end CodexVault
