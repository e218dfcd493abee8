import CodexVault.SecondNames
import CodexVault.StoreCalls
import CodexVault.LockFacts

/-!
# Taking a lock under a second name

`lockProfile` opens the lock file, sets its mode, cuts it and writes a line into it.  On a
machine with second names the file it does this to may also be another file of the store.

`LockEdits` says what has become of the files: those that are the lock file hold what was
written to it, and all others are as they were.  Apart from the second names the machine
goes through what it goes through without them (`lockMachine_of_runs`).
-/

namespace CodexVault

open ByteStrings Programs Contract

/-- The calls with which a lock is taken. -/
def Op.LocksAt (path : FsPath) : Op → Prop
  | .lstat p => p <+: path
  | .setPermissions p mode => p = path ∧ mode = 0o600
  | .openLock p | .setLength p | .writeText p _ => p = path
  | .tryLock _ _ | .seek _ | .unlockFile _ _ | .closeFile _ _ | .processId => True
  | _ => False

theorem lockCalls_locksAt {path : FsPath} : LockCalls (Op.LocksAt path) path where
  openLock := rfl
  setPermissions := ⟨rfl, rfl⟩
  tryLock _ := trivial
  setLength := rfl
  seek := trivial
  processId := trivial
  writeText _ := rfl
  unlockFile _ := trivial
  closeFile _ := trivial

section

variable {env : Env} {allowed : Oracle → Prop} {oracle : Oracle} {n n' n0 : NamedWorld}
    {w w' : World} {parent : FsPath} {name : String} {path q : FsPath} {op : Op} {attr : Attr}
    {contents : Bytes} {holes : Bool}

/-! ## The edited file -/

/-- The mode of the lock file has been set. -/
def World.ModeSet (w : World) (path : FsPath) : Prop :=
  ⟨.setPermissions path 0o600, none⟩ ∈ w.history

/-- The lock file has been cut. -/
def World.Cut (w : World) (path : FsPath) : Prop := ⟨.setLength path, none⟩ ∈ w.history

instance : Decidable (w.ModeSet path) := by
  unfold World.ModeSet
  infer_instance

instance : Decidable (w.Cut path) := by
  unfold World.Cut
  infer_instance

/-- The attributes of the lock file, once its mode has been set. -/
def NamedWorld.lockAttr (n : NamedWorld) (path : FsPath) (attr : Attr) : Attr :=
  if n.world.ModeSet path then { attr with mode := 0o600 } else attr

/-- The contents of the lock file, once it has been cut. -/
def NamedWorld.lockContents (n : NamedWorld) (path : FsPath) (contents : Bytes) : Bytes :=
  if n.world.Cut path then n.written else contents ++ n.written

/-- The files that name the lock file are edited, and no others. -/
structure NamedWorld.LockEdits (path : FsPath) (n n' : NamedWorld) : Prop where
  names : ∀ q, n'.sameFile path q = n.sameFile path q
  apart : ∀ q, q ≠ path → n.sameFile path q = false → n'.world.fs.node q = n.world.fs.node q
  file : ∀ attr contents holes, n.world.fs.node path = some (.file attr contents holes) →
    n'.world.fs.node path =
      some (.file (n'.lockAttr path attr) (n'.lockContents path contents) holes)

theorem modeSet_namedServe :
    (namedServe env oracle n op).2.world.ModeSet path ↔
      (op = .setPermissions path 0o600 ∧ op.failure (namedServe env oracle n op).1 = none) ∨
        n.world.ModeSet path := by
  unfold World.ModeSet
  rw [history_namedServe, List.mem_cons, Event.mk.injEq]
  exact or_congr_left ⟨fun h => ⟨h.1.symm, h.2.symm⟩, fun h => ⟨h.1.symm, h.2.symm⟩⟩

theorem cut_namedServe :
    (namedServe env oracle n op).2.world.Cut path ↔
      (op = .setLength path ∧ op.failure (namedServe env oracle n op).1 = none) ∨
        n.world.Cut path := by
  unfold World.Cut
  rw [history_namedServe, List.mem_cons, Event.mk.injEq]
  exact or_congr_left ⟨fun h => ⟨h.1.symm, h.2.symm⟩, fun h => ⟨h.1.symm, h.2.symm⟩⟩

/-- A call that edits no file changes nothing of what is known of the lock file. -/
theorem lockFile_of_not_edited (h : op.edited = none) :
    (namedServe env oracle n op).2.lockAttr path attr = n.lockAttr path attr ∧
      (namedServe env oracle n op).2.lockContents path contents = n.lockContents path contents := by
  have hmode : (namedServe env oracle n op).2.world.ModeSet path ↔ n.world.ModeSet path := by
    rw [modeSet_namedServe]
    refine or_iff_right fun hset => ?_
    rw [hset.1] at h
    cases h
  have hcut : (namedServe env oracle n op).2.world.Cut path ↔ n.world.Cut path := by
    rw [cut_namedServe]
    refine or_iff_right fun hset => ?_
    rw [hset.1] at h
    cases h
  have hwritten : (namedServe env oracle n op).2.written = n.written := by
    rw [written_namedServe]
    unfold NamedWorld.writtenAfter
    split
    · cases h
    · cases h
    · rfl
  unfold NamedWorld.lockAttr NamedWorld.lockContents
  rw [hwritten]
  exact ⟨if_congr hmode rfl rfl, if_congr hcut rfl rfl⟩

/-- What the calls that edit a file leave of it. -/
theorem node_setPermissions {mode : Nat} {r : Except IoError Unit}
    (hnode : w.fs.node (parent ++ [name]) = some (.file attr contents holes))
    (h : respond env oracle w (.setPermissions (parent ++ [name]) mode) = (r, w')) :
    w'.fs.node (parent ++ [name]) =
      some (.file (if (Op.setPermissions (parent ++ [name]) mode).failure r = none then
        { attr with mode := mode } else attr) contents holes) := by
  cases r with
  | error e =>
      rw [World.change_eq_error h]
      exact hnode
  | ok u =>
      obtain ⟨_, fs, hfs, rfl⟩ := World.change_eq_ok h
      unfold FileSystem.permissionsSet at hfs
      rw [hnode] at hfs
      dsimp only at hfs
      split at hfs
      · cases hfs
        exact FileSystem.node_rewrite hnode
      · cases hfs

theorem node_setLength {r : Except IoError Unit}
    (hnode : w.fs.node (parent ++ [name]) = some (.file attr contents holes))
    (h : respond env oracle w (.setLength (parent ++ [name])) = (r, w')) :
    w'.fs.node (parent ++ [name]) =
      some (.file attr (if (Op.setLength (parent ++ [name])).failure r = none then []
        else contents) holes) := by
  cases r with
  | error e =>
      rw [World.change_eq_error h]
      exact hnode
  | ok u =>
      obtain ⟨_, fs, hfs, rfl⟩ := World.change_eq_ok h
      cases hfs
      exact FileSystem.node_rewrite hnode

theorem node_writeText {text : String} {r : Except IoError Unit}
    (hnode : w.fs.node (parent ++ [name]) = some (.file attr contents holes))
    (h : respond env oracle w (.writeText (parent ++ [name]) text) = (r, w')) :
    w'.fs.node (parent ++ [name]) =
      some (.file attr (contents ++
        if (Op.writeText (parent ++ [name]) text).failure r = none then textBytes text
        else (textBytes text).take oracle.progress) holes) := by
  cases r with
  | error e =>
      rw [World.change_eq_error h]
      exact FileSystem.node_rewrite hnode
  | ok u =>
      obtain ⟨_, fs, hfs, rfl⟩ := World.change_eq_ok h
      cases hfs
      exact FileSystem.node_rewrite hnode

/-- A file that is there is opened, and not made. -/
theorem node_openLock (hnode : w.fs.node path ≠ none) :
    (respond env oracle w (.openLock path)).2.fs = w.fs := by
  have hchange : (w.change oracle.fault w.fs (w.fs.lockOpened env path)).2.fs = w.fs := by
    unfold World.change
    split
    · rfl
    · rfl
    · next hfs => exact (FileSystem.lockOpened_eq_ok hfs).2 hnode
  unfold respond
  dsimp only
  split
  · next heq => rwa [heq] at hchange
  · next heq => rwa [heq] at hchange

/-- A call that edits no file leaves a lock file that is there. -/
theorem node_of_not_edited (hop : op.LocksAt path) (hedited : op.edited = none)
    (hnode : n.world.fs.node path ≠ none) :
    (namedServe env oracle n op).2.world.fs.node path = n.world.fs.node path := by
  rw [node_namedServe (.inl hedited)]
  have hkept : ¬ op.MayChange env n.world.fs path →
      (respond env oracle n.world op).2.fs.node path = n.world.fs.node path := node_of_serve
  cases op with
  | openLock p =>
      cases hop
      rw [node_openLock hnode]
  | lstat | tryLock | seek | unlockFile | closeFile | processId => exact hkept id
  | setPermissions | setLength | writeText => cases hedited
  | _ => exact absurd hop id

/-- **What a call leaves of the lock file.** -/
theorem node_of_lockCall (hop : op.LocksAt (parent ++ [name]))
    (hnode : n.world.fs.node (parent ++ [name]) =
      some (.file (n.lockAttr (parent ++ [name]) attr) (n.lockContents (parent ++ [name]) contents)
        holes)) :
    (namedServe env oracle n op).2.world.fs.node (parent ++ [name]) =
      some (.file ((namedServe env oracle n op).2.lockAttr (parent ++ [name]) attr)
        ((namedServe env oracle n op).2.lockContents (parent ++ [name]) contents) holes) := by
  have hthere : n.world.fs.node (parent ++ [name]) ≠ none := by
    rw [hnode]
    exact Option.some_ne_none _
  cases hedited : op.edited with
  | none =>
      obtain ⟨hattr, hcontents⟩ := lockFile_of_not_edited (n := n) hedited
      rw [node_of_not_edited hop hedited hthere, hattr, hcontents, hnode]
  | some p =>
      have hreply : respond env oracle n.world op =
          ((namedServe env oracle n op).1, (respond env oracle n.world op).2) := rfl
      unfold NamedWorld.lockAttr NamedWorld.lockContents at hnode ⊢
      rw [written_namedServe]
      simp only [modeSet_namedServe, cut_namedServe]
      cases op with
      | setPermissions p mode =>
          obtain ⟨rfl, rfl⟩ := hop
          rw [node_namedServe (.inr rfl), node_setPermissions hnode hreply]
          by_cases hfails : (Op.setPermissions (parent ++ [name]) 0o600).failure
              (namedServe env oracle n (.setPermissions (parent ++ [name]) 0o600)).1 = none
          · by_cases hset : n.world.ModeSet (parent ++ [name]) <;>
              simp [hfails, hset, NamedWorld.writtenAfter]
          · simp [hfails, NamedWorld.writtenAfter]
      | setLength p =>
          cases hop
          rw [node_namedServe (.inr rfl), node_setLength hnode hreply]
          by_cases hfails : (Op.setLength (parent ++ [name])).failure
              (namedServe env oracle n (.setLength (parent ++ [name]))).1 = none <;>
            simp [hfails, NamedWorld.writtenAfter]
      | writeText p text =>
          cases hop
          rw [node_namedServe (.inr rfl), node_writeText hnode hreply]
          by_cases hcut : n.world.Cut (parent ++ [name]) <;>
            simp [hcut, NamedWorld.writtenAfter]
      | _ => cases hedited

/-! ## The other files -/

theorem edited_of_locksAt (hop : op.LocksAt path) : op.edited = none ∨ op.edited = some path := by
  cases op with
  | setPermissions p mode => exact .inr (congrArg some hop.1)
  | setLength p | writeText p text => exact .inr (congrArg some hop)
  | lstat | openLock | tryLock | seek | unlockFile | closeFile | processId => exact .inl rfl
  | _ => exact absurd hop id

/-- Besides the lock file itself, the machine changes nothing. -/
theorem node_respond_beside (hop : op.LocksAt path) (hq : q ≠ path) :
    (respond env oracle w op).2.fs.node q = w.fs.node q := by
  have hkept : ¬ op.MayChange env w.fs q →
      (respond env oracle w op).2.fs.node q = w.fs.node q := node_of_serve
  cases op with
  | setPermissions p mode => exact hkept fun h => hq (h.trans hop.1)
  | setLength p | writeText p text | openLock p => exact hkept fun h => hq (h.trans hop)
  | lstat | tryLock | seek | unlockFile | closeFile | processId => exact hkept id
  | _ => exact absurd hop id

/-- A file that is no name of the lock file is left alone. -/
theorem node_apart (hop : op.LocksAt path) (hq : q ≠ path) (hsame : n.sameFile path q = false) :
    (namedServe env oracle n op).2.world.fs.node q = n.world.fs.node q := by
  have hfs : (namedServe env oracle n op).2.world.fs.node q =
      (respond env oracle n.world op).2.fs.node q := by
    unfold namedServe
    rcases edited_of_locksAt hop with hedited | hedited
    · rw [hedited]
      rfl
    · rw [hedited]
      exact FileSystem.node_echo_of_not hsame
  rw [hfs, node_respond_beside hop hq]

/-- A second name of the lock file goes with it. -/
theorem node_alongside (hop : op.LocksAt path) (hsame : n.sameFile path q = true)
    (hregular : (namedServe env oracle n op).2.world.fs.isRegular path = true) :
    (namedServe env oracle n op).2.world.fs.node q =
      (namedServe env oracle n op).2.world.fs.node path := by
  by_cases hq : q = path
  · rw [hq]
  obtain ⟨hfile, hnode⟩ := n.agree hsame
  rcases edited_of_locksAt hop with hedited | hedited
  · have hthere : n.world.fs.node path ≠ none := by
      obtain ⟨attr, contents, holes, hnode⟩ := FileSystem.isRegular_iff.mp hfile
      rw [hnode]
      exact Option.some_ne_none _
    rw [node_of_not_edited hop hedited hthere, node_namedServe (.inl hedited),
      node_respond_beside hop hq, hnode]
  · have hother : (respond env oracle n.world op).2.fs.isRegular q = true := by
      unfold FileSystem.isRegular at hfile ⊢
      rwa [node_respond_beside hop hq, hnode]
    have hself : (respond env oracle n.world op).2.fs.isRegular path = true := by
      unfold FileSystem.isRegular at hregular ⊢
      rwa [node_namedServe (.inr hedited)] at hregular
    rw [node_namedServe (.inr hedited)]
    unfold namedServe
    rw [hedited]
    exact (FileSystem.node_echo q).trans (if_pos (by
      rw [hsame, Bool.true_and]
      exact Bool.and_eq_true_iff.mpr ⟨hother, hself⟩))

theorem origin_of_locksAt {failure : Option ErrorKind} {before : FsPath} (hop : op.LocksAt path)
    (h : op.origin env w.fs failure q = some before) : before = q := by
  cases op with
  | openLock p =>
      change (if q = p ∧ w.fs.node p = none ∧ failure = none then none else some q) =
        some before at h
      split at h
      · cases h
      · exact (Option.some.inj h).symm
  | lstat | setPermissions | tryLock | setLength | seek | writeText | unlockFile | closeFile
  | processId => exact (Option.some.inj h).symm
  | _ => exact absurd hop id

theorem origin_of_there {failure : Option ErrorKind} (hop : op.LocksAt path)
    (hnode : w.fs.node path ≠ none) : op.origin env w.fs failure q = some q := by
  cases op with
  | openLock p =>
      cases hop
      unfold Op.origin
      exact if_neg fun h => hnode h.2.1
  | lstat | setPermissions | tryLock | setLength | seek | writeText | unlockFile | closeFile
  | processId => rfl
  | _ => exact absurd hop id

/-- A lock file stays a file. -/
theorem isRegular_of_lockCall (hop : op.LocksAt (parent ++ [name]))
    (h : n.world.fs.isRegular (parent ++ [name]) = true) :
    (namedServe env oracle n op).2.world.fs.isRegular (parent ++ [name]) = true := by
  obtain ⟨attr, contents, holes, hnode⟩ := FileSystem.isRegular_iff.mp h
  have hreply : respond env oracle n.world op =
      ((namedServe env oracle n op).1, (respond env oracle n.world op).2) := rfl
  have hthere : n.world.fs.node (parent ++ [name]) ≠ none := by
    rw [hnode]
    exact Option.some_ne_none _
  apply FileSystem.isRegular_iff.mpr
  cases hedited : op.edited with
  | none => exact ⟨attr, contents, holes, (node_of_not_edited hop hedited hthere).trans hnode⟩
  | some p =>
      cases op with
      | setPermissions p mode =>
          obtain ⟨rfl, rfl⟩ := hop
          exact ⟨_, _, _, (node_namedServe (.inr rfl)).trans (node_setPermissions hnode hreply)⟩
      | setLength p =>
          cases hop
          exact ⟨_, _, _, (node_namedServe (.inr rfl)).trans (node_setLength hnode hreply)⟩
      | writeText p text =>
          cases hop
          exact ⟨_, _, _, (node_namedServe (.inr rfl)).trans (node_writeText hnode hreply)⟩
      | _ => cases hedited

/-- The names of the lock file stay what they are. -/
theorem sameFile_of_lockCall (hop : op.LocksAt (parent ++ [name])) :
    (namedServe env oracle n op).2.sameFile (parent ++ [name]) q =
      n.sameFile (parent ++ [name]) q := by
  rw [Bool.eq_iff_iff]
  constructor
  · intro h
    obtain ⟨before, before', hp, hq, hsame, _, _⟩ := NamedWorld.sameAfter_iff.mp h
    rwa [origin_of_locksAt hop hp, origin_of_locksAt hop hq] at hsame
  · intro hsame
    obtain ⟨hfile, _⟩ := n.agree hsame
    have hthere : n.world.fs.node (parent ++ [name]) ≠ none := by
      obtain ⟨attr, contents, holes, hnode⟩ := FileSystem.isRegular_iff.mp hfile
      rw [hnode]
      exact Option.some_ne_none _
    have hregular : (namedServe env oracle n op).2.world.fs.isRegular (parent ++ [name]) = true :=
      isRegular_of_lockCall hop hfile
    exact NamedWorld.sameAfter_iff.mpr ⟨parent ++ [name], q, origin_of_there hop hthere,
      origin_of_there hop hthere, hsame, hregular, (node_alongside hop hsame hregular).symm⟩

/-! ## Runs -/

namespace NamedWorld.LockEdits

/-- **One call on the lock file.** -/
theorem step (h : LockEdits (parent ++ [name]) n0 n) (hop : op.LocksAt (parent ++ [name])) :
    LockEdits (parent ++ [name]) n0 (namedServe env oracle n op).2 where
  names q := (sameFile_of_lockCall hop).trans (h.names q)
  apart q hq hsame := by
    rw [node_apart hop hq ((h.names q).trans hsame)]
    exact h.apart q hq hsame
  file attr contents holes hnode := node_of_lockCall hop (h.file attr contents holes hnode)

/-- Before the first call nothing is edited. -/
theorem begin (n : NamedWorld) (path : FsPath) : LockEdits path n.begin n.begin where
  names _ := rfl
  apart _ _ _ := rfl
  file attr contents holes hnode := by
    have hmode : ¬ n.begin.world.ModeSet path := List.not_mem_nil
    have hcut : ¬ n.begin.world.Cut path := List.not_mem_nil
    unfold NamedWorld.lockAttr NamedWorld.lockContents
    rw [if_neg hmode, if_neg hcut, hnode]
    unfold NamedWorld.begin
    rw [List.append_nil]

/-- **Taking a lock** edits the names of the lock file. -/
theorem run {α : Type} {p : Prog Op Op.Reply α} {a : α}
    (h : LockEdits (parent ++ [name]) n0 n) (hp : Uses (Op.LocksAt (parent ++ [name])) p)
    (hrun : (namedMachine env allowed).Runs p n a n') : LockEdits (parent ++ [name]) n0 n' := by
  refine runs_of_uses
    (R := fun n n' => LockEdits (parent ++ [name]) n0 n → LockEdits (parent ++ [name]) n0 n')
    (fun _ h => h) ?_ ?_ hp hrun h
  · intro s t u hst htu h
    exact htu (hst h)
  · rintro op s r t hop ⟨oracle, _, _, hserve⟩ h
    have hstep : LockEdits (parent ++ [name]) n0 (namedServe env oracle s op).2 := h.step hop
    rwa [hserve] at hstep

end NamedWorld.LockEdits

end

/-! ## The lock file and the locks -/

section

variable {lib : Libraries} {env : Env} {allowed : Oracle → Prop} {w w' : World} {n n' : NamedWorld}
    {parent path : FsPath} {name : String} {lock : Handle} {P : Bytes → Prop}

/-- The call neither cuts a file nor writes a text. -/
def Op.KeepsWritten : Op → Prop
  | .setLength _ | .writeText _ _ => False
  | _ => True

theorem keepsWritten_of_not_edited {op : Op} (h : op.edited = none) : op.KeepsWritten := by
  cases op with
  | setLength | writeText => cases h
  | _ => trivial

theorem written_of_may (path : FsPath) {op : Op} {r : op.Reply} (hop : op.KeepsWritten)
    (h : (namedMachine env allowed).may op n r n') :
    n'.written = n.written ∧ (n'.world.Cut path ↔ n.world.Cut path) := by
  obtain ⟨oracle, _, _, hserve⟩ := h
  have hwritten : (namedServe env oracle n op).2.written = n.written := by
    rw [written_namedServe]
    cases op with
    | setLength | writeText => exact absurd hop id
    | _ => rfl
  have hcut : (namedServe env oracle n op).2.world.Cut path ↔ n.world.Cut path := by
    rw [cut_namedServe]
    refine or_iff_right fun hset => ?_
    rw [hset.1] at hop
    exact hop
  rw [hserve] at hwritten hcut
  exact ⟨hwritten, hcut⟩

theorem written_of_runs (path : FsPath) {α : Type} {p : Prog Op Op.Reply α} {a : α}
    (hp : Uses Op.KeepsWritten p) (h : (namedMachine env allowed).Runs p n a n') :
    n'.written = n.written ∧ (n'.world.Cut path ↔ n.world.Cut path) := by
  refine runs_of_uses (R := fun n n' : NamedWorld =>
    n'.written = n.written ∧ (n'.world.Cut path ↔ n.world.Cut path))
    (fun _ => ⟨rfl, Iff.rfl⟩) ?_ ?_ hp h
  · intro s t u h h'
    exact ⟨h'.1.trans h.1, h'.2.trans h.2⟩
  · intro op s r t hop hmay
    exact written_of_may path hop hmay

theorem modeSet_of_runs (path : FsPath) {α : Type} {p : Prog Op Op.Reply α} {a : α}
    (hp : Uses (fun op => op.edited = none) p) (h : (namedMachine env allowed).Runs p n a n') :
    n'.world.ModeSet path ↔ n.world.ModeSet path := by
  refine runs_of_uses
    (R := fun n n' : NamedWorld => n'.world.ModeSet path ↔ n.world.ModeSet path)
    (fun _ => Iff.rfl) ?_ ?_ hp h
  · intro s t u h h'
    exact h'.trans h
  · rintro op s r t hop ⟨oracle, _, _, hserve⟩
    have hmode : (namedServe env oracle s op).2.world.ModeSet path ↔ s.world.ModeSet path := by
      rw [modeSet_namedServe]
      refine or_iff_right fun hset => ?_
      rw [hset.1] at hop
      cases hop
    rwa [hserve] at hmode

theorem writeOwner_written {r : Except VaultError Unit} (hnothing : n.written = [])
    (h : (namedMachine env allowed).Runs (do
      sys (request (.setLength path))
      sys (request (.seek path))
      let process ← ask .processId
      sys (request (.writeText path ("\x7b\"pid\":" ++ toString process ++ "\x7d\n"))) :
        Io Unit).run n r n') :
    (n'.world.Cut path ∨ n'.written = []) ∧
      (r = .ok () → n'.world.Cut path ∧ n'.written = lockText env.process) := by
  rcases runs_run_bind.mp h with ⟨e, rfl, hcut⟩ | ⟨_, n1, hcut, hrest⟩
  · obtain ⟨error, _, hmay⟩ := runs_sys_error.mp hcut
    obtain ⟨oracle, _, _, hserve⟩ := runs_request.mp hmay
    have hwritten : (namedServe env oracle n (.setLength path)).2.written = [] := by
      rw [written_namedServe, hserve]
      exact hnothing
    rw [hserve] at hwritten
    exact ⟨.inr hwritten, fun h => by cases h⟩
  obtain ⟨oracle, _, _, hserve⟩ := runs_request.mp (runs_sys_ok.mp hcut)
  have hwritten : (namedServe env oracle n (.setLength path)).2.written = [] := by
    rw [written_namedServe, hserve]
    rfl
  have hiscut : (namedServe env oracle n (.setLength path)).2.world.Cut path := by
    rw [cut_namedServe, hserve]
    exact .inl ⟨rfl, rfl⟩
  rw [hserve] at hwritten hiscut
  have hseek : (Op.seek path).KeepsWritten := trivial
  rcases runs_run_bind.mp hrest with ⟨e, rfl, hfail⟩ | ⟨_, n2, hdone, hrest⟩
  · obtain ⟨reply, hmay⟩ := runs_of_sys hfail
    obtain ⟨_, hsame⟩ := written_of_may path hseek (runs_request.mp hmay)
    exact ⟨.inl (hsame.mpr hiscut), fun h => by cases h⟩
  obtain ⟨reply, hmay⟩ := runs_of_sys hdone
  obtain ⟨hempty, hsame⟩ := written_of_may path hseek (runs_request.mp hmay)
  obtain ⟨process, n3, hprocess, hwrite⟩ := runs_ask_bind.mp hrest
  have hprocessId : Op.processId.KeepsWritten := trivial
  obtain ⟨hempty', hsame'⟩ := written_of_may path hprocessId hprocess
  obtain ⟨_, _, _, hreply⟩ := hprocess
  cases congrArg Prod.fst hreply
  obtain ⟨reply', hmay'⟩ := runs_of_sys hwrite
  obtain ⟨oracle', _, _, hlast⟩ := runs_request.mp hmay'
  have hcut' : n'.world.Cut path := by
    have hkept : (namedServe env oracle' n3 (.writeText path
        ("\x7b\"pid\":" ++ toString env.process ++ "\x7d\n"))).2.world.Cut path :=
      cut_namedServe.mpr (.inr (hsame'.mpr (hsame.mpr hiscut)))
    rwa [hlast] at hkept
  refine ⟨.inl hcut', ?_⟩
  rintro rfl
  obtain ⟨oracle', _, _, hlast⟩ := runs_request.mp (runs_sys_ok.mp hwrite)
  have htext : (namedServe env oracle' n3 (.writeText path
      ("\x7b\"pid\":" ++ toString env.process ++ "\x7d\n"))).2.written =
        lockText env.process := by
    rw [written_namedServe, hlast]
    unfold NamedWorld.writtenAfter
    dsimp only
    rw [hempty', hempty, hwritten, List.nil_append]
    exact if_pos rfl
  rw [hlast] at htext
  exact ⟨hcut', htext⟩

theorem takeLock_written {r : Except VaultError Unit} (hnothing : n.written = [])
    (h : (namedMachine env allowed).Runs (takeLock path lock).run n r n') :
    (n'.world.Cut path ∨ n'.written = []) ∧
      (r = .ok () → n'.world.Cut path ∧ n'.written = lockText env.process) := by
  have hsets : (Op.setPermissions path 0o600).KeepsWritten := trivial
  have htries : (Op.tryLock path lock).KeepsWritten := trivial
  rcases runs_run_bind.mp h with ⟨e, rfl, hmode⟩ | ⟨_, n1, hmode, hrest⟩
  · obtain ⟨error, _, hmay⟩ := runs_sys_error.mp hmode
    have hkept := written_of_may path hsets (runs_request.mp hmay)
    exact ⟨.inr (hkept.1.trans hnothing), fun h => by cases h⟩
  have hmode := (written_of_may path hsets
    (runs_request.mp (runs_sys_ok.mp hmode))).1.trans hnothing
  obtain ⟨granted, n2, htry, hrest⟩ := runs_attempt_bind.mp hrest
  obtain ⟨reply, hmay⟩ := runs_of_sys htry
  have htried := (written_of_may path htries (runs_request.mp hmay)).1.trans hmode
  cases granted with
  | ok u => exact writeOwner_written htried hrest
  | error e =>
      obtain ⟨error, rfl, _⟩ := runs_sys_error.mp htry
      have hend : n' = n2 ∧ r ≠ .ok () := by
        dsimp only at hrest
        split at hrest
        · obtain ⟨rfl, rfl⟩ := runs_run_throw.mp hrest
          exact ⟨rfl, fun h => by cases h⟩
        · obtain ⟨rfl, rfl⟩ := runs_run_throw.mp hrest
          exact ⟨rfl, fun h => by cases h⟩
      obtain ⟨rfl, hne⟩ := hend
      exact ⟨.inr htried, fun h => absurd h hne⟩

/-- **What is written to a lock file**: nothing before it is cut, and the whole text once
the lock is taken. -/
theorem lockProfile_written {userRoot : FsPath} {r : Except VaultError Handle}
    (hnothing : n.written = [])
    (h : (namedMachine env allowed).Runs (VaultStore.lockProfile env userRoot).run n r n') :
    (n'.world.Cut (userRoot ++ ["active.lock"]) ∨ n'.written = []) ∧
      ∀ lock, r = .ok lock →
        n'.world.Cut (userRoot ++ ["active.lock"]) ∧ n'.written = lockText env.process := by
  rcases runs_run_bind.mp h with ⟨e, rfl, hfail⟩ | ⟨_, n1, hvalid, hacquire⟩
  · have hkept := written_of_runs (userRoot ++ ["active.lock"])
      (uses_mapError (uses_validatePrivateDirectory trivial)) hfail
    exact ⟨.inr (hkept.1.trans hnothing), fun _ h => by cases h⟩
  have hvalid := (written_of_runs (userRoot ++ ["active.lock"])
    (uses_mapError (uses_validatePrivateDirectory trivial)) hvalid).1.trans hnothing
  have hopens : (Op.openLock (userRoot ++ ["active.lock"])).KeepsWritten := trivial
  rcases runs_run_bind.mp hacquire with ⟨e, rfl, hopen⟩ | ⟨lock, n2, hopen, hrest⟩
  · obtain ⟨error, _, hmay⟩ := runs_sys_error.mp hopen
    have hkept := written_of_may (userRoot ++ ["active.lock"]) hopens
      (runs_request.mp hmay)
    exact ⟨.inr (hkept.1.trans hvalid), fun _ h => by cases h⟩
  have hopened := (written_of_may (userRoot ++ ["active.lock"]) hopens
    (runs_request.mp (runs_sys_ok.mp hopen))).1.trans hvalid
  rcases runs_run_bind.mp hrest with ⟨e, rfl, htake⟩ | ⟨_, n3, htake, hpure⟩
  · obtain ⟨n3, hfail, hclose⟩ := runs_onError_error.mp htake
    have hcloses : (Op.closeFile (userRoot ++ ["active.lock"]) lock).KeepsWritten := trivial
    obtain ⟨hwritten, hcut⟩ := written_of_may (userRoot ++ ["active.lock"]) hcloses
      (runs_request.mp hclose)
    refine ⟨(takeLock_written hopened hfail).1.imp hcut.mpr hwritten.trans, fun _ h => ?_⟩
    cases h
  · obtain ⟨rfl, rfl⟩ := runs_run_pure.mp hpure
    obtain ⟨hcut, hwritten⟩ := (takeLock_written hopened (runs_onError_ok.mp htake)).2 rfl
    exact ⟨.inl hcut, fun _ _ => ⟨hcut, hwritten⟩⟩

/-! ## The other names -/

/-- What taking a lock does to the files: those that name the lock file are edited with
it, and the others stay.  `w` is the machine with the lock taken, and `n'` says what has
been done to the lock file. -/
structure NamedWorld.LockTaken (path : FsPath) (n : NamedWorld) (w : World) (n' : NamedWorld) :
    Prop where
  apart : ∀ q, q ≠ path → n.sameFile path q = false → w.fs.node q = n.world.fs.node q
  beside : ∀ q attr contents holes, n.sameFile path q = true →
    n.world.fs.node q = some (.file attr contents holes) →
      w.fs.node q = some (.file (n'.lockAttr path attr)
        (if n'.world.Cut path then n'.written else contents) holes)

theorem lockTaken_begin : n.LockTaken path n.begin.world n.begin where
  apart _ _ _ := rfl
  beside q attr contents holes _ hnode := by
    have hmode : ¬ n.begin.world.ModeSet path := List.not_mem_nil
    have hcut : ¬ n.begin.world.Cut path := List.not_mem_nil
    unfold NamedWorld.lockAttr
    rw [if_neg hmode, if_neg hcut]
    exact hnode

theorem lockTaken_of_lockProfile {userRoot : FsPath} {r : Except VaultError Handle}
    (h : (namedMachine env allowed).Runs (VaultStore.lockProfile env userRoot).run n.begin r n') :
    n.LockTaken (userRoot ++ ["active.lock"]) n'.world n' := by
  have huses : Uses (Op.LocksAt (userRoot ++ ["active.lock"]))
      (VaultStore.lockProfile env userRoot).run :=
    lockCalls_locksAt.lockProfile (List.prefix_append _ _)
  have hedits := (NamedWorld.LockEdits.begin n (userRoot ++ ["active.lock"])).run huses h
  refine ⟨hedits.apart, fun q attr contents holes hsame hnode => ?_⟩
  have hat := (n.agree hsame).2
  have hsame' : n'.sameFile (userRoot ++ ["active.lock"]) q = true := (hedits.names q).trans hsame
  rw [(n'.agree hsame').2, hedits.file attr contents holes (hat.symm.trans hnode)]
  unfold NamedWorld.lockContents
  split
  · rfl
  · next huncut =>
      have hnothing := ((lockProfile_written rfl h).1).resolve_left huncut
      rw [hnothing, List.append_nil]

/-- Calls that edit no file, after the lock was taken. -/
theorem NamedWorld.LockTaken.then {α : Type} {p : Prog Op Op.Reply α} {a : α}
    {n1 : NamedWorld} (h : n.LockTaken path w n1) (hp : Uses (fun op => op.edited = none) p)
    (hrun : (namedMachine env allowed).Runs p n1 a n') : n.LockTaken path w n' := by
  refine ⟨h.apart, fun q attr contents holes hsame hnode => ?_⟩
  have hmode := modeSet_of_runs path hp hrun
  obtain ⟨hwritten, hcut⟩ :=
    written_of_runs path (hp.mono fun _ => keepsWritten_of_not_edited) hrun
  rw [h.beside q attr contents holes hsame hnode]
  unfold NamedWorld.lockAttr
  simp only [hmode, hcut, hwritten]

/-- The path is no second name of the lock file, or the lock file was not cut, or it held
what was written. -/
def NamedWorld.SparesContents (path q : FsPath) (n n' : NamedWorld) : Prop :=
  n.sameFile path q = true → n'.world.Cut path → n.world.contents q = some n'.written

theorem NamedWorld.LockTaken.contents_iff (h : n.LockTaken path w n') {q : FsPath}
    (hq : q ≠ path) : w.contents q = n.world.contents q ↔ n.SparesContents path q n' := by
  unfold NamedWorld.SparesContents
  cases hsame : n.sameFile path q with
  | false =>
      refine iff_of_true ?_ fun h => by cases h
      unfold World.contents
      rw [h.apart q hq hsame]
  | true =>
      obtain ⟨hregular, hat⟩ := n.agree hsame
      obtain ⟨attr, contents, holes, hnode⟩ := FileSystem.isRegular_iff.mp hregular
      rw [← hat] at hnode
      unfold World.contents
      rw [h.beside q attr contents holes hsame hnode, hnode]
      by_cases hcut : n'.world.Cut path
      · simp [hcut, eq_comm]
      · simp [hcut]

end

end CodexVault
