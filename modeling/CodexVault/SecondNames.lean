import CodexVault.SystemCallFacts

/-!
# Files with second names

A regular file can have several names, when they are hard links of one another.  The
machine gives each path a node of its own; a `NamedWorld` also says which paths name the
same file, and `namedMachine` is the machine whose calls on an open file reach it under
all its names.

No call makes a second name.  Where there are none, the runs of the machine are runs of
`namedMachine` (`runs_alone`), and calls that do not edit a file that was there before do
what they do on the machine (`world_of_runs`).
-/

namespace CodexVault

open ByteStrings Programs

/-- The node is a regular file. -/
def Node.isRegular : Node → Bool
  | .file _ _ _ => true
  | _ => false

namespace FileSystem

variable (fs : FileSystem)

/-- The path names a regular file. -/
def isRegular (p : FsPath) : Bool := (fs.node p).any Node.isRegular

variable {fs} in
theorem isRegular_iff {p : FsPath} :
    fs.isRegular p = true ↔
      ∃ attr contents holes, fs.node p = some (.file attr contents holes) := by
  unfold isRegular
  cases hnode : fs.node p with
  | none => simp
  | some n => cases n <;> simp [Node.isRegular]

/-- The regular files under `names` become what is at the path. -/
def echo (p : FsPath) (names : FsPath → Bool) : FileSystem where
  node q := if names q && fs.isRegular q && fs.isRegular p then fs.node p else fs.node q
  paths := fs.paths
  mem_paths := by
    intro q hq
    split at hq
    · next h =>
        rw [Bool.and_eq_true, Bool.and_eq_true] at h
        obtain ⟨_, _, _, hnode⟩ := isRegular_iff.mp h.1.2
        exact fs.mem_paths (by rw [hnode]; exact Option.some_ne_none _)
    · exact fs.mem_paths hq
  parent_of := by
    intro q name hq
    have hchild : fs.node (q ++ [name]) ≠ none := by
      split at hq
      · next h =>
          rw [Bool.and_eq_true, Bool.and_eq_true] at h
          obtain ⟨_, _, _, hnode⟩ := isRegular_iff.mp h.1.2
          rw [hnode]
          exact Option.some_ne_none _
      · exact hq
    obtain ⟨attr, hattr⟩ := fs.parent_of hchild
    rw [if_neg]
    · exact ⟨attr, hattr⟩
    · unfold isRegular
      rw [hattr]
      simp [Node.isRegular]

variable {fs}

theorem node_echo {p : FsPath} {names : FsPath → Bool} (q : FsPath) :
    (fs.echo p names).node q =
      if names q && fs.isRegular q && fs.isRegular p then fs.node p else fs.node q := rfl

theorem node_echo_of_not {p q : FsPath} {names : FsPath → Bool} (h : names q = false) :
    (fs.echo p names).node q = fs.node q := by
  rw [node_echo, h]
  rfl

@[simp] theorem node_echo_self {p : FsPath} {names : FsPath → Bool} :
    (fs.echo p names).node p = fs.node p := by
  rw [node_echo]
  split <;> rfl

end FileSystem

/-- A machine, and which paths name the same regular file. -/
structure NamedWorld where
  world : World
  sameFile : FsPath → FsPath → Bool
  /-- What has been written to open files since one was last cut. -/
  written : Bytes
  agree : ∀ {p q}, sameFile p q = true →
    world.fs.isRegular p = true ∧ world.fs.node q = world.fs.node p
  symm : ∀ {p q}, sameFile p q = true → sameFile q p = true
  trans : ∀ {p q r}, sameFile p q = true → sameFile q r = true → sameFile p r = true

/-- The file that a call on an open file changes, if it may have been there before the
file was opened.  What `store` fills was made by `createFile` and has one name. -/
def Op.edited : Op → Option FsPath
  | .setPermissions p _ | .setLength p | .writeText p _ => some p
  | _ => none

/-- Where the file at a path was before a call that failed with `failure` or not at all;
nothing, if the call has made it. -/
def Op.origin (env : Env) (fs : FileSystem) (failure : Option ErrorKind) (q : FsPath) :
    Op → Option FsPath
  | .createFile p | .openLock p =>
      if q = p ∧ fs.node p = none ∧ failure = none then none else some q
  | .rename source target =>
      if failure = none ∧ target <+: q then some (FileSystem.rebase target source q) else some q
  | .unpack destination path entry =>
      if q = destination ++ path ∧ entry.isDir = false ∧
          (fs.unpacked env destination path entry).isOk then none
      else some q
  | _ => some q

namespace NamedWorld

/-- Two paths name the same file after a call. -/
def sameAfter (env : Env) (n : NamedWorld) (op : Op) (failure : Option ErrorKind)
    (fs : FileSystem) (p q : FsPath) : Bool :=
  match op.origin env n.world.fs failure p, op.origin env n.world.fs failure q with
  | some before, some before' =>
      n.sameFile before before' && fs.isRegular p && decide (fs.node p = fs.node q)
  | _, _ => false

variable {env : Env} {n : NamedWorld} {op : Op} {failure : Option ErrorKind} {fs : FileSystem}

theorem sameAfter_iff {p q : FsPath} :
    n.sameAfter env op failure fs p q = true ↔
      ∃ before before', op.origin env n.world.fs failure p = some before ∧
        op.origin env n.world.fs failure q = some before' ∧
        n.sameFile before before' = true ∧ fs.isRegular p = true ∧ fs.node p = fs.node q := by
  unfold sameAfter
  cases hp : op.origin env n.world.fs failure p with
  | none => simp
  | some before =>
      cases hq : op.origin env n.world.fs failure q with
      | none => simp
      | some before' => simp [and_assoc]

/-- What has been written after a call; `progress` is how far a call has come that failed. -/
def writtenAfter (n : NamedWorld) (op : Op) (failure : Option ErrorKind) (progress : Nat) : Bytes :=
  match op with
  | .setLength _ => if failure = none then [] else n.written
  | .writeText _ text =>
      n.written ++ if failure = none then textBytes text else (textBytes text).take progress
  | _ => n.written

/-- The machine and its files after a call. -/
def after (env : Env) (n : NamedWorld) (op : Op) (failure : Option ErrorKind) (progress : Nat)
    (w : World) : NamedWorld where
  world := w
  sameFile := n.sameAfter env op failure w.fs
  written := n.writtenAfter op failure progress
  agree := by
    intro p q h
    obtain ⟨_, _, _, _, _, hregular, hnode⟩ := sameAfter_iff.mp h
    exact ⟨hregular, hnode.symm⟩
  symm := by
    intro p q h
    obtain ⟨before, before', hp, hq, hsame, hregular, hnode⟩ := sameAfter_iff.mp h
    have hother : w.fs.isRegular q = true := by
      unfold FileSystem.isRegular at hregular ⊢
      rwa [← hnode]
    exact sameAfter_iff.mpr ⟨before', before, hq, hp, n.symm hsame, hother, hnode.symm⟩
  trans := by
    intro p q r h h'
    obtain ⟨before, between, hp, hq, hsame, hregular, hnode⟩ := sameAfter_iff.mp h
    obtain ⟨between', before', hq', hr, hsame', _, hnode'⟩ := sameAfter_iff.mp h'
    cases hq.symm.trans hq'
    exact sameAfter_iff.mpr ⟨before, before', hp, hr, n.trans hsame hsame', hregular,
      hnode.trans hnode'⟩

/-- The same machine before the first call. -/
def begin (n : NamedWorld) : NamedWorld := { n with world := n.world.begin, written := [] }

/-- A machine whose files have one name each. -/
def alone (w : World) (written : Bytes) : NamedWorld where
  world := w
  sameFile _ _ := false
  written := written
  agree := fun h => Bool.noConfusion h
  symm := fun h => Bool.noConfusion h
  trans := fun h => Bool.noConfusion h

end NamedWorld

@[simp] theorem NamedWorld.world_alone {w : World} {written : Bytes} :
    (NamedWorld.alone w written).world = w := rfl

/-- The machine, with what it edits in place under every name. -/
def namedServe (env : Env) (oracle : Oracle) (n : NamedWorld) (op : Op) :
    op.Reply × NamedWorld :=
  let out := serve env oracle n.world op
  let fs := match op.edited with
    | none => out.2.fs
    | some p => out.2.fs.echo p (n.sameFile p)
  (out.1, n.after env op (op.failure out.1) oracle.progress { out.2 with fs := fs })

/-- The machine with second names as a contract on one process.  A lock that is held
under another name of the file is a failure of `tryLock` like any other, and no file is
renamed onto a second name of itself: what the store renames it has made. -/
def namedMachine (env : Env) (allowed : Oracle → Prop) : Contract Op Op.Reply NamedWorld where
  may op n r n' := ∃ oracle : Oracle, allowed oracle ∧ oracle.Admissible n.world op ∧
    namedServe env oracle n op = (r, n')

section

variable {env : Env} {allowed : Oracle → Prop} {n n' : NamedWorld} {w w' : World} {α : Type}

theorem history_namedServe {oracle : Oracle} {op : Op} :
    (namedServe env oracle n op).2.world.history =
      ⟨op, op.failure (namedServe env oracle n op).1⟩ :: n.world.history :=
  congrArg (_ :: ·) respond_history

theorem history_of_namedRuns {P : Op → Prop} {p : Prog Op Op.Reply α} {a : α}
    (hp : Contract.Uses P p) (h : (namedMachine env allowed).Runs p n a n') :
    ∃ newer, n'.world.history = newer ++ n.world.history ∧ ∀ event ∈ newer, P event.op := by
  refine Contract.runs_of_uses
    (R := fun n n' : NamedWorld =>
      ∃ newer, n'.world.history = newer ++ n.world.history ∧ ∀ event ∈ newer, P event.op)
    (fun _ => ⟨[], rfl, fun _ h => by cases h⟩) ?_ ?_ hp h
  · rintro s t u ⟨first, hfirst, hall⟩ ⟨second, hsecond, hall'⟩
    refine ⟨second ++ first, by rw [hsecond, hfirst, List.append_assoc], ?_⟩
    intro event hevent
    rcases List.mem_append.mp hevent with h | h
    · exact hall' event h
    · exact hall event h
  · rintro op s r t hop ⟨oracle, _, _, hserve⟩
    have hhistory : (namedServe env oracle s op).2.world.history =
        ⟨op, op.failure (namedServe env oracle s op).1⟩ :: s.world.history := history_namedServe
    rw [hserve] at hhistory
    refine ⟨[⟨op, op.failure r⟩], hhistory, fun event hevent => ?_⟩
    rw [List.mem_singleton.mp hevent]
    exact hop

theorem written_namedServe {oracle : Oracle} {op : Op} :
    (namedServe env oracle n op).2.written =
      n.writtenAfter op (op.failure (namedServe env oracle n op).1) oracle.progress := rfl

/-- What is at the path of a call is what it leaves on the machine. -/
theorem node_namedServe {oracle : Oracle} {op : Op} {p : FsPath}
    (h : op.edited = none ∨ op.edited = some p) :
    (namedServe env oracle n op).2.world.fs.node p =
      (respond env oracle n.world op).2.fs.node p := by
  unfold namedServe
  rcases h with h | h
  · rw [h]
    rfl
  · rw [h]
    exact FileSystem.node_echo_self

/-- A call that edits nothing in place does what it does on the machine. -/
theorem world_of_may {op : Op} {r : op.Reply} (hop : op.edited = none)
    (h : (namedMachine env allowed).may op n r n') :
    (machine env allowed).may op n.world r n'.world := by
  obtain ⟨oracle, hallowed, hadm, hserve⟩ := h
  refine ⟨oracle, hallowed, hadm, ?_⟩
  unfold namedServe at hserve
  rw [hop] at hserve
  cases hserve
  rfl

theorem world_of_runs {p : Prog Op Op.Reply α} {a : α}
    (hp : Contract.Uses (fun op : Op => op.edited = none) p)
    (h : (namedMachine env allowed).Runs p n a n') :
    (machine env allowed).Runs p n.world a n'.world :=
  Contract.runs_map_of_uses NamedWorld.world (fun _ _ _ _ hop => world_of_may hop) hp h

theorem sameAfter_alone {written : Bytes} {op : Op} {failure : Option ErrorKind}
    {fs : FileSystem} :
    (NamedWorld.alone w written).sameAfter env op failure fs = fun _ _ => false := by
  funext p q
  unfold NamedWorld.sameAfter
  split <;> rfl

/-- Where no file has a second name, a call does what it does on the machine, and makes
none. -/
theorem namedServe_alone {written : Bytes} {oracle : Oracle} {op : Op} :
    namedServe env oracle (.alone w written) op =
      ((serve env oracle w op).1, .alone (serve env oracle w op).2
        ((NamedWorld.alone w written).writtenAfter op
          (op.failure (serve env oracle w op).1) oracle.progress)) := by
  unfold namedServe
  dsimp only
  cases hedited : op.edited with
  | none =>
      unfold NamedWorld.after NamedWorld.alone
      congr 2
      exact sameAfter_alone
  | some p =>
      unfold NamedWorld.after NamedWorld.alone
      congr 2
      exact sameAfter_alone

theorem may_alone {op : Op} {r : op.Reply} (written : Bytes)
    (h : (machine env allowed).may op w r w') :
    ∃ written', (namedMachine env allowed).may op (.alone w written) r (.alone w' written') := by
  obtain ⟨oracle, hallowed, hadm, hserve⟩ := h
  have hstep : namedServe env oracle (.alone w written) op =
      (r, .alone w' ((NamedWorld.alone w written).writtenAfter op (op.failure r)
        oracle.progress)) := by
    rw [namedServe_alone, hserve]
  exact ⟨_, oracle, hallowed, hadm, hstep⟩

/-- **Without second names** the runs of the machine are those of `namedMachine`. -/
theorem runs_alone {p : Prog Op Op.Reply α} {a : α} (written : Bytes)
    (h : (machine env allowed).Runs p w a w') :
    ∃ written', (namedMachine env allowed).Runs p (.alone w written) a (.alone w' written') := by
  induction p generalizing w written with
  | ret b =>
      obtain ⟨rfl, rfl⟩ := h
      exact ⟨written, rfl, rfl⟩
  | call op next ih =>
      obtain ⟨r, t, hfirst, hrest⟩ := h
      obtain ⟨between, hone⟩ := may_alone written hfirst
      obtain ⟨written', hmore⟩ := ih r between hrest
      exact ⟨written', r, _, hone, hmore⟩

end

end CodexVault
