import CodexVault.Launcher
import CodexVault.Samples
import CodexVault.StoreFacts

/-!
# Signals and the runtime directory

A run of `runProgram` creates at most one runtime directory, and once it has
removed it nothing of it comes back: `Tidy` holds in every state of a run,
whatever the child does inside its `CODEX_HOME`.

`signals_strand_nothing` concludes that a run that a signal ends leaves no runtime
behind, when every signal comes before the runtime is created, after it is removed,
or when its handler is installed.  In between it is left behind
(`runtime_stranded_by_signal`).
-/

namespace CodexVault

open ByteStrings Programs Contract

namespace Launcher

variable {s t : Launcher} {runtime : FsPath}

/-- The run has created this runtime directory. -/
def Created (s : Launcher) (runtime : FsPath) : Prop :=
  (⟨.createDirectory runtime, none⟩ : Event) ∈ s.world.history

/-- The run has removed this directory. -/
def Removed (s : Launcher) (runtime : FsPath) : Prop :=
  (⟨.removeTree runtime, none⟩ : Event) ∈ s.world.history

/-- Nothing has been created or removed, and no child runs. -/
structure Unborn (s : Launcher) : Prop where
  created : ∀ p, ¬ s.Created p
  removed : ∀ p, ¬ s.Removed p
  child : s.child = none

/-- The only runtime is this one, and the child works in it. -/
structure Owns (s : Launcher) (runtime : FsPath) : Prop where
  created : ∀ p, s.Created p → p = runtime
  child : ∀ home, s.child = some home → home = runtime ++ ["codex-home"]

/-- The only runtime is this one, and it has not been removed. -/
structure Occupies (s : Launcher) (runtime : FsPath) : Prop extends s.Owns runtime where
  kept : ¬ s.Removed runtime

/-- The only runtime is this one, and it is gone if it has been removed. -/
structure Vacated (s : Launcher) (runtime : FsPath) : Prop extends s.Owns runtime where
  gone : s.Removed runtime → s.world.fs.node runtime = none

/-- What every state of a run is like. -/
def Tidy (s : Launcher) : Prop := ∃ runtime, s.Vacated runtime

theorem Occupies.vacated (h : s.Occupies runtime) : s.Vacated runtime :=
  ⟨h.toOwns, fun hremoved => absurd hremoved h.kept⟩

theorem Unborn.vacated (h : s.Unborn) : s.Vacated runtime := by
  refine ⟨⟨fun p hp => absurd hp (h.created p), fun home hhome => ?_⟩,
    fun hremoved => absurd hremoved (h.removed runtime)⟩
  rw [h.child] at hhome
  cases hhome

theorem unborn_start (w : World) : (start w).Unborn := by
  refine ⟨fun p hp => ?_, fun p hp => ?_, rfl⟩
  · cases hp
  · cases hp

/-! ## What the child can do -/

theorem Edited.refl (s : Launcher) : s.Edited s := ⟨rfl, rfl, rfl, fun _ _ => rfl⟩

theorem Edited.trans {u : Launcher} (h : s.Edited t) (h' : t.Edited u) : s.Edited u := by
  refine ⟨h'.handled.trans h.handled, h'.child.trans h.child, h'.history.trans h.history, ?_⟩
  intro q hq
  exact (h'.outside q fun home hhome => hq home (h.child ▸ hhome)).trans (h.outside q hq)

theorem Edited.created_iff (h : s.Edited t) (p : FsPath) : t.Created p ↔ s.Created p := by
  unfold Created
  rw [h.history]

theorem Edited.removed_iff (h : s.Edited t) (p : FsPath) : t.Removed p ↔ s.Removed p := by
  unfold Removed
  rw [h.history]

theorem Unborn.edited (hs : s.Unborn) (h : s.Edited t) : t.Unborn := by
  refine ⟨fun p hp => ?_, fun p hp => ?_, h.child.trans hs.child⟩
  · exact hs.created p ((h.created_iff p).mp hp)
  · exact hs.removed p ((h.removed_iff p).mp hp)

theorem Owns.edited (hs : s.Owns runtime) (h : s.Edited t) : t.Owns runtime := by
  refine ⟨fun p hp => hs.created p ((h.created_iff p).mp hp), fun home hhome => ?_⟩
  exact hs.child home (h.child ▸ hhome)

theorem Occupies.edited (hs : s.Occupies runtime) (h : s.Edited t) : t.Occupies runtime :=
  ⟨hs.toOwns.edited h, fun hremoved => hs.kept ((h.removed_iff runtime).mp hremoved)⟩

/-- The child works below its runtime and cannot bring it back. -/
theorem Vacated.edited (hs : s.Vacated runtime) (h : s.Edited t) : t.Vacated runtime := by
  refine ⟨hs.toOwns.edited h, fun hremoved => ?_⟩
  rw [h.outside runtime]
  · exact hs.gone ((h.removed_iff runtime).mp hremoved)
  · intro home hhome hprefix
    rw [hs.child home hhome] at hprefix
    have hlen := hprefix.length_le
    rw [List.length_append, List.length_singleton] at hlen
    omega

end Launcher

/-! ## The calls of the store -/

/-- The machine of the store's calls in a run. -/
def storing (env : Env) (allowed : Oracle → Prop) : Contract Op Op.Reply Launcher where
  may op s r t := ∃ w, (machine env allowed).may op s.world r w ∧ t = { s with world := w }

/-- Every step leads to a tidy state. -/
def Tidying (_ t : Launcher) : Prop := t.Tidy

/-- A call other than those that create and remove the runtime. -/
def Op.Plain : Op → Prop
  | .createDirectory _ | .removeTree _ => False
  | _ => True

/-- A call that gives up the lock. -/
def Op.Closing : Op → Prop
  | .unlockFile _ _ | .closeFile _ _ => True
  | _ => False

theorem closing_unlockFile (p : FsPath) (lock : Handle) : Op.Closing (.unlockFile p lock) := trivial

theorem closing_closeFile (p : FsPath) (lock : Handle) : Op.Closing (.closeFile p lock) := trivial

section

variable {env : Env} {allowed : Oracle → Prop} {α : Type} {s t : Launcher} {runtime : FsPath}

theorem holds_ofStore {p : Prog Op Op.Reply α} {rely guar : Launcher → Launcher → Prop}
    {Q : α → Launcher → Prop} (h : (storing env allowed).Holds rely guar p Q s) :
    (launching env allowed).Holds rely guar (ofStore p) Q s := by
  induction p generalizing s with
  | ret a => exact h
  | call op next ih =>
      intro t ht r u hmay
      obtain ⟨hguar, hrest⟩ := h t ht r u hmay
      exact ⟨hguar, ih r hrest⟩

theorem history_of_storing {op : Op} {r : op.Reply} (h : (storing env allowed).may op s r t) :
    t.world.history = ⟨op, op.failure r⟩ :: s.world.history := by
  obtain ⟨w, hmay, rfl⟩ := h
  exact history_of_may hmay

theorem child_of_storing {op : Op} {r : op.Reply} (h : (storing env allowed).may op s r t) :
    t.child = s.child := by
  obtain ⟨w, hmay, rfl⟩ := h
  rfl

/-- A plain call creates and removes no runtime. -/
theorem created_iff_of_plain {op : Op} {r : op.Reply} (hop : op.Plain)
    (h : (storing env allowed).may op s r t) (p : FsPath) :
    (t.Created p ↔ s.Created p) ∧ (t.Removed p ↔ s.Removed p) := by
  unfold Launcher.Created Launcher.Removed
  rw [history_of_storing h]
  have hcreate : (⟨.createDirectory p, none⟩ : Event) ≠ ⟨op, op.failure r⟩ := by
    intro heq
    cases congrArg Event.op heq
    exact hop
  have hremove : (⟨.removeTree p, none⟩ : Event) ≠ ⟨op, op.failure r⟩ := by
    intro heq
    cases congrArg Event.op heq
    exact hop
  exact ⟨⟨fun h => (List.mem_cons.mp h).resolve_left hcreate, List.mem_cons_of_mem _⟩,
    ⟨fun h => (List.mem_cons.mp h).resolve_left hremove, List.mem_cons_of_mem _⟩⟩

theorem Launcher.Owns.plain {op : Op} {r : op.Reply} (hop : op.Plain) (hs : s.Owns runtime)
    (h : (storing env allowed).may op s r t) : t.Owns runtime := by
  refine ⟨fun p hp => hs.created p ((created_iff_of_plain hop h p).1.mp hp), fun home hhome => ?_⟩
  rw [child_of_storing h] at hhome
  exact hs.child home hhome

theorem Launcher.Unborn.plain {op : Op} {r : op.Reply} (hop : op.Plain) (hs : s.Unborn)
    (h : (storing env allowed).may op s r t) : t.Unborn := by
  refine ⟨fun p hp => ?_, fun p hp => ?_, (child_of_storing h).trans hs.child⟩
  · exact hs.created p ((created_iff_of_plain hop h p).1.mp hp)
  · exact hs.removed p ((created_iff_of_plain hop h p).2.mp hp)

theorem Launcher.Occupies.plain {op : Op} {r : op.Reply} (hop : op.Plain)
    (hs : s.Occupies runtime) (h : (storing env allowed).may op s r t) : t.Occupies runtime :=
  ⟨hs.toOwns.plain hop h,
    fun hremoved => hs.kept ((created_iff_of_plain hop h runtime).2.mp hremoved)⟩

theorem Op.Closing.plain {op : Op} (h : op.Closing) : op.Plain := by
  cases op <;> first | exact trivial | exact h.elim

theorem Op.Closing.spares {op : Op} (h : op.Closing) (q : FsPath) : op.Spares env q := by
  intro fs hmay
  cases op <;> first | exact h.elim | exact hmay.elim

theorem Launcher.Vacated.closing {op : Op} {r : op.Reply} (hop : op.Closing)
    (hs : s.Vacated runtime) (h : (storing env allowed).may op s r t) : t.Vacated runtime := by
  refine ⟨hs.toOwns.plain hop.plain h, fun hremoved => ?_⟩
  have hgone := hs.gone ((created_iff_of_plain hop.plain h runtime).2.mp hremoved)
  obtain ⟨w, hmay, rfl⟩ := h
  rw [← hgone]
  exact node_of_may hmay (hop.spares runtime s.world.fs)

/-- Removing the runtime. -/
theorem Launcher.Occupies.removeTree {r : Except IoError Unit} (hs : s.Occupies runtime)
    (h : (storing env allowed).may (.removeTree runtime) s r t) : t.Vacated runtime := by
  have hhistory := history_of_storing h
  have hchild := child_of_storing h
  refine ⟨⟨fun p hp => hs.created p ?_, fun home hhome => ?_⟩, fun hremoved => ?_⟩
  · unfold Launcher.Created at hp
    rw [hhistory] at hp
    refine (List.mem_cons.mp hp).resolve_left fun heq => ?_
    cases congrArg Event.op heq
  · rw [hchild] at hhome
    exact hs.child home hhome
  · unfold Launcher.Removed at hremoved
    rw [hhistory] at hremoved
    have hnew := (List.mem_cons.mp hremoved).resolve_right hs.kept
    cases r with
    | error e => cases congrArg Event.error hnew
    | ok u =>
        obtain ⟨w, hmay, rfl⟩ := h
        obtain ⟨oracle, w1, _, _, hrespond, rfl⟩ := respond_of_may hmay
        obtain ⟨_, fs, hfs, rfl⟩ := World.change_eq_ok hrespond
        exact (FileSystem.treeRemoved_eq_ok hfs runtime).trans (if_pos List.prefix_rfl)

/-- Creating the runtime. -/
theorem Launcher.Unborn.createDirectory {r : Except IoError Unit} (hs : s.Unborn)
    (h : (storing env allowed).may (.createDirectory runtime) s r t) :
    t.Occupies runtime ∧ ∀ e, r = .error e → t.Unborn := by
  have hhistory := history_of_storing h
  have hchild := (child_of_storing h).trans hs.child
  have hkept : ∀ p, ¬ t.Removed p := by
    intro p hremoved
    unfold Launcher.Removed at hremoved
    rw [hhistory] at hremoved
    rcases List.mem_cons.mp hremoved with heq | hold
    · cases congrArg Event.op heq
    · exact hs.removed p hold
  have hcreated : ∀ p, t.Created p → p = runtime ∧ r = .ok () := by
    intro p hp
    unfold Launcher.Created at hp
    rw [hhistory] at hp
    rcases List.mem_cons.mp hp with heq | hold
    · cases r with
      | error e => cases congrArg Event.error heq
      | ok u =>
          cases congrArg Event.op heq
          exact ⟨rfl, rfl⟩
    · exact absurd hold (hs.created p)
  refine ⟨⟨⟨fun p hp => (hcreated p hp).1, fun home hhome => ?_⟩, hkept runtime⟩, ?_⟩
  · rw [hchild] at hhome
    cases hhome
  · rintro e rfl
    refine ⟨fun p hp => ?_, hkept, hchild⟩
    cases (hcreated p hp).2

/-! ## Unlocking and closing -/

/-- Parts of a program whose calls are plain, before the runtime and in it. -/
theorem holds_unborn {ε : Type} {p : ExceptT ε (Prog Op Op.Reply) α}
    (hp : Uses Op.Plain p.run) (hs : s.Unborn) :
    (storing env allowed).HoldsE Launcher.Edited Tidying p (fun _ t => t.Unborn)
      (fun _ t => t.Unborn) s := by
  apply holdsE_of_uses (P := Op.Plain) (fun _ _ h => h.edited) _ hp hs
  intro op s r t hop hs hmay
  have ht := hs.plain hop hmay
  exact ⟨⟨[], ht.vacated⟩, ht⟩

theorem holds_occupies {ε : Type} {p : ExceptT ε (Prog Op Op.Reply) α}
    (hp : Uses Op.Plain p.run) (hs : s.Occupies runtime) :
    (storing env allowed).HoldsE Launcher.Edited Tidying p (fun _ t => t.Occupies runtime)
      (fun _ t => t.Occupies runtime) s := by
  apply holdsE_of_uses (P := Op.Plain) (I := fun t : Launcher => t.Occupies runtime)
    (fun _ _ h => h.edited) _ hp hs
  intro op s r t hop hs hmay
  have ht := hs.plain hop hmay
  exact ⟨⟨runtime, ht.vacated⟩, ht⟩

theorem holds_vacated {p : Prog Op Op.Reply α} (hp : Uses Op.Closing p)
    (hs : s.Vacated runtime) :
    (storing env allowed).Holds Launcher.Edited Tidying p (fun _ t => t.Vacated runtime) s := by
  apply holds_of_uses (P := Op.Closing) (I := fun t : Launcher => t.Vacated runtime)
    (fun _ _ h => h.edited) _ hp hs
  intro op s r t hop hs hmay
  have ht := hs.closing hop hmay
  exact ⟨⟨runtime, ht⟩, ht⟩

/-- The rest of a program that only gives up the lock. -/
theorem holds_closing {ε : Type} {p : ExceptT ε (Prog Op Op.Reply) α}
    (hp : Uses Op.Closing p.run) (hs : s.Vacated runtime) :
    (storing env allowed).HoldsE Launcher.Edited Tidying p (fun _ t => t.Tidy)
      (fun _ t => t.Tidy) s := by
  apply holds_mono (holds_vacated hp hs)
  intro r t ht
  cases r with
  | error e => exact ⟨runtime, ht⟩
  | ok a => exact ⟨runtime, ht⟩

theorem holds_removeTree (hs : s.Occupies runtime) :
    (storing env allowed).Holds Launcher.Edited Tidying (request (.removeTree runtime))
      (fun _ t => t.Vacated runtime) s := by
  intro t ht r u hmay
  have hu := (hs.edited ht).removeTree hmay
  exact ⟨⟨runtime, hu⟩, hu⟩

theorem holds_createDirectory (hs : s.Unborn) :
    (storing env allowed).HoldsE Launcher.Edited Tidying
      (sys (request (.createDirectory runtime)))
      (fun _ t => t.Occupies runtime) (fun _ t => t.Unborn) s := by
  apply holdsE_mapError
  intro t ht r u hmay
  obtain ⟨hoccupies, hfailed⟩ := (hs.edited ht).createDirectory hmay
  refine ⟨⟨runtime, hoccupies.vacated⟩, ?_⟩
  cases r with
  | error e => exact hfailed e rfl
  | ok u => exact hoccupies

theorem plain_lockProfile {userRoot : FsPath} :
    Uses Op.Plain (VaultStore.lockProfile env userRoot).run :=
  uses_lockProfile trivial trivial trivial (fun _ => trivial) trivial trivial trivial
    (fun _ => trivial) (fun _ => trivial)

theorem plain_sealDirectory {lib : Libraries} {directory destination : FsPath} {dataKey : Key} :
    Uses Op.Plain (sealDirectory lib directory destination dataKey).run :=
  uses_sealDirectory trivial fun _ =>
    ⟨trivial, trivial, trivial, fun _ => trivial, trivial, trivial, trivial⟩

theorem plain_fillRuntime {lib : Libraries} {userRoot : FsPath} {dataKey : Key} :
    Uses Op.Plain (VaultStore.fillRuntime lib env userRoot runtime dataKey).run :=
  uses_fillRuntime trivial trivial trivial trivial fun _ _ => trivial

/-- What a vault that has been unlocked has to do with the run. -/
structure UnlockedVault.HeldBy (vault : UnlockedVault) (s : Launcher) : Prop where
  occupies : s.Occupies vault.runtime
  codexHome : vault.codexHome = vault.runtime ++ ["codex-home"]

variable {lib : Libraries} {store : VaultStore} {username : String} {password : Bytes}

/-- **The closure of `unlock`** creates one runtime and removes it when it fails. -/
theorem openProfile_holds {userRoot : FsPath} {lock : Handle} (hs : s.Unborn) :
    (storing env allowed).HoldsE Launcher.Edited Tidying
      (VaultStore.openProfile lib env store username password userRoot lock)
      (fun vault t => vault.HeldBy t) (fun _ t => t.Tidy) s := by
  have hfail : ∀ (e : VaultError) (t : Launcher), t.Unborn → t.Tidy :=
    fun _ t ht => ⟨[], ht.vacated⟩
  apply holdsE_bind
  apply holdsE_mono (holds_unborn (uses_readManifest trivial trivial) hs) _ hfail
  intro manifest t ht
  apply holdsE_bind
  apply holdsE_mono (holds_unborn uses_ofExcept ht) _ hfail
  intro _ t ht
  apply holdsE_bind
  apply holdsE_mono (holds_unborn uses_ofExcept ht) _ hfail
  intro dataKey t ht
  apply holdsE_bind
  apply holdsE_mono
    (holds_unborn (uses_chooseRuntimeRoot fun _ _ => ⟨trivial, trivial, trivial⟩) ht) _ hfail
  intro runtimeRoot t ht
  apply holdsE_bind
  apply holdsE_mono (holds_unborn uses_ofExcept ht) _ hfail
  intro name t ht
  apply holdsE_bind
  apply holdsE_mono (holds_createDirectory ht) _ hfail
  intro _ t ht
  apply holdsE_bind
  apply holdsE_onError
  apply holdsE_mono (holds_occupies plain_fillRuntime ht)
  · intro _ t ht
    exact ⟨ht, rfl⟩
  · intro e t ht
    apply holds_bind
    apply holds_mono (holds_removeTree ht)
    intro _ u hu
    exact ⟨_, hu⟩

/-- **`unlock`.** -/
theorem unlock_holds (hs : s.Unborn) :
    (storing env allowed).HoldsE Launcher.Edited Tidying
      (store.unlock lib env username password) (fun vault t => vault.HeldBy t)
      (fun _ t => t.Tidy) s := by
  have hfail : ∀ (e : VaultError) (t : Launcher), t.Unborn → t.Tidy :=
    fun _ t ht => ⟨[], ht.vacated⟩
  apply holdsE_bind
  apply holdsE_mono (holds_unborn uses_ofExcept hs) _ hfail
  intro _ t ht
  apply holdsE_bind
  apply holdsE_mono (holds_unborn plain_lockProfile ht) _ hfail
  intro lock t ht
  apply holdsE_onError
  apply holdsE_mono (openProfile_holds ht) fun _ _ h => h
  rintro e u ⟨runtime, hu⟩
  have huses : Uses Op.Closing (do
      ignore (request (.unlockFile (store.userRoot username ++ ["active.lock"]) lock))
      request (.closeFile (store.userRoot username ++ ["active.lock"]) lock)) :=
    uses_bind (uses_ignore (uses_request (closing_unlockFile _ _)))
      fun _ => uses_request (closing_closeFile _ _)
  apply holds_mono (holds_vacated huses hu)
  intro _ v hv
  exact ⟨runtime, hv⟩

/-- **`close`** removes the runtime, or fails to and leaves it. -/
theorem close_holds {vault : UnlockedVault} (hs : s.Occupies vault.runtime) :
    (storing env allowed).HoldsE Launcher.Edited Tidying (vault.close lib)
      (fun _ t => t.Tidy) (fun _ t => t.Tidy) s := by
  have hrest : ∀ (sealResult : Except VaultError Unit) (t : Launcher), t.Occupies vault.runtime →
      (storing env allowed).HoldsE Launcher.Edited Tidying (do
        let cleanupResult ← Prog.attempt (sys (request (.removeTree vault.runtime)))
        let unlockResult ← Prog.attempt (sys (request (.unlockFile vault.lockPath vault.lock)))
        ask (.closeFile vault.lockPath vault.lock)
        ofExcept sealResult
        ofExcept cleanupResult
        ofExcept unlockResult) (fun _ t => t.Tidy) (fun _ t => t.Tidy) t := by
    intro sealResult t ht
    have hclosing : ∀ cleanupResult : Except VaultError Unit, Uses Op.Closing (do
        let unlockResult ← Prog.attempt (sys (request (.unlockFile vault.lockPath vault.lock)))
        ask (.closeFile vault.lockPath vault.lock)
        ofExcept sealResult
        ofExcept cleanupResult
        ofExcept unlockResult : Io Unit).run := by
      intro cleanupResult
      apply uses_run_bind (uses_attempt (uses_sys (uses_request (closing_unlockFile _ _))))
      intro unlockResult
      apply uses_run_bind (uses_ask (closing_closeFile _ _))
      intro _
      apply uses_run_bind uses_ofExcept
      intro _
      apply uses_run_bind uses_ofExcept
      intro _
      exact uses_ofExcept
    apply holdsE_bind
    apply holdsE_attempt
    apply holdsE_mapError
    apply holds_mono (holds_removeTree ht)
    intro result u hu
    cases result with
    | error e => exact holds_closing (hclosing _) hu
    | ok a => exact holds_closing (hclosing _) hu
  apply holdsE_bind
  apply holdsE_attempt
  exact holdsE_mono (holds_occupies plain_sealDirectory hs) (fun _ t ht => hrest _ t ht)
    fun _ t ht => hrest _ t ht

/-- **A vault that is dropped** is removed too. -/
theorem drop_holds {vault : UnlockedVault} (hs : s.Occupies vault.runtime) :
    (storing env allowed).Holds Launcher.Edited Tidying vault.drop (fun _ t => t.Tidy) s := by
  apply holds_bind
  apply holds_bind
  apply holds_mono (holds_removeTree hs)
  intro _ t ht
  apply holds_mono (holds_vacated (uses_request (closing_closeFile _ _)) ht)
  intro _ u hu
  exact ⟨_, hu⟩

/-! ## The run -/

/-- A call that has nothing to do with files; a child is started in the runtime. -/
def RunOp.Calm (runtime : FsPath) : RunOp → Prop
  | .store _ => False
  | .spawn command => command.codexHome = runtime ++ ["codex-home"]
  | _ => True

theorem Launcher.Occupies.calm {op : RunOp} {r : op.Reply} (hop : op.Calm runtime)
    (hs : s.Occupies runtime) (h : (launching env allowed).may op s r t) :
    t.Occupies runtime := by
  have hsame : t.world = s.world ∧
      ∀ home, t.child = some home → home = runtime ++ ["codex-home"] := by
    cases op with
    | store op => exact hop.elim
    | spawn command =>
        cases r with
        | error e =>
            cases h
            exact ⟨rfl, hs.child⟩
        | ok u =>
            cases h
            refine ⟨rfl, fun home hhome => ?_⟩
            rw [← Option.some.inj hhome]
            exact hop
    | register signal =>
        cases r with
        | error e =>
            cases h
            exact ⟨rfl, hs.child⟩
        | ok u =>
            cases h
            exact ⟨rfl, hs.child⟩
    | wait =>
        cases r with
        | error e =>
            cases h
            exact ⟨rfl, hs.child⟩
        | ok status =>
            cases h
            exact ⟨rfl, fun home hhome => by cases hhome⟩
    | openSignals | startForwarding | kill | closeSignals | joinForwarding =>
        cases h
        exact ⟨rfl, hs.child⟩
  obtain ⟨hworld, hchild⟩ := hsame
  refine ⟨⟨fun p hp => hs.created p ?_, hchild⟩, fun hremoved => hs.kept ?_⟩
  · unfold Launcher.Created at hp ⊢
    rwa [hworld] at hp
  · unfold Launcher.Removed at hremoved ⊢
    rwa [hworld] at hremoved

theorem holds_calm {ε : Type} {p : ExceptT ε (Prog RunOp RunOp.Reply) α}
    (hp : Uses (RunOp.Calm runtime) p.run) (hs : s.Occupies runtime) :
    (launching env allowed).HoldsE Launcher.Edited Tidying p (fun _ t => t.Occupies runtime)
      (fun _ t => t.Occupies runtime) s := by
  apply holdsE_of_uses (P := RunOp.Calm runtime) (I := fun t : Launcher => t.Occupies runtime)
    (fun _ _ h => h.edited) _ hp hs
  intro op s r t hop hs hmay
  have ht := hs.calm hop hmay
  exact ⟨⟨runtime, ht.vacated⟩, ht⟩

theorem storeCall_holds {p : Io α} {Q : α → Launcher → Prop} {E : Launcher → Prop}
    (h : (storing env allowed).HoldsE Launcher.Edited Tidying p Q (fun _ t => E t) s) :
    (launching env allowed).HoldsE Launcher.Edited Tidying (storeCall p) Q (fun _ t => E t) s := by
  apply holdsE_mapError
  exact holds_ofStore h

theorem uses_runSys {P : RunOp → Prop} {p : Prog RunOp RunOp.Reply (Except IoError α)}
    (h : Uses P p) : Uses P (runSys p).run :=
  uses_mapError h

theorem uses_registerAll {P : RunOp → Prop} {signals : List Signal}
    (h : ∀ signal, P (.register signal)) : Uses P (registerAll signals).run := by
  induction signals with
  | nil => exact uses_run_pure
  | cons signal rest ih =>
      apply uses_run_bind (uses_runSys (uses_perform (h signal)))
      intro _
      exact ih

theorem uses_openForwarder {P : RunOp → Prop} (hopen : P .openSignals)
    (h : ∀ signal, P (.register signal)) : Uses P openForwarder.run := by
  apply uses_run_bind (uses_runSys (uses_perform hopen))
  intro _
  exact uses_registerAll h

theorem calm_runCall {op : RunOp} (h : op.Calm runtime) :
    Uses (RunOp.Calm runtime) (runCall op) := uses_perform h

variable {vault : UnlockedVault}

theorem closing_holds (hs : s.Occupies vault.runtime) :
    (launching env allowed).HoldsE Launcher.Edited Tidying (storeCall (vault.close lib))
      (fun _ t => t.Tidy) (fun _ t => t.Tidy) s :=
  storeCall_holds (close_holds hs)

/-- A program without calls. -/
theorem holds_done {p : Launch α} (hp : Uses (fun _ => False) p.run) (hs : s.Tidy) :
    (launching env allowed).HoldsE Launcher.Edited Tidying p (fun _ t => t.Tidy)
      (fun _ t => t.Tidy) s := by
  obtain ⟨runtime, hs⟩ := hs
  apply holdsE_of_uses (P := fun _ => False) (I := fun t : Launcher => t.Tidy) _ _ hp ⟨runtime, hs⟩
  · rintro s t ⟨runtime, hs⟩ h
    exact ⟨runtime, hs.edited h⟩
  · intro op s r t hop
    exact hop.elim

theorem uses_ofResult {P : RunOp → Prop} {x : Except Abort α} : Uses P (ofResult x).run := by
  cases x <;> exact trivial

/-- Giving the child up. -/
theorem abandonChild_holds {e : Abort} (hs : s.Occupies vault.runtime) :
    (launching env allowed).HoldsE Launcher.Edited Tidying (abandonChild lib vault e)
      (fun _ t => t.Tidy) (fun _ t => t.Tidy) s := by
  have htidy : ∀ (e : Abort) (t : Launcher), t.Occupies vault.runtime → t.Tidy :=
    fun _ t ht => ⟨_, ht.vacated⟩
  have hkill : RunOp.Calm vault.runtime .kill := trivial
  have hwait : RunOp.Calm vault.runtime .wait := trivial
  apply holdsE_bind
  apply holdsE_mono (holds_calm (uses_lift (calm_runCall hkill)) hs) _ htidy
  intro _ t ht
  apply holdsE_bind
  apply holdsE_mono (holds_calm (uses_lift (calm_runCall hwait)) ht) _ htidy
  intro _ t ht
  apply holdsE_bind
  apply holdsE_mono (closing_holds ht)
  · intro _ u hu
    exact hu
  · intro _ u hu
    exact hu

/-- What `run_program` returns for the child's status. -/
def exitCode : ExitStatus → Launch Int
  | .exited code => pure code
  | .signaled signal => pure (128 + signal)

/-- Waiting for the child. -/
theorem awaitChild_holds (hs : s.Occupies vault.runtime) :
    (launching env allowed).HoldsE Launcher.Edited Tidying (awaitChild lib vault)
      (fun _ t => t.Tidy) (fun _ t => t.Tidy) s := by
  have htidy : ∀ (e : Abort) (t : Launcher), t.Occupies vault.runtime → t.Tidy :=
    fun _ t ht => ⟨_, ht.vacated⟩
  have hwait : RunOp.Calm vault.runtime .wait := trivial
  have hstop : RunOp.Calm vault.runtime .closeSignals := trivial
  have hjoin : RunOp.Calm vault.runtime .joinForwarding := trivial
  have hcode : ∀ (statusResult : Except Abort ExitStatus) (closeResult : Except Abort Unit)
      (t : Launcher), t.Tidy →
      (launching env allowed).HoldsE Launcher.Edited Tidying (do
        let status ← ofResult statusResult
        ofResult closeResult
        exitCode status) (fun _ t => t.Tidy) (fun _ t => t.Tidy) t := by
    intro statusResult closeResult t ht
    apply holds_done _ ht
    apply uses_run_bind uses_ofResult
    intro status
    apply uses_run_bind uses_ofResult
    intro _
    cases status with
    | exited code => exact uses_run_pure
    | signaled signal => exact uses_run_pure
  have hstopped : ∀ (statusResult : Except Abort ExitStatus) (t : Launcher),
      t.Occupies vault.runtime →
      (launching env allowed).HoldsE Launcher.Edited Tidying (do
        ExceptT.lift (runCall .closeSignals)
        ExceptT.lift (runCall .joinForwarding)
        let closeResult ← Prog.attempt (storeCall (vault.close lib))
        let status ← ofResult statusResult
        ofResult closeResult
        exitCode status) (fun _ t => t.Tidy) (fun _ t => t.Tidy) t := by
    intro statusResult t ht
    apply holdsE_bind
    apply holdsE_mono (holds_calm (uses_lift (calm_runCall hstop)) ht) _ htidy
    intro _ t ht
    apply holdsE_bind
    apply holdsE_mono (holds_calm (uses_lift (calm_runCall hjoin)) ht) _ htidy
    intro _ t ht
    apply holdsE_bind
    apply holdsE_attempt
    exact holdsE_mono (closing_holds ht) (fun _ t ht => hcode _ _ t ht)
      fun _ t ht => hcode _ _ t ht
  apply holdsE_bind
  apply holdsE_attempt
  exact holdsE_mono (holds_calm (uses_runSys (calm_runCall hwait)) hs)
    (fun _ t ht => hstopped _ t ht) fun _ t ht => hstopped _ t ht

/-- What is left to do once the vault is open. -/
theorem runUnlocked_holds {executable : String} {arguments : List String} (hs : vault.HeldBy s) :
    (launching env allowed).HoldsE Launcher.Edited Tidying
      (runUnlocked lib vault executable arguments) (fun _ t => t.Tidy) (fun _ t => t.Tidy) s := by
  have htidy : ∀ (e : Abort) (t : Launcher), t.Occupies vault.runtime → t.Tidy :=
    fun _ t ht => ⟨_, ht.vacated⟩
  have hspawn : RunOp.Calm vault.runtime
      (.spawn ⟨executable, arguments, vault.codexHome, vault.username⟩) := hs.codexHome
  have hopen : RunOp.Calm vault.runtime .openSignals := trivial
  have hstart : RunOp.Calm vault.runtime .startForwarding := trivial
  apply holdsE_bind
  apply holdsE_mono (holds_calm (uses_lift (calm_runCall hspawn)) hs.occupies) _ htidy
  intro spawned t ht
  cases spawned with
  | error e =>
      apply holdsE_bind
      apply holdsE_mono (closing_holds ht)
      · intro _ u hu
        exact hu
      · intro _ u hu
        exact hu
  | ok u =>
      apply holdsE_bind
      apply holdsE_attempt
      apply holdsE_mono (holds_calm (uses_openForwarder hopen fun _ => trivial) ht)
      · intro _ t ht
        apply holdsE_bind
        apply holdsE_mono (holds_calm (uses_lift (calm_runCall hstart)) ht) _ htidy
        intro started t ht
        cases started with
        | true => exact awaitChild_holds ht
        | false =>
            apply holdsE_bind
            apply holdsE_lift
            apply holds_mono (holds_ofStore (drop_holds ht))
            intro _ u hu
            exact hu
      · intro e t ht
        exact abandonChild_holds ht

/-- **`run_program` keeps every state tidy.** -/
theorem runProgram_holds {executable : String} {arguments : List String} (hs : s.Unborn) :
    (launching env allowed).HoldsE Launcher.Edited Tidying
      (runProgram lib env store username password executable arguments) (fun _ t => t.Tidy)
      (fun _ t => t.Tidy) s := by
  apply holdsE_bind
  apply holdsE_mono (storeCall_holds (unlock_holds hs))
  · intro vault t ht
    exact runUnlocked_holds ht
  · intro _ t ht
    exact ht

/-! ## Runs -/

/-- The run has left a runtime behind. -/
def Launcher.Stranded (s : Launcher) : Prop :=
  ∃ runtime, s.Created runtime ∧ s.world.fs.node runtime ≠ none

/-- A signal does no harm here: its handler has been installed, or there is no
runtime that has been created and not removed. -/
def Launcher.Sheltered (s : Launcher) (signal : Signal) : Prop :=
  s.handled signal = true ∨ ∀ runtime, s.Created runtime → s.Removed runtime

/-- A step, whatever happens. -/
def AnyStep (env : Env) (allowed : Oracle → Prop) (a b : Status α) : Prop :=
  ∃ happening, Step env allowed a happening b

/-- A step in which a signal comes only where it does no harm. -/
def ShelteredStep (env : Env) (allowed : Oracle → Prop) (a b : Status α) : Prop :=
  ∃ happening, Step env allowed a happening b ∧
    ∀ p s signal, a = .running p s → happening = .signal signal → s.Sheltered signal

/-- What is known of a run: it goes on tidily, or it has ended where a signal does
no harm. -/
def Status.Orderly (env : Env) (allowed : Oracle → Prop) : Status α → Prop
  | .running p s => s.Tidy ∧ ∃ before : Launcher, before.Edited s ∧
      (launching env allowed).Holds Launcher.Edited Tidying p (fun _ _ => True) before
  | .ended _ s => ¬ s.Stranded

/-- **One step.** -/
theorem Status.Orderly.step {a b : Status α} (h : a.Orderly env allowed)
    (hstep : ShelteredStep env allowed a b) : b.Orderly env allowed := by
  obtain ⟨happening, hstep, hsheltered⟩ := hstep
  cases hstep with
  | call hmay =>
      obtain ⟨_, before, hedited, hholds⟩ := h
      obtain ⟨htidy, hrest⟩ := hholds _ hedited _ _ hmay
      exact ⟨htidy, _, .refl _, hrest⟩
  | edit hedit =>
      obtain ⟨⟨runtime, hvacated⟩, before, hedited, hholds⟩ := h
      exact ⟨⟨runtime, hvacated.edited hedit⟩, before, hedited.trans hedit, hholds⟩
  | forwarded _ => exact h
  | ended hhandled =>
      obtain ⟨⟨runtime, hvacated⟩, _⟩ := h
      rintro ⟨other, hcreated, hleft⟩
      rcases hsheltered _ _ _ rfl rfl with hinstalled | hgone
      · rw [hhandled] at hinstalled
        cases hinstalled
      · have hremoved := hgone other hcreated
        rw [hvacated.created other hcreated] at hremoved hleft
        exact hleft (hvacated.gone hremoved)

/-- **Signals strand nothing**, when each of them comes before the runtime is
created, after it is removed, or when its handler is installed. -/
theorem signals_strand_nothing {executable : String} {arguments : List String} {w : World}
    {signal : Signal}
    (h : Relation.ReflTransGen (ShelteredStep env allowed)
      (.running (runProgram lib env store username password executable arguments).run
        (Launcher.start w)) (.ended signal s)) : ¬ s.Stranded := by
  have hstart : (Status.running
      (runProgram lib env store username password executable arguments).run
        (Launcher.start w)).Orderly env allowed := by
    have hunborn := Launcher.unborn_start w
    refine ⟨⟨[], hunborn.vacated⟩, _, .refl _, ?_⟩
    exact holds_mono (runProgram_holds hunborn) fun _ _ _ => trivial
  have horderly : ∀ b : Status (Except Abort Int),
      Relation.ReflTransGen (ShelteredStep env allowed) (.running (runProgram lib env store
        username password executable arguments).run (Launcher.start w)) b →
      b.Orderly env allowed := by
    intro b hrun
    induction hrun with
    | refl => exact hstart
    | tail _ hstep ih => exact ih.step hstep
  exact horderly _ h

end

/-! ## A signal in between -/

/-- A launcher whose calls are answered without failure, but for some handlers. -/
def launcherPlaying (env : Env) (oracles : Nat → Oracle) (refused : Signal → Bool) (n : Nat) :
    (op : RunOp) → Launcher → op.Reply × Launcher
  | .store op, s =>
      let out := playing env oracles n op s.world
      (out.1, { s with world := out.2 })
  | .spawn command, s => (.ok (), { s with child := some command.codexHome })
  | .register signal, s =>
      if refused signal then (.error (.os .other), s)
      else (.ok (),
        { s with handled := fun other => if other = signal then true else s.handled other })
  | .openSignals, s | .kill, s => (.ok (), s)
  | .startForwarding, s => (true, s)
  | .wait, s => (.ok (.exited 0), { s with child := none })
  | .closeSignals, s | .joinForwarding, s => ((), s)

theorem may_launcherPlaying {env : Env} {allowed : Oracle → Prop} {oracles : Nat → Oracle}
    {refused : Signal → Bool}
    (hallowed : ∀ n listing, allowed { oracles n with listing := listing })
    (htransfer : ∀ n, (oracles n).transfer = none) (n : Nat) (op : RunOp) (s : Launcher) :
    (launching env allowed).may op s (launcherPlaying env oracles refused n op s).1
      (launcherPlaying env oracles refused n op s).2 := by
  cases op with
  | store op => exact ⟨_, may_playing hallowed htransfer n op s.world, rfl⟩
  | register signal =>
      cases hrefused : refused signal with
      | true =>
          simp only [launcherPlaying, hrefused, if_true]
          exact rfl
      | false =>
          simp only [launcherPlaying, hrefused, Bool.false_eq_true, if_false]
          exact rfl
  | spawn command | openSignals | kill | startForwarding | wait | closeSignals
  | joinForwarding => rfl

/-- The calls of a program as steps of a run. -/
theorem steps_advance {α : Type} {env : Env} {allowed : Oracle → Prop} {oracles : Nat → Oracle}
    {refused : Signal → Bool}
    (hallowed : ∀ n listing, allowed { oracles n with listing := listing })
    (htransfer : ∀ n, (oracles n).transfer = none) (calls n : Nat)
    (p : Prog RunOp RunOp.Reply α) (s : Launcher) :
    Relation.ReflTransGen (ShelteredStep env allowed) (.running p s)
      (.running (p.advance (launcherPlaying env oracles refused) calls n s).1
        (p.advance (launcherPlaying env oracles refused) calls n s).2) := by
  induction calls generalizing p n s with
  | zero => exact .refl
  | succ calls ih =>
      cases p with
      | ret a => exact .refl
      | call op next =>
          refine .head ⟨.call, .call (may_launcherPlaying hallowed htransfer n op s), ?_⟩ (ih _ _ _)
          intro p s signal _ h
          cases h

/-- A program of the store that succeeds, as steps of a run. -/
theorem steps_storeCall {α β : Type} {env : Env} {allowed : Oracle → Prop} {p : Io α} {a : α}
    {f : α → Launch β} {s : Launcher} {w : World}
    (hrun : (machine env allowed).Runs p.run s.world (.ok a) w) :
    Relation.ReflTransGen (ShelteredStep env allowed)
      (.running (storeCall p >>= f : Launch β).run s)
      (.running (f a).run { s with world := w }) := by
  have hsteps : ∀ (q : Prog Op Op.Reply (Except VaultError α)) (s : Launcher),
      (machine env allowed).Runs q s.world (.ok a) w →
      Relation.ReflTransGen (ShelteredStep env allowed)
        (.running (Prog.mapError Abort.error (Prog.fallible (ofStore q)) >>= f : Launch β).run s)
        (.running (f a).run { s with world := w }) := by
    intro q
    induction q with
    | ret b =>
        intro s hruns
        obtain ⟨rfl, rfl⟩ := hruns
        exact .refl
    | call op next ih =>
        intro s hruns
        obtain ⟨r, w1, hmay, hrest⟩ := hruns
        refine .head ⟨.call, .call (t := { s with world := w1 }) ⟨w1, hmay, rfl⟩, ?_⟩
          (ih r { s with world := w1 } hrest)
        intro p s signal _ h
        cases h
  exact hsteps p.run s hrun

/-- A run on the sample profile that may not install a handler for `SIGTERM`, from its
unlock to the handler that it has installed for `SIGINT`. -/
def handledLaunch : Prog RunOp RunOp.Reply (Except Abort Int) × Launcher :=
  (runUnlocked (sampleLibraries listTar) firstUnlock.2.1 "codex" []).run.advance
    (launcherPlaying sampleEnv quietOracle fun signal => decide (signal = .sigterm)) 3 0
    { Launcher.start firstAccount.2 with world := firstUnlock.2.2 }

/-- The rest of it, in which the launcher gives up its child and closes the vault. -/
def closedLaunch : Prog RunOp RunOp.Reply (Except Abort Int) × Launcher :=
  handledLaunch.1.advance
    (launcherPlaying sampleEnv quietOracle fun signal => decide (signal = .sigterm)) 16 3
    handledLaunch.2

/-- The runtime has been removed when the second signal comes. -/
theorem sheltered_closedLaunch :
    closedLaunch.2.Sheltered .sigterm ∧ closedLaunch.2.handled .sigterm = false := by
  have hremoved : (closedLaunch.2.world.history.all fun event =>
      match event.op with
      | .createDirectory p =>
          decide ((⟨.removeTree p, none⟩ : Event) ∈ closedLaunch.2.world.history)
      | _ => true) = true := by decide +kernel
  refine ⟨.inr fun runtime hcreated => ?_, by decide +kernel⟩
  have hevent := List.all_eq_true.mp hremoved _ hcreated
  unfold Launcher.Removed
  exact of_decide_eq_true hevent

/-- The theorem at a run in which a handler takes one signal while the runtime is there,
and another signal ends the process when the vault is closed. -/
theorem signals_strand_nothing_sample :
    handledLaunch.2.world.fs.node firstUnlock.2.1.runtime ≠ none ∧
      handledLaunch.2.handled .sigint = true ∧ ¬ closedLaunch.2.Stranded := by
  have htaken : handledLaunch.2.world.fs.node firstUnlock.2.1.runtime ≠ none ∧
      handledLaunch.2.handled .sigint = true := by decide +kernel
  obtain ⟨hthere, hhandled⟩ := htaken
  obtain ⟨hsheltered, hunhandled⟩ := sheltered_closedLaunch
  have hallowed : ∀ n listing, ReadsClock 1 { quietOracle n with listing := listing } :=
    fun _ _ => ⟨rfl, show Dotted ".tmp" by decide⟩
  have hunlocked : Relation.ReflTransGen (ShelteredStep sampleEnv (ReadsClock 1))
      (.running (runProgram (sampleLibraries listTar) sampleEnv sampleStore "bob"
        samplePassword "codex" []).run (Launcher.start firstAccount.2))
      (.running handledLaunch.1 handledLaunch.2) :=
    (steps_storeCall runs_firstUnlock).trans (steps_advance hallowed (fun _ => rfl) 3 0 _ _)
  have hforwarded : ShelteredStep sampleEnv (ReadsClock 1)
      (.running handledLaunch.1 handledLaunch.2) (.running handledLaunch.1 handledLaunch.2) := by
    refine ⟨.signal .sigint, .forwarded hhandled, ?_⟩
    intro p s signal hrunning hsignal
    obtain ⟨_, hs⟩ := Status.running.inj hrunning
    rw [← hs, ← Happening.signal.inj hsignal]
    exact .inl hhandled
  have hclosed : Relation.ReflTransGen (ShelteredStep sampleEnv (ReadsClock 1))
      (.running handledLaunch.1 handledLaunch.2) (.running closedLaunch.1 closedLaunch.2) :=
    steps_advance hallowed (fun _ => rfl) 16 3 _ _
  have hend : ShelteredStep sampleEnv (ReadsClock 1)
      (.running closedLaunch.1 closedLaunch.2) (.ended .sigterm closedLaunch.2) := by
    refine ⟨.signal .sigterm, .ended hunhandled, ?_⟩
    intro p s signal hrunning hsignal
    obtain ⟨_, hs⟩ := Status.running.inj hrunning
    rw [← hs, ← Happening.signal.inj hsignal]
    exact hsheltered
  exact ⟨hthere, hhandled,
    signals_strand_nothing (((hunlocked.tail hforwarded).trans hclosed).tail hend)⟩

/-- The runtime of the sample profile `alice`. -/
def sampleRuntime : FsPath := ["run", (sampleHeader emptyTar (FixedBytes.replicate 16 0)).id]

/-- A run on that profile until its runtime is there. -/
def strandedLaunch : Prog RunOp RunOp.Reply (Except Abort Int) × Launcher :=
  (runProgram (sampleLibraries emptyTar) sampleEnv sampleStore "alice" samplePassword "codex"
    []).run.advance (launcherPlaying sampleEnv (sampleOracle 1) fun _ => false) 14 0
      (Launcher.start (sampleWorld []))

/-- A signal that comes when the runtime has just been created leaves it behind. -/
theorem runtime_stranded_by_signal :
    ∃ s, Relation.ReflTransGen (AnyStep sampleEnv fun _ => True)
      (.running (runProgram (sampleLibraries emptyTar) sampleEnv sampleStore "alice"
        samplePassword "codex" []).run (Launcher.start (sampleWorld []))) (.ended .sigterm s) ∧
      s.Stranded := by
  have hany : ∀ a b : Status (Except Abort Int),
      ShelteredStep sampleEnv (fun _ => True) a b → AnyStep sampleEnv (fun _ => True) a b := by
    rintro a b ⟨happening, hstep, _⟩
    exact ⟨happening, hstep⟩
  have hopened : Relation.ReflTransGen (ShelteredStep sampleEnv fun _ => True)
      (.running (runProgram (sampleLibraries emptyTar) sampleEnv sampleStore "alice"
        samplePassword "codex" []).run (Launcher.start (sampleWorld [])))
      (.running strandedLaunch.1 strandedLaunch.2) :=
    steps_advance (fun _ _ => trivial) (fun _ => rfl) 14 0 _ _
  have hfacts : strandedLaunch.2.handled .sigterm = false ∧
      (⟨.createDirectory sampleRuntime, none⟩ : Event) ∈ strandedLaunch.2.world.history ∧
      strandedLaunch.2.world.fs.node sampleRuntime ≠ none := by decide +kernel
  obtain ⟨hhandled, hcreated, hleft⟩ := hfacts
  exact ⟨_, (Relation.ReflTransGen.mono hany _ _ hopened).tail ⟨_, .ended hhandled⟩,
    sampleRuntime, hcreated, hleft⟩

end CodexVault
