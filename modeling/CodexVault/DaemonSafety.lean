import CodexVault.DaemonSocket
import Mathlib.Tactic.SplitIfs

/-!
# At most one daemon on a socket path

Probing, removing and binding are separate steps, and a socket that is bound but
not yet listening refuses connections.  Two starters that overlap there can
unlink each other's sockets (`two_daemons_after_race`).  The two ways this can
happen are the two clauses of `Orderly`; a run whose steps avoid them keeps the
invariant `Inv`, and then no instance unlinks a foreign socket and at most one is
running (`one_daemon_per_path`).
-/

namespace CodexVault

namespace Phase

/-- The instance has a bound socket and its file has not been unlinked by it. -/
def owning : Phase → Bool
  | bound | inspecting | discarding _ | securing _ | verifying _ | running _
  | releasing _ _ | unlinking _ _ => true
  | _ => false

/-- The instance has a bound socket. -/
def holding : Phase → Bool
  | closing _ => true
  | phase => phase.owning

/-- The identity the instance's guard remembers. -/
def guard? : Phase → Option FileId
  | securing guard | verifying guard | running guard | releasing guard _ | unlinking guard _ =>
      some guard
  | _ => none

theorem owning_of_not_holding {p : Phase} (h : p.holding = false) : p.owning = false := by
  cases p <;> simp_all [owning, holding]

/-- **What a call that changed nothing leads to.**  Nothing is owned or held that
was not before, the guard remembers what was inspected, and only a connection
that found no listener leads to a removal. -/
theorem resume_quiet {q : Phase} {c : Call} {r : Reply} (hcall : q.call = some c)
    (hclose : c ≠ .close) (hfailed : c = .bind ∨ c = .unlink → ∃ kind, r = .failed kind) :
    ((q.resume r).holding = false → q.holding = false) ∧
    ((q.resume r).owning = true → q.owning = true ∧
      ((q.resume r).guard? = q.guard? ∨
        ∃ file, c = .lstat ∧ r = .metadata file ∧ (q.resume r).guard? = some file.id)) ∧
    (q.resume r = .removing → c = .connect ∧
      ∃ kind, r = .failed kind ∧ (kind = .connectionRefused ∨ kind = .notFound)) := by
  cases q <;> simp only [call, Option.some.injEq, reduceCtorEq] at hcall <;> subst hcall <;>
    cases r <;> simp only [resume] <;> (try split_ifs) <;>
    simp_all [holding, owning, guard?]

/-- What the removal of the file leads to. -/
theorem resume_unlinked {q : Phase} (hcall : q.call = some .unlink) :
    (q.resume .done).owning = false ∧
      ((q.resume .done).holding = false → q.holding = false) ∧
      (q = .removing ∨ q.owning = true) := by
  cases q <;> simp_all [call, resume, owning, holding]

end Phase

namespace DaemonState

variable {ι : Type} {s s' : DaemonState ι}

/-- The identity of the file at the path. -/
def fileAt (s : DaemonState ι) : Option FileId := s.path.map Metadata.id

/-- The identity of the file an instance's open socket is bound to. -/
def boundTo (s : DaemonState ι) (i : ι) : Option FileId := (s.socket i).map OpenSocket.id

/-- The steps that start-ups may take next to each other.  A `bind` that succeeds
comes while no other instance is about to remove a stale file; a `connect` comes
while the file at the path is not one that is bound and not yet listening. -/
def Orderly (s : DaemonState ι) : DaemonEvent ι → Prop
  | .call _ .bind => s.path = none → ∀ j, s.phase j ≠ .removing
  | .call _ .connect => ∀ file, s.path = some file → ∀ j socket,
      s.socket j = some socket → socket.id = file.id → socket.listening = true
  | _ => True

/-- What orderly runs keep: open sockets are bound to different files, an
instance that has not unlinked its file finds it at the path and remembers it,
and what is about to be removed is nobody's. -/
structure Inv (s : DaemonState ι) : Prop where
  distinct : ∀ i j id, s.boundTo i = some id → s.boundTo j = some id → i = j
  unbound : ∀ i, (s.phase i).holding = false → s.boundTo i = none
  owned : ∀ i, (s.phase i).owning = true →
    ∃ id, s.boundTo i = some id ∧ s.fileAt = some id ∧
      ∀ guard, (s.phase i).guard? = some guard → guard = id
  stale : ∀ i, s.phase i = .removing → ∀ j id, s.boundTo j = some id → s.fileAt ≠ some id

/-- An instance whose file is at the path is the only one. -/
theorem Inv.owner_unique (h : s.Inv) {i j : ι} (hi : (s.phase i).owning = true)
    (hj : (s.phase j).owning = true) : i = j := by
  obtain ⟨id, hbi, hfi, _⟩ := h.owned i hi
  obtain ⟨id', hbj, hfj, _⟩ := h.owned j hj
  have heq : id = id' := Option.some.inj (hfi.symm.trans hfj)
  exact h.distinct i j id hbi (heq ▸ hbj)

/-- While an instance is about to remove a file, nobody owns it. -/
theorem Inv.unowned (h : s.Inv) {i : ι} (hi : s.phase i = .removing) (j : ι) :
    (s.phase j).owning = false := by
  by_contra hj
  obtain ⟨id, hb, hf, _⟩ := h.owned j (Bool.not_eq_false _ ▸ hj)
  exact h.stale i hi j id hb hf

variable [DecidableEq ι]

/-- **One instance moves.**  The invariant survives when the instance meets it at
its new point and disturbs no other: the file at the path stays while somebody
else owns it, and what others are about to remove stays nobody's. -/
theorem Inv.update (h : s.Inv) {i : ι} {p : Phase}
    (hphase : s'.phase = Function.update s.phase i p)
    (hbound : ∀ j, j ≠ i → s'.boundTo j = s.boundTo j)
    (hdistinct : ∀ j id, j ≠ i → s'.boundTo i = some id → s.boundTo j ≠ some id)
    (hfree : p.holding = false → s'.boundTo i = none)
    (howned : p.owning = true → ∃ id, s'.boundTo i = some id ∧ s'.fileAt = some id ∧
      ∀ guard, p.guard? = some guard → guard = id)
    (hkeep : ∀ j, j ≠ i → (s.phase j).owning = true → s'.fileAt = s.fileAt)
    (hstale : ∀ j, (if j = i then p else s.phase j) = .removing →
      ∀ k id, s'.boundTo k = some id → s'.fileAt ≠ some id) : s'.Inv := by
  have hat : ∀ j, s'.phase j = if j = i then p else s.phase j := by
    intro j
    rw [hphase, Function.update_apply]
  constructor
  · intro j k id hj hk
    by_cases hji : j = i <;> by_cases hki : k = i
    · rw [hji, hki]
    · rw [hbound k hki] at hk
      exact absurd hk (hdistinct k id hki (hji ▸ hj))
    · rw [hbound j hji] at hj
      exact absurd hj (hdistinct j id hji (hki ▸ hk))
    · rw [hbound j hji] at hj
      rw [hbound k hki] at hk
      exact h.distinct j k id hj hk
  · intro j hj
    rw [hat j] at hj
    by_cases hji : j = i
    · rw [if_pos hji] at hj
      exact hji ▸ hfree hj
    · rw [if_neg hji] at hj
      rw [hbound j hji]
      exact h.unbound j hj
  · intro j hj
    rw [hat j] at hj ⊢
    by_cases hji : j = i
    · rw [if_pos hji] at hj ⊢
      exact hji ▸ howned hj
    · rw [if_neg hji] at hj ⊢
      rw [hbound j hji, hkeep j hji hj]
      exact h.owned j hj
  · intro j hj
    exact hstale j (hat j ▸ hj)

/-- A step that changes neither the path nor any socket's file. -/
theorem Inv.quiet (h : s.Inv) {i : ι} {p : Phase}
    (hphase : s'.phase = Function.update s.phase i p) (hfile : s'.fileAt = s.fileAt)
    (hbound : s'.boundTo = s.boundTo) (hfree : p.holding = false → s.boundTo i = none)
    (howned : p.owning = true → ∃ id, s.boundTo i = some id ∧ s.fileAt = some id ∧
      ∀ guard, p.guard? = some guard → guard = id)
    (hstale : p = .removing → ∀ j id, s.boundTo j = some id → s.fileAt ≠ some id) : s'.Inv := by
  apply h.update hphase
  · intro j _
    rw [hbound]
  · intro j id hj hi hj'
    rw [hbound] at hi
    exact hj (h.distinct j i id hj' hi)
  · rw [hbound]
    exact hfree
  · rw [hbound, hfile]
    exact howned
  · intro j _ _
    exact hfile
  · intro j hj
    rw [hbound, hfile]
    split at hj
    · exact hstale hj
    · exact h.stale j hj

/-- A step that unlinks the file at the path, which nobody else owns. -/
theorem Inv.cleared (h : s.Inv) {i : ι} {p : Phase}
    (hphase : s'.phase = Function.update s.phase i p) (hfile : s'.fileAt = none)
    (hbound : s'.boundTo = s.boundTo) (hfree : p.holding = false → s.boundTo i = none)
    (hp : p.owning = false) (hnone : ∀ j, j ≠ i → (s.phase j).owning = false) : s'.Inv := by
  apply h.update hphase
  · intro j _
    rw [hbound]
  · intro j id hj hi hj'
    rw [hbound] at hi
    exact hj (h.distinct j i id hj' hi)
  · rw [hbound]
    exact hfree
  · intro how
    rw [hp] at how
    cases how
  · intro j hj how
    rw [hnone j hj] at how
    cases how
  · intro j _ k id _
    simp [hfile]

/-- A successful `bind` while nobody is about to remove a file. -/
theorem Inv.bind (h : s.Inv) {i : ι} {id : FileId}
    (hphase : s'.phase = Function.update s.phase i .bound) (hempty : s.fileAt = none)
    (hfile : s'.fileAt = some id) (hself : s'.boundTo i = some id)
    (hbound : ∀ j, j ≠ i → s'.boundTo j = s.boundTo j)
    (hfresh : ∀ j, s.boundTo j ≠ some id) (hremoving : ∀ j, s.phase j ≠ .removing) : s'.Inv := by
  apply h.update hphase hbound
  · intro j id' _ hi
    rw [hself] at hi
    exact hi ▸ hfresh j
  · intro hp
    cases hp
  · intro _
    refine ⟨id, hself, hfile, ?_⟩
    intro guard hguard
    cases hguard
  · -- the path was empty, so nobody else owns a file
    intro j _ how
    obtain ⟨id', _, hfj, _⟩ := h.owned j how
    rw [hempty] at hfj
    cases hfj
  · intro j hj
    split at hj
    · cases hj
    · exact absurd hj (hremoving j)

/-- An instance whose socket is closed and which is done with the path. -/
theorem Inv.closed (h : s.Inv) {i : ι} {p : Phase}
    (hphase : s'.phase = Function.update s.phase i p) (hfile : s'.fileAt = s.fileAt)
    (hself : s'.boundTo i = none) (hbound : ∀ j, j ≠ i → s'.boundTo j = s.boundTo j)
    (hp : p.holding = false) (hremoving : p ≠ .removing) : s'.Inv := by
  apply h.update hphase hbound
  · intro j id _ hi
    rw [hself] at hi
    cases hi
  · intro _
    exact hself
  · intro how
    rw [Phase.owning_of_not_holding hp] at how
    cases how
  · intro j _ _
    exact hfile
  · intro j hj k id hk
    split at hj
    · exact absurd hj hremoving
    · rw [hfile]
      by_cases hki : k = i
      · rw [hki, hself] at hk
        cases hk
      · exact h.stale j hj k id (hbound k hki ▸ hk)

/-! ## Calls -/

/-- What one call does to the file at the path and to the caller's socket. -/
theorem answer_cases (path : Option Metadata) (own : Option OpenSocket) (accepts : Bool)
    (choice : Choice) (call : Call) :
    let out := answer path own accepts choice call
    (call ≠ .close ∧ out.2.1.map Metadata.id = path.map Metadata.id ∧
      out.2.2.map OpenSocket.id = own.map OpenSocket.id ∧
      (call = .bind ∨ call = .unlink → ∃ kind, out.1 = .failed kind)) ∨
    (call = .unlink ∧ path ≠ none ∧ out = (.done, none, own)) ∨
    (call = .bind ∧ path = none ∧ out.1 = .done ∧
      out.2.1.map Metadata.id = some choice.freshId ∧
      out.2.2.map OpenSocket.id = some choice.freshId) ∨
    (call = .close ∧ out = (.done, path, none)) := by
  cases call <;> cases hfault : choice.fault <;> cases path <;> cases own <;> cases accepts <;>
    simp [answer, perform, hfault]

/-- Metadata comes from the file at the path. -/
theorem answer_lstat {path : Option Metadata} {own : Option OpenSocket} {accepts : Bool}
    {choice : Choice} {file : Metadata}
    (h : (answer path own accepts choice .lstat).1 = .metadata file) : path = some file := by
  cases hfault : choice.fault <;> cases path <;> simp_all [answer, perform]

/-- Without an unrelated failure a connection is refused only when nobody
listens on the file at the path. -/
theorem answer_connect {path : Option Metadata} {own : Option OpenSocket} {accepts : Bool}
    {choice : Choice} {kind : ErrorKind}
    (hfault : ∀ kind, choice.fault = some kind → kind ≠ .notFound ∧ kind ≠ .connectionRefused)
    (h : (answer path own accepts choice .connect).1 = .failed kind)
    (hkind : kind = .connectionRefused ∨ kind = .notFound) : path = none ∨ accepts = false := by
  cases hf : choice.fault with
  | some k =>
      have hk := hfault k hf
      simp_all [answer]
  | none => cases path <;> cases accepts <;> simp_all [answer, perform]

/-- **One call.** -/
theorem Inv.call (h : s.Inv) {i : ι} {c : Call} {accepts : Bool} {choice : Choice}
    (hcall : (s.phase i).call = some c) (haccepts : accepts = true ↔ s.Accepts)
    (hadmits : s.Admits choice) (horderly : s.Orderly (.call i c)) :
    (s.afterCall i (answer s.path (s.socket i) accepts choice c)).Inv := by
  generalize hout : answer s.path (s.socket i) accepts choice c = out
  have hself : (s.afterCall i out).boundTo i = out.2.2.map OpenSocket.id := by
    simp [boundTo, afterCall]
  have hother : ∀ j, j ≠ i → (s.afterCall i out).boundTo j = s.boundTo j := by
    intro j hj
    simp [boundTo, afterCall, hj]
  rcases answer_cases s.path (s.socket i) accepts choice c with
    ⟨hclose, hfile, hsocket, hfailed⟩ | ⟨rfl, hpath, hdone⟩ | ⟨rfl, hpath, hdone, hfile, hsocket⟩ |
    ⟨rfl, hdone⟩
  · rw [hout] at hfile hsocket hfailed
    obtain ⟨hfree, howned, hremoving⟩ := Phase.resume_quiet hcall hclose hfailed
    have hbound : (s.afterCall i out).boundTo = s.boundTo := by
      funext j
      by_cases hj : j = i
      · rw [hj, hself, hsocket]
        rfl
      · exact hother j hj
    have hphase : (s.afterCall i out).phase =
        Function.update s.phase i ((s.phase i).resume out.1) := rfl
    apply h.quiet hphase hfile hbound
    · intro hp
      exact h.unbound i (hfree hp)
    · intro hp
      obtain ⟨hq, hguard⟩ := howned hp
      obtain ⟨id, hb, hf, hg⟩ := h.owned i hq
      refine ⟨id, hb, hf, ?_⟩
      intro guard hguard'
      rcases hguard with hsame | ⟨file, rfl, hreply, hnew⟩
      · exact hg guard (hsame ▸ hguard')
      · -- the guard remembers the file at the path, which is the instance's own
        have hpath := answer_lstat (hout ▸ hreply)
        have hid : s.fileAt = some file.id := by simp [fileAt, hpath]
        have heq : guard = file.id := Option.some.inj (hguard'.symm.trans hnew)
        exact heq.trans (Option.some.inj (hid.symm.trans hf))
    · intro hp j id hj hid
      obtain ⟨rfl, kind, hreply, hkind⟩ := hremoving hp
      obtain ⟨file, hpath, rfl⟩ := Option.map_eq_some_iff.mp hid
      obtain ⟨socket, hsock, hsid⟩ := Option.map_eq_some_iff.mp hj
      -- the connection was refused although somebody listens
      rcases answer_connect hadmits.fault (hout ▸ hreply) hkind with hnone | hdeaf
      · rw [hpath] at hnone
        cases hnone
      · have hlisten := horderly file hpath j socket hsock hsid
        have hacc : s.Accepts := ⟨file, hpath, j, socket, hsock, hsid, hlisten⟩
        rw [haccepts.mpr hacc] at hdeaf
        cases hdeaf
  · rw [hout] at hdone
    subst hdone
    obtain ⟨howning, hfree, hkind⟩ := Phase.resume_unlinked hcall
    have hbound : (s.afterCall i (.done, none, s.socket i)).boundTo = s.boundTo := by
      funext j
      by_cases hj : j = i
      · rw [hj, hself]
        rfl
      · exact hother j hj
    have hphase : (s.afterCall i (.done, none, s.socket i)).phase =
        Function.update s.phase i ((s.phase i).resume .done) := rfl
    apply h.cleared hphase rfl hbound
    · intro hp
      exact h.unbound i (hfree hp)
    · exact howning
    · intro j hj
      rcases hkind with hremoving | hown
      · exact h.unowned hremoving j
      · by_contra hj'
        exact hj (h.owner_unique (Bool.not_eq_false _ ▸ hj') hown)
  · rw [hout] at hdone hfile hsocket
    have hbinding : s.phase i = .binding := by
      cases hq : s.phase i <;> simp_all [Phase.call]
    have hphase : (s.afterCall i out).phase = Function.update s.phase i .bound := by
      simp only [afterCall, hbinding, hdone, Phase.resume]
    apply h.bind hphase
    · simp [fileAt, hpath]
    · exact hfile
    · exact hself.trans hsocket
    · exact hother
    · intro j hj
      obtain ⟨socket, hsock, hsid⟩ := Option.map_eq_some_iff.mp hj
      exact hadmits.fresh j socket hsock hsid
    · exact horderly hpath
  · rw [hout] at hdone
    subst hdone
    obtain ⟨error, hclosing⟩ : ∃ error, s.phase i = .closing error := by
      cases hq : s.phase i <;> simp_all [Phase.call]
    have hphase : (s.afterCall i (.done, s.path, none)).phase =
        Function.update s.phase i (.stopped error) := by
      simp only [afterCall, hclosing, Phase.resume]
    apply h.closed hphase rfl hself hother rfl
    intro hp
    cases hp

/-- **One step.**  An orderly step keeps the invariant. -/
theorem Inv.step (h : s.Inv) {event : DaemonEvent ι} (hstep : Step s event s')
    (horderly : s.Orderly event) : s'.Inv := by
  cases hstep with
  | start i hidle =>
      have hfree : s.boundTo i = none := h.unbound i (by rw [hidle]; rfl)
      have hphase : (s.setPhase i .probing).phase = Function.update s.phase i .probing := rfl
      apply h.quiet hphase rfl rfl (fun _ => hfree)
      · intro hp
        cases hp
      · intro hp
        cases hp
  | stop i guard hrunning =>
      have hphase : (s.setPhase i (.releasing guard none)).phase =
          Function.update s.phase i (.releasing guard none) := rfl
      apply h.quiet hphase rfl rfl
      · intro hp
        cases hp
      · intro _
        have howned := h.owned i (by rw [hrunning]; rfl)
        rwa [hrunning] at howned
      · intro hp
        cases hp
  | kill i =>
      have hphase : (s.killed i).phase = Function.update s.phase i (.stopped none) := rfl
      apply h.closed hphase rfl
      · simp [boundTo, killed]
      · intro j hj
        simp [boundTo, killed, hj]
      · rfl
      · intro hp
        cases hp
  | call i c accepts choice hcall haccepts hadmits =>
      exact h.call hcall haccepts hadmits horderly

omit [DecidableEq ι] in
theorem Initial.inv (h : s.Initial) : s.Inv := by
  have hnone : ∀ i, s.boundTo i = none := fun i => by simp [boundTo, h.closed i]
  constructor
  · intro i j id hi
    rw [hnone i] at hi
    cases hi
  · intro i _
    exact hnone i
  · intro i hi
    rw [h.idle i] at hi
    cases hi
  · intro i hi
    rw [h.idle i] at hi
    cases hi

/-- **A whole run.** -/
theorem Run.inv {s₀ : DaemonState ι} (hinit : s₀.Initial) (hrun : Run Orderly s₀ s) : s.Inv := by
  induction hrun with
  | refl => exact hinit.inv
  | step _ horderly hstep ih => exact ih.step hstep horderly

/-- Under the invariant an `unlink` only ever removes the caller's own file or a
file nobody has open. -/
theorem Inv.not_unlinksForeign (h : s.Inv) {event : DaemonEvent ι} (hstep : Step s event s') :
    ¬ UnlinksForeign s event s' := by
  rintro ⟨i, file, rfl, hpath, _, j, socket, hji, hsock, hid⟩
  cases hstep with
  | call _ _ accepts choice hcall haccepts hadmits =>
      have hbound : s.boundTo j = some file.id := by simp [boundTo, hsock, hid]
      have hfile : s.fileAt = some file.id := by simp [fileAt, hpath]
      rcases (Phase.resume_unlinked hcall).2.2 with hremoving | howning
      · exact h.stale i hremoving j file.id hbound hfile
      · obtain ⟨id, hbi, hfi, _⟩ := h.owned i howning
        have heq : id = file.id := Option.some.inj (hfi.symm.trans hfile)
        exact hji (h.distinct j i file.id hbound (heq ▸ hbi))

/-- **One daemon per socket path.**  In every run whose steps are orderly, from
any initial file at the path and for any number of instances, no step unlinks a
file that another instance has open, and no state has two running instances. -/
theorem one_daemon_per_path {s₀ : DaemonState ι} (hinit : s₀.Initial)
    (hrun : Run Orderly s₀ s) :
    (∀ event s', Step s event s' → ¬ UnlinksForeign s event s') ∧ ¬ TwoRunning s := by
  have hinv := hrun.inv hinit
  refine ⟨fun event s' hstep => hinv.not_unlinksForeign hstep, ?_⟩
  rintro ⟨i, j, guard, guard', hij, hi, hj⟩
  apply hij
  apply hinv.owner_unique
  · rw [hi]
    rfl
  · rw [hj]
    rfl

/-! ## Two instances -/

/-- Two instances that have not started. -/
def twoIdle (path : Option Metadata) : DaemonState Bool where
  path := path
  socket := fun _ => none
  phase := fun _ => .idle

theorem twoIdle_initial (path : Option Metadata) : (twoIdle path).Initial :=
  ⟨fun _ => rfl, fun _ => rfl⟩

/-- `Accepts`, evaluated for two instances. -/
def accepting (s : DaemonState Bool) : Bool :=
  [false, true].any fun i =>
    match s.path, s.socket i with
    | some file, some socket => socket.id = file.id && socket.listening
    | _, _ => false

theorem accepting_iff (s : DaemonState Bool) : s.accepting = true ↔ s.Accepts := by
  constructor
  · intro h
    obtain ⟨i, _, hi⟩ := List.any_eq_true.mp h
    split at hi
    · next file socket hpath hsocket =>
        obtain ⟨hid, hlisten⟩ := Bool.and_eq_true_iff.mp hi
        exact ⟨file, hpath, i, socket, hsocket, of_decide_eq_true hid, hlisten⟩
    · cases hi
  · rintro ⟨file, hpath, i, socket, hsocket, hid, hlisten⟩
    apply List.any_eq_true.mpr
    refine ⟨i, by cases i <;> simp, ?_⟩
    simp [hpath, hsocket, hid, hlisten]

/-- Start an instance, or let it make its next call; `id` is for a file the call
creates and must not be pinned. -/
def advance (s : DaemonState Bool) (move : Bool × FileId) : DaemonState Bool :=
  if s.boundTo false = some move.2 ∨ s.boundTo true = some move.2 then s
  else
    match (s.phase move.1).call with
    | some c => s.afterCall move.1 (answer s.path (s.socket move.1) s.accepting
        { fault := none, freshId := move.2, exposed := false } c)
    | none => if s.phase move.1 = .idle then s.setPhase move.1 .probing else s

theorem advance_run {allowed : DaemonState Bool → DaemonEvent Bool → Prop}
    {s₀ s : DaemonState Bool} (hrun : Run allowed s₀ s)
    (move : Bool × FileId) (hstart : allowed s (.start move.1))
    (hallowed : ∀ c, (s.phase move.1).call = some c → allowed s (.call move.1 c)) :
    Run allowed s₀ (s.advance move) := by
  unfold advance
  split
  · exact hrun
  · next hfresh =>
      split
      · next c hcall =>
          refine .step hrun (hallowed c hcall)
            (.call move.1 c _ _ hcall s.accepting_iff ⟨?_, ?_⟩)
          · intro i socket hsocket hid
            have hb : s.boundTo i = some move.2 := by
              rw [boundTo, hsocket]
              exact congrArg some hid
            apply hfresh
            cases i with
            | false => exact .inl hb
            | true => exact .inr hb
          · intro kind hkind
            cases hkind
      · split
        · next hidle => exact .step hrun hstart (.start move.1 hidle)
        · exact hrun

theorem foldl_advance_run (moves : List (Bool × FileId)) {s₀ s : DaemonState Bool}
    (hrun : Run (fun _ _ => True) s₀ s) :
    Run (fun _ _ => True) s₀ (moves.foldl advance s) := by
  induction moves generalizing s with
  | nil => exact hrun
  | cons move rest ih => exact ih (advance_run hrun move trivial fun _ _ => trivial)

/-- A socket left behind by a daemon that is gone. -/
def staleSocket : Metadata where
  id := { device := 1, inode := 10 }
  isSocket := true
  owned := true
  exposed := false

/-- Both instances find the stale socket refusing; one removes it and binds. -/
def raceMoves : List (Bool × FileId) :=
  let fresh : FileId := { device := 1, inode := 11 }
  [(true, fresh), (false, fresh), (true, fresh), (false, fresh), (true, fresh), (false, fresh),
    (true, fresh), (true, fresh)]

/-- The second instance removes the first one's socket, and both come up. -/
def raceEnd : List (Bool × FileId) :=
  let fresh : FileId := { device := 1, inode := 12 }
  let spare : FileId := { device := 1, inode := 13 }
  [(true, fresh), (true, fresh), (true, fresh), (true, fresh),
    (false, fresh), (false, fresh), (false, spare), (false, spare), (false, spare), (false, spare)]

/-- **The race.**  From a stale socket, with two starters: a step unlinks the
socket of the other instance, and two instances end up running. -/
theorem two_daemons_after_race :
    (twoIdle (some staleSocket)).Initial ∧
    (∃ s event s', Run (fun _ _ => True) (twoIdle (some staleSocket)) s ∧
      Step s event s' ∧ UnlinksForeign s event s') ∧
    ∃ s, Run (fun _ _ => True) (twoIdle (some staleSocket)) s ∧ TwoRunning s := by
  refine ⟨twoIdle_initial _, ?_, ?_⟩
  · have hrun := foldl_advance_run raceMoves (.refl (s := twoIdle (some staleSocket)))
    refine ⟨_, .call false .unlink, _, hrun, .call false .unlink _
      { fault := none, freshId := { device := 1, inode := 13 }, exposed := false } rfl
      (accepting_iff _) ⟨?_, ?_⟩, false, _, rfl, rfl, rfl, true, _, by decide, rfl, rfl⟩
    · intro i socket hsocket hid
      cases i with
      | false => cases hsocket
      | true =>
          cases hsocket
          exact absurd hid (by decide)
    · intro kind hkind
      cases hkind
  · have hrun := foldl_advance_run (raceMoves ++ raceEnd) (.refl (s := twoIdle (some staleSocket)))
    exact ⟨_, hrun, true, false, _, _, by decide, rfl, rfl⟩

/-- The instance has not bound the file at the path, or listens on it. -/
def listens (s : DaemonState Bool) (i : Bool) : Bool :=
  match s.path, s.socket i with
  | some file, some socket => decide (socket.id ≠ file.id) || socket.listening
  | _, _ => true

/-- `Orderly`, evaluated for a call of one of two instances. -/
def orderly (s : DaemonState Bool) : Option Call → Bool
  | some .bind => s.path.isSome || [false, true].all fun j => decide (s.phase j ≠ .removing)
  | some .connect => [false, true].all s.listens
  | _ => true

theorem orderly_call {s : DaemonState Bool} {c : Call} (i : Bool)
    (h : s.orderly (some c) = true) : Orderly s (.call i c) := by
  have hall : ∀ {P : Bool → Bool} (j : Bool), [false, true].all P = true → P j = true := by
    intro P j hP
    exact List.all_eq_true.mp hP j (by cases j <;> simp)
  cases c with
  | bind =>
      intro hpath j
      change (s.path.isSome || _) = true at h
      rw [hpath, Option.isSome_none, Bool.false_or] at h
      exact of_decide_eq_true (hall j h)
  | connect =>
      intro file hpath j socket hsocket hid
      have hone : s.listens j = true := hall (P := s.listens) j h
      unfold listens at hone
      rw [hpath, hsocket] at hone
      simpa [hid] using hone
  | lstat | unlink | listen | chmod | close => exact trivial

/-- Every call of the moves is orderly. -/
def movesOrderly (s : DaemonState Bool) : List (Bool × FileId) → Bool
  | [] => true
  | move :: rest => s.orderly (s.phase move.1).call && (s.advance move).movesOrderly rest

theorem foldl_advance_orderly (moves : List (Bool × FileId)) {s₀ s : DaemonState Bool}
    (hrun : Run Orderly s₀ s) (h : s.movesOrderly moves = true) :
    Run Orderly s₀ (moves.foldl advance s) := by
  induction moves generalizing s with
  | nil => exact hrun
  | cons move rest ih =>
      obtain ⟨hfirst, hrest⟩ := Bool.and_eq_true_iff.mp h
      refine ih (advance_run hrun move trivial fun c hc => ?_) hrest
      rw [hc] at hfirst
      exact orderly_call move.1 hfirst

/-- Both instances find the stale socket refusing and go on to remove it.  The second
finds nothing to remove and gives up, and then the first binds. -/
def overlappingMoves : List (Bool × FileId) :=
  let fresh : FileId := { device := 1, inode := 11 }
  let spare : FileId := { device := 1, inode := 12 }
  [(true, fresh), (false, fresh), (true, fresh), (false, fresh), (true, fresh), (false, fresh),
    (true, fresh), (false, fresh), (true, fresh), (true, spare), (true, spare), (true, spare),
    (true, spare)]

/-- The theorem at two starters that overlap on a stale socket, one of which comes up. -/
theorem one_daemon_per_path_overlapping :
    Run Orderly (twoIdle (some staleSocket))
        (overlappingMoves.foldl advance (twoIdle (some staleSocket))) ∧
      ((overlappingMoves.foldl advance (twoIdle (some staleSocket))).phase true =
        .running { device := 1, inode := 11 } ∧
        (overlappingMoves.foldl advance (twoIdle (some staleSocket))).phase false =
          .stopped (some (.io (.os .notFound)))) ∧
      (∀ event s', Step (overlappingMoves.foldl advance (twoIdle (some staleSocket))) event s' →
        ¬ UnlinksForeign (overlappingMoves.foldl advance (twoIdle (some staleSocket))) event s') ∧
      ¬ TwoRunning (overlappingMoves.foldl advance (twoIdle (some staleSocket))) := by
  have hrun := foldl_advance_orderly overlappingMoves
    (.refl (s := twoIdle (some staleSocket))) (by decide)
  exact ⟨hrun, ⟨by decide, by decide⟩, one_daemon_per_path (twoIdle_initial _) hrun⟩

end DaemonState

end CodexVault
