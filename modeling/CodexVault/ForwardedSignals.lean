import CodexVault.SignalRuns

/-!
# Forwarded signals

The thread of `SignalForwarder` knows the child by its PID.  `Around` is what
happens beside the calls of `runProgram`: signals arrive, the thread looks whether
its handle is closed, takes a pending signal and kills, the child exits, and once
it has been reaped other processes come and go under its PID.

`wait` reaps the child before `stop` closes the handle, so a signal in between
reaches whoever has the PID by then (`forwarded_signal_misses`).
`forwarded_signals_hit` says which step it takes.
-/

namespace CodexVault

open ByteStrings Programs Contract

/-- The child of `run_program`. -/
inductive ChildStatus where
  | unborn
  | running
  | exited
  | reaped
  deriving DecidableEq

/-- The process that has the PID of the child. -/
inductive Holder where
  | nobody
  | child
  | other
  deriving DecidableEq

/-- The thread of the forwarder. -/
inductive ForwarderThread where
  | absent
  /-- In `forever`, before it looks at the handle. -/
  | looping
  /-- It has seen the handle open, and looks for a signal. -/
  | polling
  /-- `forever` has returned this signal, and `kill` is next. -/
  | taken (signal : Signal)
  | finished
  deriving DecidableEq

/-- A launcher with its thread, and the processes it deals with. -/
structure Forwarding where
  launcher : Launcher
  child : ChildStatus
  /-- An unrelated process has the PID of the reaped child. -/
  reused : Bool
  pending : Signal → Bool
  closed : Bool
  thread : ForwarderThread
  /-- The targets of the thread's `kill` calls, the last one in front. -/
  kills : List Holder

namespace Forwarding

/-- Before the first call. -/
def start (w : World) : Forwarding where
  launcher := .start w
  child := .unborn
  reused := false
  pending _ := false
  closed := false
  thread := .absent
  kills := []

/-- Who has the PID. -/
def holder (s : Forwarding) : Holder :=
  match s.child with
  | .unborn => .nobody
  | .running | .exited => .child
  | .reaped => if s.reused then .other else .nobody

/-- `kill` in the thread. -/
def kill (s : Forwarding) : Forwarding :=
  { s with kills := s.holder :: s.kills, thread := .looping }

/-- When a call can return: `wait` once the child has exited, `join` once the thread
has. -/
def CanReply : (op : RunOp) → op.Reply → Forwarding → Prop
  | .wait, .ok _, s => s.child = .exited
  | .joinForwarding, _, s => s.thread = .finished
  | _, _, _ => True

/-- What a call does to the child and to the thread. -/
def after : (op : RunOp) → op.Reply → Forwarding → Forwarding
  | .spawn _, .ok (), s => { s with child := .running }
  | .wait, .ok _, s => { s with child := .reaped }
  | .startForwarding, true, s => { s with thread := .looping }
  | .closeSignals, _, s => { s with closed := true }
  | _, _, s => s

end Forwarding

/-- The calls of a run beside its thread. -/
def forwarding (env : Env) (allowed : Oracle → Prop) :
    Contract RunOp RunOp.Reply Forwarding where
  may op s r t := s.CanReply op r ∧ ∃ launcher,
    (launching env allowed).may op s.launcher r launcher ∧
      t = ({ s with launcher := launcher } : Forwarding).after op r

/-- What happens beside the calls.  A signal without a handler ends the process, and
nothing follows. -/
inductive Around : Forwarding → Forwarding → Prop
  | edit {s : Forwarding} {launcher : Launcher} (hedit : s.launcher.Edited launcher) :
      Around s { s with launcher := launcher }
  | arrive {s : Forwarding} {signal : Signal} (hhandled : s.launcher.handled signal = true) :
      Around s { s with pending := fun other => if other = signal then true else s.pending other }
  | look {s : Forwarding} (hthread : s.thread = .looping) :
      Around s { s with thread := if s.closed then .finished else .polling }
  | take {s : Forwarding} {signal : Signal} (hthread : s.thread = .polling)
      (hpending : s.pending signal = true) :
      Around s { s with
        thread := .taken signal
        pending := fun other => if other = signal then false else s.pending other }
  | nothing {s : Forwarding} (hthread : s.thread = .polling) :
      Around s { s with thread := .looping }
  | kill {s : Forwarding} {signal : Signal} (hthread : s.thread = .taken signal) :
      Around s s.kill
  | exit {s : Forwarding} (hchild : s.child = .running) : Around s { s with child := .exited }
  | reuse {s : Forwarding} (hchild : s.child = .reaped) : Around s { s with reused := true }
  | release {s : Forwarding} (hreused : s.reused = true) : Around s { s with reused := false }

/-- One step: a call of the program, or something beside it. -/
inductive ForwarderStep {α : Type} (env : Env) (allowed : Oracle → Prop) :
    Prog RunOp RunOp.Reply α × Forwarding → Prog RunOp RunOp.Reply α × Forwarding → Prop
  | call {op : RunOp} {next : op.Reply → Prog RunOp RunOp.Reply α} {r : op.Reply}
      {s t : Forwarding} (hmay : (forwarding env allowed).may op s r t) :
      ForwarderStep env allowed (.call op next, s) (next r, t)
  | around {p : Prog RunOp RunOp.Reply α} {s t : Forwarding} (h : Around s t) :
      ForwarderStep env allowed (p, s) (p, t)

namespace Forwarding

variable {s t u : Forwarding}

/-- Every kill of the thread so far met the child, unreaped. -/
def OnlyHits (s : Forwarding) : Prop := ∀ target ∈ s.kills, target = .child

/-- The thread takes no signal once the child is reaped, and the child is not reaped
while the thread holds one. -/
structure Timely (s t : Forwarding) : Prop where
  take : s.child = .reaped → ∀ signal, s.thread = .polling → t.thread ≠ .taken signal
  reap : ∀ signal, s.thread = .taken signal → s.child ≠ .reaped → t.child ≠ .reaped

/-! ## What a step leaves alone -/

@[simp] theorem kills_after (op : RunOp) (r : op.Reply) : (s.after op r).kills = s.kills := by
  cases op with
  | spawn _ | wait => cases r <;> rfl
  | startForwarding => cases r <;> rfl
  | store _ | openSignals | register _ | kill | closeSignals | joinForwarding => rfl

theorem thread_after {op : RunOp} {r : op.Reply} {signal : Signal}
    (h : (s.after op r).thread = .taken signal) : s.thread = .taken signal := by
  cases op with
  | spawn _ | wait => cases r <;> exact h
  | startForwarding =>
      cases r with
      | false => exact h
      | true => cases h
  | store _ | openSignals | register _ | kill | closeSignals | joinForwarding => exact h

/-- The call that reaps the child leaves the thread alone. -/
theorem thread_of_reaped_after {op : RunOp} {r : op.Reply} (hbefore : s.child ≠ .reaped)
    (h : (s.after op r).child = .reaped) : (s.after op r).thread = s.thread := by
  cases op with
  | spawn _ | wait => cases r <;> rfl
  | startForwarding => cases r <;> exact absurd h hbefore
  | store _ | openSignals | register _ | kill | closeSignals | joinForwarding => rfl

/-- A thread does not start by itself, and a child is not unborn again. -/
structure Beside (s t : Forwarding) : Prop where
  absent : s.thread = .absent → t.thread = .absent
  born : s.child ≠ .unborn → t.child ≠ .unborn

theorem Beside.refl (s : Forwarding) : s.Beside s := ⟨id, id⟩

theorem Beside.trans (h : s.Beside t) (h' : t.Beside u) : s.Beside u :=
  ⟨fun hs => h'.absent (h.absent hs), fun hs => h'.born (h.born hs)⟩

theorem Beside.of_around (h : Around s t) : s.Beside t := by
  cases h with
  | edit | arrive | reuse | release => exact ⟨id, id⟩
  | look hthread | take hthread | nothing hthread | kill hthread =>
      refine ⟨fun habsent => ?_, id⟩
      rw [hthread] at habsent
      cases habsent
  | exit =>
      refine ⟨id, fun _ h => ?_⟩
      cases h

/-- The thread runs only beside a child. -/
def Born (_ t : Forwarding) : Prop := t.thread ≠ .absent → t.child ≠ .unborn

end Forwarding

/-! ## The order of the calls -/

section

variable {lib : Libraries} {env : Env} {allowed : Oracle → Prop} {store : VaultStore}
variable {username : String} {password : Bytes} {s t : Forwarding} {α : Type}

open Forwarding

/-- The calls that neither start a child nor the thread. -/
def RunOp.Tame : RunOp → Prop
  | .spawn _ | .startForwarding => False
  | _ => True

theorem uses_ofStore (p : Prog Op Op.Reply α) : Uses RunOp.Tame (ofStore p) := by
  induction p with
  | ret a => exact trivial
  | call op next ih => exact ⟨trivial, ih⟩

theorem uses_storeCall (p : Io α) : Uses RunOp.Tame (storeCall p).run :=
  uses_mapError (uses_ofStore p.run)

theorem uses_true (p : Prog RunOp RunOp.Reply α) : Uses (fun _ => True) p := by
  induction p with
  | ret a => exact trivial
  | call op next ih => exact ⟨trivial, ih⟩

/-- Without a thread, such calls leave it so. -/
theorem tame_holds {p : Launch α} (hp : Uses RunOp.Tame p.run) (hs : s.thread = .absent) :
    (forwarding env allowed).HoldsE Beside Born p (fun _ t => t.thread = .absent)
      (fun _ t => t.thread = .absent) s := by
  apply holdsE_of_uses (I := fun t : Forwarding => t.thread = .absent)
    (fun _ _ hs h => h.absent hs) _ hp hs
  rintro op s r t htame hs ⟨_, launcher, _, rfl⟩
  have habsent : (({ s with launcher := launcher } : Forwarding).after op r).thread =
      .absent := by
    cases op with
    | spawn _ | startForwarding => exact htame.elim
    | wait => cases r <;> exact hs
    | store _ | openSignals | register _ | kill | closeSignals | joinForwarding => exact hs
  exact ⟨fun h => absurd habsent h, habsent⟩

/-- Beside a child, any calls will do. -/
theorem born_holds (p : Launch α) (hs : s.child ≠ .unborn) :
    (forwarding env allowed).HoldsE Beside Born p (fun _ _ => True) (fun _ _ => True) s := by
  have hborn : (forwarding env allowed).HoldsE Beside Born p (fun _ t => t.child ≠ .unborn)
      (fun _ t => t.child ≠ .unborn) s := by
    apply holdsE_of_uses (I := fun t : Forwarding => t.child ≠ .unborn)
      (fun _ _ hs h => h.born hs) _ (uses_true p.run) hs
    rintro op s r t _ hs ⟨_, launcher, _, rfl⟩
    have hborn : (({ s with launcher := launcher } : Forwarding).after op r).child ≠
        .unborn := by
      cases op with
      | spawn _ | wait =>
          cases r with
          | error e => exact hs
          | ok => exact fun h => by cases h
      | startForwarding => cases r <;> exact hs
      | store _ | openSignals | register _ | kill | closeSignals | joinForwarding => exact hs
    exact ⟨fun _ => hborn, hborn⟩
  exact holdsE_mono hborn (fun _ _ _ => trivial) fun _ _ _ => trivial

/-- **`run_program` starts its thread beside a child.** -/
theorem runProgram_born {executable : String} {arguments : List String}
    (hs : s.thread = .absent) :
    (forwarding env allowed).HoldsE Beside Born
      (runProgram lib env store username password executable arguments) (fun _ _ => True)
      (fun _ _ => True) s := by
  apply holdsE_bind
  apply holdsE_mono (tame_holds (uses_storeCall _) hs) _ fun _ _ _ => trivial
  intro vault t ht
  apply holdsE_bind
  apply holdsE_lift
  apply holds_perform
  rintro u hu r v ⟨_, launcher, _, rfl⟩
  have habsent := hu.absent ht
  cases r with
  | error e =>
      refine ⟨fun h => absurd habsent h, ?_⟩
      have hclose : Uses RunOp.Tame (do
          storeCall (vault.close lib)
          throw (.error (.launch e.text)) : Launch Int).run :=
        uses_run_bind (uses_storeCall _) fun _ => uses_run_throw
      exact holdsE_mono (tame_holds hclose habsent) (fun _ _ _ => trivial) fun _ _ _ => trivial
  | ok =>
      have hborn : ChildStatus.running ≠ .unborn := fun h => by cases h
      exact ⟨fun _ => hborn, born_holds _ hborn⟩

/-! ## Runs -/

/-- A step that meets the condition. -/
def TimelyStep (env : Env) (allowed : Oracle → Prop)
    (a b : Prog RunOp RunOp.Reply α × Forwarding) : Prop :=
  ForwarderStep env allowed a b ∧ a.2.Timely b.2

/-- What is known of a state of a run whose steps meet the condition. -/
structure Forwarding.Sound (s : Forwarding) : Prop where
  born : s.thread ≠ .absent → s.child ≠ .unborn
  unreaped : ∀ signal, s.thread = .taken signal → s.child ≠ .reaped
  hits : s.OnlyHits

theorem Forwarding.Sound.holder (h : s.Sound) {signal : Signal}
    (htaken : s.thread = .taken signal) :
    s.holder = .child := by
  have hborn := h.born fun habsent => by
    rw [habsent] at htaken
    cases htaken
  have hunreaped := h.unreaped signal htaken
  unfold Forwarding.holder
  cases hchild : s.child with
  | unborn => exact absurd hchild hborn
  | reaped => exact absurd hchild hunreaped
  | running | exited => rfl

/-- The next kill hits exactly when the child is not reaped yet. -/
theorem onlyHits_kill_iff (hhits : s.OnlyHits) : s.kill.OnlyHits ↔ s.holder = .child := by
  unfold Forwarding.OnlyHits Forwarding.kill
  dsimp only
  rw [List.forall_mem_cons]
  exact ⟨And.left, fun h => ⟨h, hhits⟩⟩

theorem holder_of_reaped (hchild : s.child = .reaped) : s.holder ≠ .child := by
  unfold Forwarding.holder
  rw [hchild]
  dsimp only
  split
  · exact fun h => by cases h
  · exact fun h => by cases h

/-- **One step beside the calls.** -/
theorem Forwarding.Sound.around (hs : s.Sound) (h : Around s t) (htimely : s.Timely t) :
    t.Sound := by
  have hbeside := Beside.of_around h
  have hborn : t.thread ≠ .absent → t.child ≠ .unborn := by
    intro ht
    exact hbeside.born (hs.born fun habsent => ht (hbeside.absent habsent))
  cases h with
  | edit | arrive | reuse | release => exact ⟨hs.born, hs.unreaped, hs.hits⟩
  | look hthread =>
      refine ⟨hborn, fun signal htaken => ?_, hs.hits⟩
      dsimp only at htaken
      split at htaken
      · cases htaken
      · cases htaken
  | take hthread =>
      refine ⟨hborn, fun signal htaken hchild => ?_, hs.hits⟩
      exact htimely.take hchild signal hthread htaken
  | nothing =>
      refine ⟨hborn, fun signal htaken => ?_, hs.hits⟩
      cases htaken
  | @kill signal hthread =>
      refine ⟨hborn, fun signal htaken => ?_, ?_⟩
      · cases htaken
      · exact (onlyHits_kill_iff hs.hits).mpr (hs.holder hthread)
  | exit =>
      refine ⟨hborn, fun signal _ h => ?_, hs.hits⟩
      cases h

/-- A step that leads to no signal held for a reaped child meets the condition. -/
theorem timely_of_step {c c' : Prog RunOp RunOp.Reply α × Forwarding}
    (hstep : ForwarderStep env allowed c c')
    (hmiss : ∀ signal, c'.2.thread = .taken signal → c'.2.child ≠ .reaped) :
    c.2.Timely c'.2 := by
  cases hstep with
  | @call op next r s t hmay =>
      obtain ⟨_, launcher, _, rfl⟩ := hmay
      refine ⟨fun _ signal hpolling htaken => ?_, fun signal hheld hunreaped hreaped => ?_⟩
      · have hthread := thread_after htaken
        rw [hpolling] at hthread
        cases hthread
      · have hkept := thread_of_reaped_after (s := { s with launcher := launcher })
          hunreaped hreaped
        exact hmiss signal (hkept.trans hheld) hreaped
  | around haround =>
      refine ⟨fun hchild signal hpolling htaken => ?_, fun signal hheld hunreaped hreaped => ?_⟩
      · cases haround with
        | take => exact hmiss signal htaken hchild
        | edit | arrive | exit | reuse | release => rw [hpolling] at htaken; cases htaken
        | look hthread | kill hthread => rw [hpolling] at hthread; cases hthread
        | nothing => cases htaken
      · cases haround with
        | exit => cases hreaped
        | edit | arrive | look | take | nothing | kill | reuse | release =>
            exact hunreaped hreaped

/-- **One call.** -/
theorem Forwarding.Sound.call {op : RunOp} {r : op.Reply} (hs : s.Sound)
    (hmay : (forwarding env allowed).may op s r t) (htimely : s.Timely t)
    (hborn : t.thread ≠ .absent → t.child ≠ .unborn) : t.Sound := by
  obtain ⟨_, launcher, _, rfl⟩ := hmay
  refine ⟨hborn, fun signal htaken => ?_, ?_⟩
  · have hheld := thread_after htaken
    exact htimely.reap signal hheld (hs.unreaped signal hheld)
  · unfold OnlyHits
    rw [kills_after]
    exact hs.hits

/-- What is known of a configuration: its state is sound, and the calls that are left
start no thread without a child. -/
def Steady (env : Env) (allowed : Oracle → Prop)
    (c : Prog RunOp RunOp.Reply (Except Abort Int) × Forwarding) : Prop :=
  c.2.Sound ∧ ∃ before : Forwarding, before.Beside c.2 ∧
    (forwarding env allowed).Holds Beside Born c.1 (fun _ _ => True) before

theorem Steady.step {c c' : Prog RunOp RunOp.Reply (Except Abort Int) × Forwarding}
    (h : Steady env allowed c) (hstep : TimelyStep env allowed c c') : Steady env allowed c' := by
  obtain ⟨hsound, before, hbeside, hholds⟩ := h
  obtain ⟨hstep, htimely⟩ := hstep
  cases hstep with
  | call hmay =>
      obtain ⟨hborn, hrest⟩ := hholds _ hbeside _ _ hmay
      exact ⟨hsound.call hmay htimely hborn, _, .refl _, hrest⟩
  | around haround =>
      exact ⟨hsound.around haround htimely, before, hbeside.trans (.of_around haround), hholds⟩

/-- **Forwarded signals hit the child** in every run in which no signal is taken after
the child has been reaped and the child is not reaped while one is held.  After the
first step that is otherwise, the next kill misses. -/
theorem forwarded_signals_hit {executable : String} {arguments : List String} {w : World}
    {c : Prog RunOp RunOp.Reply (Except Abort Int) × Forwarding}
    (h : Relation.ReflTransGen (TimelyStep env allowed)
      ((runProgram lib env store username password executable arguments).run, Forwarding.start w)
      c) :
    c.2.OnlyHits ∧ ∀ c', ForwarderStep env allowed c c' →
      (c.2.Timely c'.2 ↔ ∀ signal, c'.2.thread = .taken signal → c'.2.kill.OnlyHits) := by
  have hsteady : Steady env allowed c := by
    induction h with
    | refl =>
        have habsent : (Forwarding.start w).thread = .absent := rfl
        refine ⟨⟨fun h => absurd rfl h, fun signal h => ?_, fun target h => ?_⟩, _, .refl _, ?_⟩
        · cases h
        · cases h
        · exact holds_mono (runProgram_born habsent) fun _ _ _ => trivial
    | tail _ hstep ih => exact ih.step hstep
  refine ⟨hsteady.1.hits, fun c' hstep => ⟨fun htimely signal htaken => ?_, fun hnext => ?_⟩⟩
  · have hsound := (hsteady.step ⟨hstep, htimely⟩).1
    exact (onlyHits_kill_iff hsound.hits).mpr (hsound.holder htaken)
  · have hmiss : ∀ signal, c'.2.thread = .taken signal → c'.2.child ≠ .reaped := by
      intro signal htaken hreaped
      exact holder_of_reaped hreaped (hnext signal htaken _ List.mem_cons_self)
    exact timely_of_step hstep hmiss

end

/-! ## A signal between `wait` and `stop` -/

/-- The call can return now. -/
def Forwarding.ready : RunOp → Forwarding → Bool
  | .wait, s => decide (s.child = .exited)
  | .joinForwarding, s => decide (s.thread = .finished)
  | _, _ => true

/-- So many calls of a run, as far as they can return, with the answers of
`launcherPlaying`. -/
def callsOf {α : Type} (env : Env) (oracles : Nat → Oracle) :
    Nat → Nat → Prog RunOp RunOp.Reply α × Forwarding → Prog RunOp RunOp.Reply α × Forwarding
  | 0, _, c => c
  | _ + 1, _, (.ret a, s) => (.ret a, s)
  | calls + 1, n, (.call op next, s) =>
      if s.ready op = true then
        let out := launcherPlaying env oracles (fun _ => false) n op s.launcher
        callsOf env oracles calls (n + 1)
          (next out.1, ({ s with launcher := out.2 } : Forwarding).after op out.1)
      else (.call op next, s)

theorem canReply_of_ready {s : Forwarding} {op : RunOp} (r : op.Reply) (h : s.ready op = true) :
    s.CanReply op r := by
  cases op with
  | wait =>
      cases r with
      | error e => exact trivial
      | ok status =>
          have hexited : s.child = .exited := of_decide_eq_true h
          exact hexited
  | joinForwarding =>
      have hfinished : s.thread = .finished := of_decide_eq_true h
      exact hfinished
  | store _ | spawn _ | openSignals | register _ | startForwarding | kill | closeSignals =>
      exact trivial

/-- The thread holds no signal and looks for none. -/
def Forwarding.Idle (s : Forwarding) : Prop := s.thread = .absent ∨ s.thread = .looping

theorem Forwarding.Idle.timely {s t : Forwarding} (h : s.Idle) : s.Timely t := by
  constructor
  · intro _ signal hpolling
    rcases h with h | h
    · rw [hpolling] at h
      cases h
    · rw [hpolling] at h
      cases h
  · intro signal hheld
    rcases h with h | h
    · rw [hheld] at h
      cases h
    · rw [hheld] at h
      cases h

theorem Forwarding.Idle.after {s : Forwarding} (h : s.Idle) (op : RunOp) (r : op.Reply) :
    (s.after op r).Idle := by
  cases op with
  | spawn _ | wait => cases r <;> exact h
  | startForwarding =>
      cases r with
      | false => exact h
      | true => exact .inr rfl
  | store _ | openSignals | register _ | kill | closeSignals | joinForwarding => exact h

theorem timely_of_unreaped {s t : Forwarding} (hs : s.child ≠ .reaped) (ht : t.child ≠ .reaped) :
    s.Timely t :=
  ⟨fun hreaped => absurd hreaped hs, fun _ _ _ => ht⟩

/-- Calls beside a thread that is about to look at its handle, or not started. -/
theorem steps_callsOf {α : Type} {env : Env} {oracles : Nat → Oracle}
    (htransfer : ∀ n, (oracles n).transfer = none) (calls n : Nat)
    (c : Prog RunOp RunOp.Reply α × Forwarding) (hidle : c.2.Idle) :
    Relation.ReflTransGen (TimelyStep env fun _ => True) c (callsOf env oracles calls n c) := by
  induction calls generalizing n c with
  | zero => exact .refl
  | succ calls ih =>
      obtain ⟨p, s⟩ := c
      cases p with
      | ret a => exact .refl
      | call op next =>
          unfold callsOf
          split
          · next hready =>
              have hmay : (launching env fun _ => True).may op s.launcher
                  (launcherPlaying env oracles (fun _ => false) n op s.launcher).1
                  (launcherPlaying env oracles (fun _ => false) n op s.launcher).2 :=
                may_launcherPlaying (fun _ _ => trivial) htransfer n op s.launcher
              have hlaunched : ({ s with launcher :=
                  (launcherPlaying env oracles (fun _ => false) n op s.launcher).2 } :
                  Forwarding).Idle := hidle
              refine .head ⟨.call ⟨canReply_of_ready _ hready, _, hmay, rfl⟩, ?_⟩ (ih _ _ ?_)
              · exact Forwarding.Idle.timely hidle
              · exact hlaunched.after op _
          · exact .refl

/-! ## An unlock that succeeds -/

/-- The sealed stream of an empty archive. -/
def sampleState : Bytes :=
  (sealStream taggingAead.toAead (some (FixedBytes.replicate 12 0)) ([] : Bytes) sampleKey
    [Tar.trailer] none).2

/-- The reader that `unseal_directory` opens on it. -/
def sampleReading : VaultReader Bytes where
  inner := sampleState.drop 20
  cipher := sampleKey
  nonceSeed := FixedBytes.replicate 12 0
  plaintext := []
  plaintextOffset := 0
  sequence := 0
  finalized := false

/-- Some run of the program succeeds. -/
def Succeeds {α : Type} (p : Io α) (w : World) : Prop :=
  ∃ a w', (machine sampleEnv fun _ => True).Runs p.run w (.ok a) w'

section

variable {α β : Type} {p : Io α} {f : α → Io β} {w t : World} {a : α}

theorem runs_played
    (h : (p.run.execute (playing sampleEnv (sampleOracle 77)) 0 w).1 = .ok a) :
    (machine sampleEnv fun _ => True).Runs p.run w (.ok a)
      (p.run.execute (playing sampleEnv (sampleOracle 77)) 0 w).2 := by
  rw [← h]
  exact Contract.runs_execute (may_playing (fun _ _ => trivial) fun _ => rfl) 0 p.run w

theorem succeeds_bind (hp : (machine sampleEnv fun _ => True).Runs p.run w (.ok a) t)
    (hf : Succeeds (f a) t) : Succeeds (p >>= f) w := by
  obtain ⟨b, w', hrun⟩ := hf
  exact ⟨b, w', runs_ok_bind.mpr ⟨a, t, hp, hrun⟩⟩

theorem succeeds_pure (hp : Succeeds p w) (g : α → β) :
    Succeeds (p >>= fun a => pure (g a)) w := by
  obtain ⟨a, t, hrun⟩ := hp
  exact succeeds_bind hrun ⟨g a, t, rfl, rfl⟩

theorem succeeds_onError {cleanup : Prog Op Op.Reply Unit} (hp : Succeeds p w) :
    Succeeds (Prog.onError p cleanup) w := by
  obtain ⟨a, w', hrun⟩ := hp
  exact ⟨a, w', runs_onError_ok.mpr hrun⟩

end

theorem succeeds_unsealFrom (destination : FsPath) (w : World) :
    Succeeds (unsealFrom (sampleLibraries emptyTar) sampleState destination sampleKey) w := by
  have hbytes : sampleState = fileHeader (FixedBytes.replicate 12 0) ++ sampleState.drop 20 := by
    decide +kernel
  have hnew : VaultReader.new sampleState sampleKey = .ok sampleReading := by
    rw [hbytes]
    exact VaultReader.new_fileHeader _ _ _
  have hverify : VaultReader.verifyFinished taggingAead.toAead sampleReading = .ok () :=
    VaultReader.verifyFinished_of_good (by decide +kernel)
  unfold unsealFrom
  rw [hnew]
  refine succeeds_bind ⟨rfl, rfl⟩ ⟨(), w, ?_⟩
  exact runs_ofExcept.mpr ⟨hverify.symm, rfl⟩

/-- The sample profile with an empty archive is unlocked. -/
theorem succeeds_sampleUnlock :
    Succeeds (sampleStore.unlock (sampleLibraries emptyTar) sampleEnv "alice" samplePassword)
      (sampleWorld sampleState).begin := by
  refine succeeds_bind (runs_played (a := ()) (by decide +kernel)) ?_
  refine succeeds_bind (runs_played (a := ⟨sampleEnv.process, 0⟩) (by decide +kernel)) ?_
  apply succeeds_onError
  refine succeeds_bind (runs_played
    (a := sampleManifest emptyTar samplePassword (FixedBytes.replicate 16 0))
    (by decide +kernel)) ?_
  refine succeeds_bind (runs_played (a := ()) (by decide +kernel)) ?_
  refine succeeds_bind (runs_played (a := sampleKey) (by decide +kernel)) ?_
  refine succeeds_bind (runs_played (a := ["run"]) (by decide +kernel)) ?_
  refine succeeds_bind (runs_played (a := (sampleHeader emptyTar (FixedBytes.replicate 16 0)).id)
    (by decide +kernel)) ?_
  refine succeeds_bind (runs_played (a := ()) (by decide +kernel)) ?_
  refine succeeds_pure (succeeds_onError ?_) _
  unfold VaultStore.fillRuntime
  refine succeeds_bind (runs_played (a := ()) (by decide +kernel)) ?_
  unfold unsealDirectory
  refine succeeds_bind (runs_played (a := ⟨true, false, sampleState.length, 1000, 0o600⟩)
    (by decide +kernel)) ?_
  refine succeeds_bind (runs_played (a := (sampleState, none)) (by decide +kernel)) ?_
  exact succeeds_unsealFrom _ _

/-! ## A signal between `wait` and `stop` -/

theorem run_storeCall_bind {α β : Type} (p : Io α) (f : α → Launch β) :
    (storeCall p >>= f).run = ofStore p.run >>= fun r =>
      match r with
      | .ok a => (f a).run
      | .error e => pure (.error (.error e)) := by
  rw [ExceptT.run_bind, storeCall, Prog.mapError, ExceptT.run_mk, bind_assoc]
  refine bind_congr fun r => ?_
  cases r with
  | ok a => rfl
  | error e => rfl

/-- The calls of the store in a run. -/
theorem steps_ofStore {α β : Type} {env : Env} {s : Forwarding} {p : Prog Op Op.Reply α} {a : α}
    {w : World} (next : α → Prog RunOp RunOp.Reply β) (hidle : s.Idle)
    (hrun : (machine env fun _ => True).Runs p s.launcher.world a w) :
    Relation.ReflTransGen (TimelyStep env fun _ => True) (ofStore p >>= next, s)
      (next a, { s with launcher := { s.launcher with world := w } }) := by
  induction p generalizing s with
  | ret b =>
      obtain ⟨rfl, rfl⟩ := hrun
      exact .refl
  | call op rest ih =>
      obtain ⟨r, w1, hmay, hrun⟩ := hrun
      have hstep : TimelyStep env (fun _ => True) (ofStore (.call op rest) >>= next, s)
          (ofStore (rest r) >>= next,
            { s with launcher := { s.launcher with world := w1 } }) :=
        ⟨.call ⟨trivial, _, ⟨w1, hmay, rfl⟩, rfl⟩, hidle.timely⟩
      exact .head hstep
        (ih r (s := { s with launcher := { s.launcher with world := w1 } }) hidle hrun)

/-- A run on the sample profile. -/
abbrev sampleStart : Prog RunOp RunOp.Reply (Except Abort Int) × Forwarding :=
  ((runProgram (sampleLibraries emptyTar) sampleEnv sampleStore "alice" samplePassword "codex"
    []).run, .start (sampleWorld sampleState))

/-- The vault is open. -/
def sampleOpened (w : World) : Forwarding :=
  { Forwarding.start (sampleWorld sampleState) with
    launcher := { Launcher.start (sampleWorld sampleState) with world := w } }

/-- The child runs, the thread has been started, and `wait` is next. -/
def sampleWaiting (vault : UnlockedVault) (w : World) :
    Prog RunOp RunOp.Reply (Except Abort Int) × Forwarding :=
  callsOf sampleEnv (sampleOracle 77) 6 0
    ((runUnlocked (sampleLibraries emptyTar) vault "codex" []).run, sampleOpened w)

theorem steps_sampleWaiting : ∃ vault w,
    Relation.ReflTransGen (TimelyStep sampleEnv fun _ => True) sampleStart
      (sampleWaiting vault w) := by
  obtain ⟨vault, w, hunlock⟩ := succeeds_sampleUnlock
  have hidle : (Forwarding.start (sampleWorld sampleState)).Idle := .inl rfl
  have hfirst : Relation.ReflTransGen (TimelyStep sampleEnv fun _ => True) sampleStart
      ((runUnlocked (sampleLibraries emptyTar) vault "codex" []).run, sampleOpened w) := by
    change Relation.ReflTransGen _ ((storeCall (sampleStore.unlock (sampleLibraries emptyTar)
      sampleEnv "alice" samplePassword) >>= fun vault =>
        runUnlocked (sampleLibraries emptyTar) vault "codex" []).run, _) _
    rw [run_storeCall_bind]
    exact steps_ofStore _ hidle hunlock
  have hopened : (sampleOpened w).Idle := .inl rfl
  exact ⟨vault, w, hfirst.trans (steps_callsOf (fun _ => rfl) 6 0 _ hopened)⟩

/-- The child has exited, and `wait` has returned. -/
def sampleReaped (vault : UnlockedVault) (w : World) :
    Prog RunOp RunOp.Reply (Except Abort Int) × Forwarding :=
  callsOf sampleEnv (sampleOracle 77) 1 6
    ((sampleWaiting vault w).1, { (sampleWaiting vault w).2 with child := .exited })

theorem sampleWaiting_facts (vault : UnlockedVault) (w : World) :
    (sampleWaiting vault w).2.child = .running ∧ (sampleWaiting vault w).2.thread = .looping ∧
      (sampleWaiting vault w).2.closed = false ∧
      (sampleWaiting vault w).2.launcher.handled .sigterm = true ∧
      (sampleWaiting vault w).2.kills = [] :=
  ⟨rfl, rfl, rfl, rfl, rfl⟩

theorem sampleReaped_facts (vault : UnlockedVault) (w : World) :
    (sampleReaped vault w).2.child = .reaped ∧ (sampleReaped vault w).2.thread = .looping ∧
      (sampleReaped vault w).2.closed = false ∧
      (sampleReaped vault w).2.launcher.handled .sigterm = true ∧
      (sampleReaped vault w).2.kills = [] :=
  ⟨rfl, rfl, rfl, rfl, rfl⟩

/-- The thread with a signal in its hand. -/
def Forwarding.holding (s : Forwarding) (signal : Signal) : Forwarding :=
  { s with
    thread := .taken signal
    pending := fun other => if other = signal then false else
      if other = signal then true else s.pending other }

/-- A signal arrives, and the thread looks and takes it. -/
theorem around_holding {s : Forwarding} {signal : Signal} (hthread : s.thread = .looping)
    (hclosed : s.closed = false) (hhandled : s.launcher.handled signal = true) :
    ∃ t u, Around s t ∧ Around t u ∧ Around u (s.holding signal) ∧ t.child = s.child ∧
      u.child = s.child := by
  have hlook := Around.look (s := { s with
    pending := fun other => if other = signal then true else s.pending other }) hthread
  have htake := Around.take (s := { s with
    thread := .polling
    pending := fun other => if other = signal then true else s.pending other }) rfl (if_pos rfl)
  have hopen : ¬ s.closed = true := by
    rw [hclosed]
    exact Bool.false_ne_true
  dsimp only at hlook
  rw [if_neg hopen] at hlook
  exact ⟨_, _, .arrive hhandled, hlook, htake, rfl, rfl⟩

/-- The theorem at a run in which the child gets the signal. -/
theorem forwarded_signals_hit_sample : ∃ vault w,
    ((sampleWaiting vault w).2.holding .sigterm).kill.kills = [.child] ∧
      ((sampleWaiting vault w).2.holding .sigterm).kill.OnlyHits := by
  obtain ⟨vault, w, hsteps⟩ := steps_sampleWaiting
  obtain ⟨hchild, hthread, hclosed, hhandled, hkills⟩ := sampleWaiting_facts vault w
  obtain ⟨t, u, hfirst, hsecond, hthird, ht, hu⟩ := around_holding hthread hclosed hhandled
  have halive : ∀ {s : Forwarding}, s.child = (sampleWaiting vault w).2.child →
      s.child ≠ .reaped := by
    intro s hs h
    rw [hs, hchild] at h
    cases h
  have hheld := ((hsteps.tail ⟨.around hfirst, timely_of_unreaped (halive rfl) (halive ht)⟩).tail
    ⟨.around hsecond, timely_of_unreaped (halive ht) (halive hu)⟩).tail
    ⟨.around hthird, timely_of_unreaped (halive hu) (halive rfl)⟩
  have hkill : Around ((sampleWaiting vault w).2.holding .sigterm)
    ((sampleWaiting vault w).2.holding .sigterm).kill := .kill rfl
  have hrun := hheld.tail ⟨.around hkill, timely_of_unreaped (halive rfl) (halive rfl)⟩
  exact ⟨vault, w, rfl, (forwarded_signals_hit hrun).1⟩

/-- The child has been reaped, another process has got its PID, and the thread, not
yet stopped, takes a signal. -/
theorem forwarded_signal_misses : ∃ c,
    Relation.ReflTransGen (ForwarderStep sampleEnv fun _ => True) sampleStart c ∧
      .other ∈ c.2.kills := by
  obtain ⟨vault, w, hsteps⟩ := steps_sampleWaiting
  obtain ⟨hchild, hthread, _⟩ := sampleWaiting_facts vault w
  obtain ⟨hreaped, hlooping, hclosed, hhandled, _⟩ := sampleReaped_facts vault w
  have hany : ∀ a b : Prog RunOp RunOp.Reply (Except Abort Int) × Forwarding,
      TimelyStep sampleEnv (fun _ => True) a b → ForwarderStep sampleEnv (fun _ => True) a b :=
    fun _ _ h => h.1
  have hexited : ({ (sampleWaiting vault w).2 with child := .exited } : Forwarding).Idle :=
    .inr hthread
  have hwait : Relation.ReflTransGen (TimelyStep sampleEnv fun _ => True)
      ((sampleWaiting vault w).1, { (sampleWaiting vault w).2 with child := .exited })
      (sampleReaped vault w) := steps_callsOf (fun _ => rfl) 1 6 _ hexited
  have hgone := ((Relation.ReflTransGen.mono hany _ _ hsteps).tail
    (.around (.exit hchild))).trans (Relation.ReflTransGen.mono hany _ _ hwait)
  obtain ⟨t, u, hfirst, hsecond, hthird, _, _⟩ :=
    around_holding (s := { (sampleReaped vault w).2 with reused := true }) hlooping hclosed hhandled
  have hheld := (((hgone.tail (.around (.reuse hreaped))).tail (.around hfirst)).tail
    (.around hsecond)).tail (.around hthird)
  exact ⟨_, hheld.tail (.around (.kill rfl)), List.mem_cons_self⟩

end CodexVault
