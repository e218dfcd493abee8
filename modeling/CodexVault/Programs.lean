import Mathlib.Control.Basic

/-!
# Programs that make calls

A `Prog` is a program that makes one call at a time and goes on with the reply.
What a call may do is the business of a `Contract`: a relation between a call, the
states before and after it, and its reply.

* `Runs` is what a run of a program may lead to, taken apart at each bind by
  `runs_bind`, `runs_run_bind`, `runs_ok_bind` and `runs_error_bind`;
* `runs_map_of_uses` and `runs_follow` take a run to another contract, call by call;
* `Uses` says which calls a program makes, and `runs_of_uses` what follows when
  each of them keeps a relation.

Programs that can fail are programs with an `Except` result, in `ExceptT`.
-/

namespace Programs

variable {Op : Type} {Reply : Op → Type} {σ α β ε : Type}

/-- A program with result `α` that makes calls `op` with replies `Reply op`. -/
inductive Prog (Op : Type) (Reply : Op → Type) (α : Type) where
  | ret (a : α)
  | call (op : Op) (next : Reply op → Prog Op Reply α)

namespace Prog

/-- The second program goes on where the first has ended. -/
def bind : Prog Op Reply α → (α → Prog Op Reply β) → Prog Op Reply β
  | ret a, f => f a
  | call op next, f => call op fun r => (next r).bind f

instance : Monad (Prog Op Reply) where
  pure := Prog.ret
  bind := Prog.bind

@[simp] theorem pure_bind' (a : α) (f : α → Prog Op Reply β) :
    (Pure.pure a : Prog Op Reply α) >>= f = f a := rfl

@[simp] theorem call_bind (op : Op) (next : Reply op → Prog Op Reply α)
    (f : α → Prog Op Reply β) : call op next >>= f = call op fun r => next r >>= f := rfl

instance : LawfulMonad (Prog Op Reply) := by
  refine LawfulMonad.mk' _ ?_ ?_ ?_
  · intro α p
    induction p with
    | ret a => rfl
    | call op next ih =>
        change call op (fun r => id <$> next r) = call op next
        exact congrArg (call op) (funext ih)
  · intro α β a f
    rfl
  · intro α β γ p f g
    induction p with
    | ret a => rfl
    | call op next ih =>
        change call op (fun r => next r >>= f >>= g) =
          call op fun r => next r >>= fun a => f a >>= g
        exact congrArg (call op) (funext ih)

/-- One call. -/
def perform (op : Op) : Prog Op Reply (Reply op) := call op Prog.ret

/-- The result of a program that can fail, as a value. -/
def attempt (p : ExceptT ε (Prog Op Reply) α) : ExceptT ε (Prog Op Reply) (Except ε α) :=
  ExceptT.lift p.run

/-- A program whose result is already an `Except`. -/
def fallible (p : Prog Op Reply (Except ε α)) : ExceptT ε (Prog Op Reply) α := ExceptT.mk p

/-- A failure is followed by a cleanup and reported unchanged. -/
def onError (p : ExceptT ε (Prog Op Reply) α) (cleanup : Prog Op Reply Unit) :
    ExceptT ε (Prog Op Reply) α :=
  ExceptT.mk do
    match ← p.run with
    | .ok a => pure (.ok a)
    | .error e => do
        cleanup
        pure (.error e)

/-- A failure is reported as another error. -/
def mapError {ε' : Type} (f : ε → ε') (p : ExceptT ε (Prog Op Reply) α) :
    ExceptT ε' (Prog Op Reply) α :=
  ExceptT.mk do
    match ← p.run with
    | .ok a => pure (.ok a)
    | .error e => pure (.error (f e))

/-- The run of a program on a machine that is a function, its calls numbered from
`n` on. -/
def execute (step : Nat → (op : Op) → σ → Reply op × σ) : Prog Op Reply α → Nat → σ → α × σ
  | ret a, _, s => (a, s)
  | call op next, n, s => execute step (next (step n op s).1) (n + 1) (step n op s).2

/-- What is left of the program after `calls` calls, and the state then. -/
def advance (step : Nat → (op : Op) → σ → Reply op × σ) :
    Nat → Prog Op Reply α → Nat → σ → Prog Op Reply α × σ
  | 0, p, _, s => (p, s)
  | _ + 1, ret a, _, s => (ret a, s)
  | calls + 1, call op next, n, s =>
      advance step calls (next (step n op s).1) (n + 1) (step n op s).2

end Prog

open Prog

/-- What calls may do to a state. -/
structure Contract (Op : Type) (Reply : Op → Type) (σ : Type) where
  may : (op : Op) → σ → Reply op → σ → Prop

namespace Contract

variable (C : Contract Op Reply σ)

/-- A run of the program from `s` may end with result `b` in state `s'`. -/
def Runs : Prog Op Reply α → σ → α → σ → Prop
  | .ret a, s, b, s' => b = a ∧ s' = s
  | .call op next, s, b, s' => ∃ r t, C.may op s r t ∧ Runs (next r) t b s'

/-- The program makes only calls in `P`, whatever the replies. -/
def Uses (P : Op → Prop) : Prog Op Reply α → Prop
  | .ret _ => True
  | .call op next => P op ∧ ∀ r, Uses P (next r)

variable {C}

/-! ## Runs -/

@[simp] theorem runs_pure {a b : α} {s s' : σ} :
    C.Runs (pure a) s b s' ↔ b = a ∧ s' = s := Iff.rfl

@[simp] theorem runs_perform {op : Op} {s s' : σ} {r : Reply op} :
    C.Runs (perform op) s r s' ↔ C.may op s r s' := by
  constructor
  · rintro ⟨r', t, hmay, rfl, rfl⟩
    exact hmay
  · intro hmay
    exact ⟨r, s', hmay, rfl, rfl⟩

theorem runs_bind {p : Prog Op Reply α} {f : α → Prog Op Reply β} {s s' : σ} {b : β} :
    C.Runs (p >>= f) s b s' ↔ ∃ a t, C.Runs p s a t ∧ C.Runs (f a) t b s' := by
  induction p generalizing s with
  | ret a =>
      constructor
      · intro h
        exact ⟨a, s, ⟨rfl, rfl⟩, h⟩
      · rintro ⟨_, _, ⟨rfl, rfl⟩, h⟩
        exact h
  | call op next ih =>
      constructor
      · rintro ⟨r, t, hmay, h⟩
        obtain ⟨a, u, hp, hf⟩ := (ih r).mp h
        exact ⟨a, u, ⟨r, t, hmay, hp⟩, hf⟩
      · rintro ⟨a, u, ⟨r, t, hmay, hp⟩, hf⟩
        exact ⟨r, t, hmay, (ih r).mpr ⟨a, u, hp, hf⟩⟩

@[simp] theorem runs_run_pure {a : α} {r : Except ε α} {s s' : σ} :
    C.Runs (pure a : ExceptT ε (Prog Op Reply) α).run s r s' ↔ r = .ok a ∧ s' = s := Iff.rfl

@[simp] theorem runs_run_throw {e : ε} {r : Except ε α} {s s' : σ} :
    C.Runs (throw e : ExceptT ε (Prog Op Reply) α).run s r s' ↔ r = .error e ∧ s' = s := Iff.rfl

/-- A bind ends where its first part fails, or as its second part ends. -/
theorem runs_run_bind {p : ExceptT ε (Prog Op Reply) α} {f : α → ExceptT ε (Prog Op Reply) β}
    {s s' : σ} {r : Except ε β} :
    C.Runs (p >>= f).run s r s' ↔
      (∃ e, r = .error e ∧ C.Runs p.run s (.error e) s') ∨
      ∃ a t, C.Runs p.run s (.ok a) t ∧ C.Runs (f a).run t r s' := by
  rw [ExceptT.run_bind, runs_bind]
  constructor
  · rintro ⟨e | a, t, hp, hf⟩
    · obtain ⟨rfl, rfl⟩ := hf
      exact .inl ⟨e, rfl, hp⟩
    · exact .inr ⟨a, t, hp, hf⟩
  · rintro (⟨e, rfl, hp⟩ | ⟨a, t, hp, hf⟩)
    · exact ⟨.error e, s', hp, rfl, rfl⟩
    · exact ⟨.ok a, t, hp, hf⟩

/-- A bind succeeds when both parts do. -/
theorem runs_ok_bind {p : ExceptT ε (Prog Op Reply) α} {f : α → ExceptT ε (Prog Op Reply) β}
    {s s' : σ} {b : β} :
    C.Runs (p >>= f).run s (.ok b) s' ↔
      ∃ a t, C.Runs p.run s (.ok a) t ∧ C.Runs (f a).run t (.ok b) s' := by
  rw [runs_run_bind]
  constructor
  · rintro (⟨e, he, _⟩ | h)
    · cases he
    · exact h
  · exact .inr

/-- A bind fails when one of its parts does. -/
theorem runs_error_bind {p : ExceptT ε (Prog Op Reply) α}
    {f : α → ExceptT ε (Prog Op Reply) β} {s s' : σ} {e : ε} :
    C.Runs (p >>= f).run s (.error e) s' ↔
      C.Runs p.run s (.error e) s' ∨
      ∃ a t, C.Runs p.run s (.ok a) t ∧ C.Runs (f a).run t (.error e) s' := by
  rw [runs_run_bind]
  constructor
  · rintro (⟨_, he, hp⟩ | h)
    · cases he
      exact .inl hp
    · exact .inr h
  · rintro (hp | h)
    · exact .inl ⟨e, rfl, hp⟩
    · exact .inr h

@[simp] theorem runs_fallible {p : Prog Op Reply (Except ε α)} {s s' : σ} {r : Except ε α} :
    C.Runs (fallible p).run s r s' ↔ C.Runs p s r s' := Iff.rfl

/-- A program that cannot fail succeeds with its result. -/
theorem runs_lift {p : Prog Op Reply α} {s s' : σ} {r : Except ε α} :
    C.Runs (ExceptT.lift p : ExceptT ε (Prog Op Reply) α).run s r s' ↔
      ∃ a, r = .ok a ∧ C.Runs p s a s' := by
  rw [ExceptT.run_lift, ← bind_pure_comp, runs_bind]
  constructor
  · rintro ⟨a, t, hp, rfl, rfl⟩
    exact ⟨a, rfl, hp⟩
  · rintro ⟨a, rfl, hp⟩
    exact ⟨a, s', hp, rfl, rfl⟩

/-- An attempt always succeeds, with the result as its value. -/
theorem runs_attempt {p : ExceptT ε (Prog Op Reply) α} {s s' : σ}
    {r : Except ε (Except ε α)} :
    C.Runs (attempt p).run s r s' ↔ ∃ a, r = .ok a ∧ C.Runs p.run s a s' :=
  runs_lift

theorem runs_attempt_bind {p : ExceptT ε (Prog Op Reply) α}
    {f : Except ε α → ExceptT ε (Prog Op Reply) β} {s s' : σ} {r : Except ε β} :
    C.Runs (attempt p >>= f).run s r s' ↔ ∃ a t, C.Runs p.run s a t ∧ C.Runs (f a).run t r s' := by
  rw [runs_run_bind]
  constructor
  · rintro (⟨e, _, hp⟩ | ⟨a, t, hp, hf⟩)
    · obtain ⟨_, heq, _⟩ := runs_attempt.mp hp
      cases heq
    · obtain ⟨_, heq, hp⟩ := runs_attempt.mp hp
      cases heq
      exact ⟨a, t, hp, hf⟩
  · rintro ⟨a, t, hp, hf⟩
    exact .inr ⟨a, t, runs_attempt.mpr ⟨a, rfl, hp⟩, hf⟩

theorem runs_onError_ok {p : ExceptT ε (Prog Op Reply) α} {cleanup : Prog Op Reply Unit}
    {s s' : σ} {a : α} :
    C.Runs (onError p cleanup).run s (.ok a) s' ↔ C.Runs p.run s (.ok a) s' := by
  rw [onError, ExceptT.run_mk, runs_bind]
  constructor
  · rintro ⟨b | b, t, hp, hf⟩
    · obtain ⟨_, _, _, h, _⟩ := runs_bind.mp hf
      cases h
    · obtain ⟨h, rfl⟩ := hf
      cases h
      exact hp
  · intro hp
    exact ⟨.ok a, s', hp, rfl, rfl⟩

theorem runs_onError_error {p : ExceptT ε (Prog Op Reply) α} {cleanup : Prog Op Reply Unit}
    {s s' : σ} {e : ε} :
    C.Runs (onError p cleanup).run s (.error e) s' ↔
      ∃ t, C.Runs p.run s (.error e) t ∧ C.Runs cleanup t () s' := by
  rw [onError, ExceptT.run_mk, runs_bind]
  constructor
  · rintro ⟨b | b, t, hp, hf⟩
    · obtain ⟨_, _, hc, h, rfl⟩ := runs_bind.mp hf
      cases h
      exact ⟨t, hp, hc⟩
    · cases hf.1
  · rintro ⟨t, hp, hc⟩
    exact ⟨.error e, t, hp, runs_bind.mpr ⟨(), s', hc, rfl, rfl⟩⟩

theorem runs_mapError_ok {ε' : Type} {f : ε → ε'} {p : ExceptT ε (Prog Op Reply) α} {s s' : σ}
    {a : α} : C.Runs (mapError f p).run s (.ok a) s' ↔ C.Runs p.run s (.ok a) s' := by
  rw [mapError, ExceptT.run_mk, runs_bind]
  constructor
  · rintro ⟨b | b, t, hp, hf⟩
    · cases hf.1
    · obtain ⟨h, rfl⟩ := hf
      cases h
      exact hp
  · intro hp
    exact ⟨.ok a, s', hp, rfl, rfl⟩

theorem runs_mapError_error {ε' : Type} {f : ε → ε'} {p : ExceptT ε (Prog Op Reply) α}
    {s s' : σ} {e' : ε'} :
    C.Runs (mapError f p).run s (.error e') s' ↔
      ∃ e, f e = e' ∧ C.Runs p.run s (.error e) s' := by
  rw [mapError, ExceptT.run_mk, runs_bind]
  constructor
  · rintro ⟨b | b, t, hp, hf⟩
    · obtain ⟨h, rfl⟩ := hf
      cases h
      exact ⟨b, rfl, hp⟩
    · cases hf.1
  · rintro ⟨e, rfl, hp⟩
    exact ⟨.error e, s', hp, rfl, rfl⟩

/-- A machine that is a function within the contract makes a run of it. -/
theorem runs_execute {step : Nat → (op : Op) → σ → Reply op × σ}
    (hstep : ∀ n op s, C.may op s (step n op s).1 (step n op s).2) (n : Nat)
    (p : Prog Op Reply α) (s : σ) :
    C.Runs p s (p.execute step n s).1 (p.execute step n s).2 := by
  induction p generalizing n s with
  | ret a => exact ⟨rfl, rfl⟩
  | call op next ih => exact ⟨_, _, hstep n op s, ih _ (n + 1) _⟩

/-- A run is a run of any contract that allows what its calls do, on the image of
its states. -/
theorem runs_map {δ : Type} {D : Contract Op Reply δ} (f : δ → σ)
    (hmay : ∀ op d r d', D.may op d r d' → C.may op (f d) r (f d')) {p : Prog Op Reply α} {a : α}
    {d d' : δ} (hrun : D.Runs p d a d') : C.Runs p (f d) a (f d') := by
  induction p generalizing d with
  | ret b =>
      obtain ⟨rfl, rfl⟩ := hrun
      exact ⟨rfl, rfl⟩
  | call op next ih =>
      obtain ⟨r, t, hfirst, hrest⟩ := hrun
      exact ⟨r, f t, hmay op d r t hfirst, ih r hrest⟩

/-- The same for the calls a program makes. -/
theorem runs_map_of_uses {δ : Type} {D : Contract Op Reply δ} {P : Op → Prop} (f : δ → σ)
    (hmay : ∀ op d r d', P op → D.may op d r d' → C.may op (f d) r (f d'))
    {p : Prog Op Reply α} {a : α} (hp : Uses P p) {d d' : δ} (hrun : D.Runs p d a d') :
    C.Runs p (f d) a (f d') := by
  induction p generalizing d with
  | ret b =>
      obtain ⟨rfl, rfl⟩ := hrun
      exact ⟨rfl, rfl⟩
  | call op next ih =>
      obtain ⟨r, t, hfirst, hrest⟩ := hrun
      exact ⟨r, f t, hmay op d r t hp.1 hfirst, ih r (hp.2 r) hrest⟩

/-- A run can be followed by a contract whose calls can follow its calls. -/
theorem runs_follow {δ : Type} {D : Contract Op Reply δ} (f : δ → σ)
    (hmay : ∀ op d r s', C.may op (f d) r s' → ∃ d', D.may op d r d' ∧ f d' = s')
    {p : Prog Op Reply α} {a : α} {d : δ} {s' : σ} (hrun : C.Runs p (f d) a s') :
    ∃ d', D.Runs p d a d' ∧ f d' = s' := by
  induction p generalizing d with
  | ret b =>
      obtain ⟨rfl, rfl⟩ := hrun
      exact ⟨d, ⟨rfl, rfl⟩, rfl⟩
  | call op next ih =>
      obtain ⟨r, t, hfirst, hrest⟩ := hrun
      obtain ⟨d1, hd1, rfl⟩ := hmay op d r t hfirst
      obtain ⟨d', hd', rfl⟩ := ih r hrest
      exact ⟨d', ⟨r, d1, hd1, hd'⟩, rfl⟩

/-! ## Which calls a program makes -/

theorem uses_perform {P : Op → Prop} {op : Op} (h : P op) :
    Uses P (perform op : Prog Op Reply (Reply op)) := ⟨h, fun _ => trivial⟩

theorem uses_bind {P : Op → Prop} {p : Prog Op Reply α} {f : α → Prog Op Reply β}
    (hp : Uses P p) (hf : ∀ a, Uses P (f a)) : Uses P (p >>= f) := by
  induction p with
  | ret a => exact hf a
  | call op next ih => exact ⟨hp.1, fun r => ih r (hp.2 r)⟩

theorem uses_run_bind {P : Op → Prop} {p : ExceptT ε (Prog Op Reply) α}
    {f : α → ExceptT ε (Prog Op Reply) β} (hp : Uses P p.run) (hf : ∀ a, Uses P (f a).run) :
    Uses P (p >>= f).run := by
  rw [ExceptT.run_bind]
  apply uses_bind hp
  rintro (e | a)
  · exact trivial
  · exact hf a

theorem uses_run_pure {P : Op → Prop} {a : α} :
    Uses P (pure a : ExceptT ε (Prog Op Reply) α).run := trivial

theorem uses_run_throw {P : Op → Prop} {e : ε} :
    Uses P (throw e : ExceptT ε (Prog Op Reply) α).run := trivial

theorem uses_lift {P : Op → Prop} {p : Prog Op Reply α} (hp : Uses P p) :
    Uses P (ExceptT.lift p : ExceptT ε (Prog Op Reply) α).run := by
  rw [ExceptT.run_lift, ← bind_pure_comp]
  exact uses_bind hp fun _ => trivial

theorem uses_attempt {P : Op → Prop} {p : ExceptT ε (Prog Op Reply) α} (hp : Uses P p.run) :
    Uses P (attempt p).run :=
  uses_lift hp

theorem uses_onError {P : Op → Prop} {p : ExceptT ε (Prog Op Reply) α}
    {cleanup : Prog Op Reply Unit} (hp : Uses P p.run) (hc : Uses P cleanup) :
    Uses P (onError p cleanup).run := by
  apply uses_bind hp
  rintro (e | a)
  · exact uses_bind hc fun _ => trivial
  · exact trivial

theorem uses_mapError {ε' : Type} {P : Op → Prop} {f : ε → ε'}
    {p : ExceptT ε (Prog Op Reply) α} (hp : Uses P p.run) : Uses P (mapError f p).run := by
  apply uses_bind hp
  rintro (e | a)
  · exact trivial
  · exact trivial

theorem uses_any {p : Prog Op Reply α} : Uses (fun _ => True) p := by
  induction p with
  | ret a => trivial
  | call op next ih => exact ⟨trivial, ih⟩

theorem Uses.mono {P P' : Op → Prop} {p : Prog Op Reply α} (h : Uses P p)
    (himp : ∀ op, P op → P' op) : Uses P' p := by
  induction p with
  | ret a => trivial
  | call op next ih => exact ⟨himp op h.1, fun r => ih r (h.2 r)⟩

/-- **Frame rule.**  A relation that each of the calls keeps is kept by a run. -/
theorem runs_of_uses {P : Op → Prop} {R : σ → σ → Prop} (hrefl : ∀ s, R s s)
    (htrans : ∀ {s t u}, R s t → R t u → R s u)
    (hstep : ∀ op s r t, P op → C.may op s r t → R s t) {p : Prog Op Reply α} (hp : Uses P p)
    {s s' : σ} {a : α} (hrun : C.Runs p s a s') : R s s' := by
  induction p generalizing s with
  | ret b =>
      obtain ⟨_, rfl⟩ := hrun
      exact hrefl _
  | call op next ih =>
      obtain ⟨r, t, hmay, hrest⟩ := hrun
      exact htrans (hstep op s r t hp.1 hmay) (ih r (hp.2 r) hrest)

/-! ## Which errors a program reports -/

/-- Every error a run of the program can end with is in `E`. -/
def Reports (C : Contract Op Reply σ) (E : ε → Prop) (p : ExceptT ε (Prog Op Reply) α) : Prop :=
  ∀ s s' e, C.Runs p.run s (.error e) s' → E e

section

variable {E : ε → Prop} {p : ExceptT ε (Prog Op Reply) α}

theorem reports_pure {a : α} : C.Reports E (pure a) := by
  intro s s' e h
  cases (runs_run_pure.mp h).1

theorem reports_throw {e : ε} (h : E e) :
    C.Reports E (throw e : ExceptT ε (Prog Op Reply) α) := by
  intro s s' e' hrun
  cases (runs_run_throw.mp hrun).1
  exact h

theorem reports_bind {f : α → ExceptT ε (Prog Op Reply) β} (hp : C.Reports E p)
    (hf : ∀ a, C.Reports E (f a)) : C.Reports E (p >>= f) := by
  intro s s' e h
  rcases runs_error_bind.mp h with hfirst | ⟨a, t, _, hrest⟩
  · exact hp s s' e hfirst
  · exact hf a t s' e hrest

theorem reports_lift {p : Prog Op Reply α} : C.Reports E (ExceptT.lift p) := by
  intro s s' e h
  obtain ⟨a, heq, _⟩ := runs_lift.mp h
  cases heq

/-- An attempt goes on with an error the program reports. -/
theorem reports_attempt_bind {f : Except ε α → ExceptT ε (Prog Op Reply) β}
    (hp : C.Reports E p) (hf : ∀ r, (∀ e, r = .error e → E e) → C.Reports E (f r)) :
    C.Reports E (attempt p >>= f) := by
  intro s s' e h
  obtain ⟨r, t, hfirst, hrest⟩ := runs_attempt_bind.mp h
  refine hf r ?_ t s' e hrest
  rintro e' rfl
  exact hp s t e' hfirst

theorem reports_onError {cleanup : Prog Op Reply Unit} (hp : C.Reports E p) :
    C.Reports E (onError p cleanup) := by
  intro s s' e h
  obtain ⟨t, hfail, _⟩ := runs_onError_error.mp h
  exact hp s t e hfail

theorem reports_mapError {ε' : Type} {E : ε' → Prop} {f : ε → ε'} (h : ∀ e, E (f e)) :
    C.Reports E (mapError f p) := by
  intro s s' e' hrun
  obtain ⟨e, rfl, _⟩ := runs_mapError_error.mp hrun
  exact h e

end

end Contract

end Programs
