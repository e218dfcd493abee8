import CodexVault.Interference
import Mathlib.Logic.Function.Basic

/-!
# Programs side by side

The members of a `Pool` share a state.  At each step one of them makes a call, goes
on with another program once its own has ended, or is lost.

`Agreement` collects what makes the members compatible: an invariant of the state,
what each member relies on, and what an idle member knows.  `Sound` is kept by every
step (`Sound.steps`), and by anybody else who keeps to the invariant and to what the
members rely on (`Sound.moved`).  Such an onlooker runs among the others:
`Contract.RunsAmong`, with `Sound.among` as its rule.
-/

namespace Programs

open Contract

variable {Op : Type} {Reply : Op → Type} {ι σ α : Type}

/-- The members: the calls of each, the programs with which it may go on, and what it
leaves behind when it is lost. -/
structure Members (ι : Type) (Op : Type) (Reply : Op → Type) (σ α : Type) where
  contract : ι → Contract Op Reply σ
  again : ι → α → Prog Op Reply α → Prop
  crash : ι → σ → σ → Prop
  /-- What a member has that was lost. -/
  lost : α

/-- Programs that share a state. -/
structure Pool (ι : Type) (Op : Type) (Reply : Op → Type) (σ α : Type) where
  state : σ
  program : ι → Prog Op Reply α

namespace Pool

/-- One step of one member. -/
inductive Step [DecidableEq ι] (M : Members ι Op Reply σ α) :
    Pool ι Op Reply σ α → Pool ι Op Reply σ α → Prop
  | call {i : ι} {op : Op} {next : Reply op → Prog Op Reply α} {r : Reply op} {s t : σ}
      {program : ι → Prog Op Reply α} (hat : program i = .call op next)
      (hmay : (M.contract i).may op s r t) :
      Step M ⟨s, program⟩ ⟨t, Function.update program i (next r)⟩
  | again {i : ι} {a : α} {q : Prog Op Reply α} {s : σ} {program : ι → Prog Op Reply α}
      (hat : program i = .ret a) (hagain : M.again i a q) :
      Step M ⟨s, program⟩ ⟨s, Function.update program i q⟩
  | crash {i : ι} {s t : σ} {program : ι → Prog Op Reply α} (hcrash : M.crash i s t) :
      Step M ⟨s, program⟩ ⟨t, Function.update program i (.ret M.lost)⟩

/-- The calls of a member whose machine is a function within its contract. -/
theorem steps_advance [DecidableEq ι] {M : Members ι Op Reply σ α} {i : ι}
    {step : Nat → (op : Op) → σ → Reply op × σ}
    (hstep : ∀ n op s, (M.contract i).may op s (step n op s).1 (step n op s).2)
    (calls n : Nat) (p : Prog Op Reply α) (s : σ) (program : ι → Prog Op Reply α) :
    Relation.ReflTransGen (Step M) ⟨s, Function.update program i p⟩
      ⟨(p.advance step calls n s).2,
        Function.update program i (p.advance step calls n s).1⟩ := by
  induction calls generalizing p n s with
  | zero => exact .refl
  | succ calls ih =>
      cases p with
      | ret a => exact .refl
      | call op next =>
          have hcall := Step.call (M := M) (Function.update_self i (.call op next) program)
            (hstep n op s)
          rw [Function.update_idem] at hcall
          exact .head hcall (ih (n + 1) _ _)

end Pool

/-! ## What the members agree on -/

/-- What a program may rely on: the others keep the invariant, and `R`. -/
def Relies (I : σ → Prop) (R : σ → σ → Prop) (s t : σ) : Prop := I s → I t ∧ R s t

/-- What a member grants: it keeps the invariant, and what each other member relies on. -/
def Grants (I : σ → Prop) (R : ι → σ → σ → Prop) (i : ι) (s t : σ) : Prop :=
  I s → I t ∧ ∀ j, j ≠ i → R j s t

/-- The members keep an invariant and respect what the others rely on. -/
structure Agreement (M : Members ι Op Reply σ α) where
  inv : σ → Prop
  relied : ι → σ → σ → Prop
  known : ι → α → σ → Prop
  refl : ∀ i s, relied i s s
  trans : ∀ {i s t u}, relied i s t → relied i t u → relied i s u
  stable : ∀ {i a s t}, known i a s → relied i s t → known i a t
  again : ∀ {i a s q}, inv s → known i a s → M.again i a q →
    (M.contract i).Holds (Relies inv (relied i)) (Grants inv relied i) q (known i) s
  crash : ∀ {i s t}, inv s → M.crash i s t →
    inv t ∧ known i M.lost t ∧ ∀ j, j ≠ i → relied j s t

namespace Agreement

variable {M : Members ι Op Reply σ α} (A : Agreement M)

/-- Every member does its part. -/
structure Sound (P : Pool ι Op Reply σ α) : Prop where
  inv : A.inv P.state
  each : ∀ i, (M.contract i).Holds (Relies A.inv (A.relied i)) (Grants A.inv A.relied i)
    (P.program i) (A.known i) P.state

variable {A}

/-- What holds of a program among others still does when they have moved. -/
theorem holds_moved {i : ι} {p : Prog Op Reply α} {s t : σ}
    (hp : (M.contract i).Holds (Relies A.inv (A.relied i)) (Grants A.inv A.relied i) p
      (A.known i) s) (ht : A.inv t) (hmoved : A.relied i s t) :
    (M.contract i).Holds (Relies A.inv (A.relied i)) (Grants A.inv A.relied i) p (A.known i) t := by
  cases p with
  | ret a => exact A.stable hp hmoved
  | call op next =>
      intro u hu r v hmay
      have hsu : Relies A.inv (A.relied i) s u := by
        intro _
        obtain ⟨hinv, hrest⟩ := hu ht
        exact ⟨hinv, A.trans hmoved hrest⟩
      exact hp u hsu r v hmay

/-- **Anybody who respects the members** leaves them sound. -/
theorem Sound.moved {P : Pool ι Op Reply σ α} {t : σ} (h : A.Sound P) (ht : A.inv t)
    (hmoved : ∀ i, A.relied i P.state t) : A.Sound { P with state := t } :=
  ⟨ht, fun i => holds_moved (h.each i) ht (hmoved i)⟩

variable [DecidableEq ι]

/-- One member takes a step, and the others are respected. -/
theorem Sound.update {s t : σ} {program : ι → Prog Op Reply α} {i : ι} {p : Prog Op Reply α}
    (h : A.Sound ⟨s, program⟩) (ht : A.inv t) (hothers : ∀ j, j ≠ i → A.relied j s t)
    (hp : (M.contract i).Holds (Relies A.inv (A.relied i)) (Grants A.inv A.relied i) p
      (A.known i) t) : A.Sound ⟨t, Function.update program i p⟩ := by
  refine ⟨ht, fun j => ?_⟩
  by_cases hj : j = i
  · subst hj
    simpa using hp
  · have hsame : Function.update program i p j = program j := Function.update_of_ne hj _ _
    simp only [hsame]
    exact holds_moved (h.each j) ht (hothers j hj)

/-- **One step.** -/
theorem Sound.step {P P' : Pool ι Op Reply σ α} (h : A.Sound P) (hstep : Pool.Step M P P') :
    A.Sound P' := by
  cases hstep with
  | @call i op next r s t program hat hmay =>
      have hp := h.each i
      simp only [hat] at hp
      have hself : Relies A.inv (A.relied i) s s := fun hs => ⟨hs, A.refl i s⟩
      obtain ⟨hgrants, hnext⟩ := hp s hself r t hmay
      obtain ⟨ht, hothers⟩ := hgrants h.inv
      exact h.update ht hothers hnext
  | @again i a q s program hat hagain =>
      have hp := h.each i
      simp only [hat] at hp
      exact h.update h.inv (fun j _ => A.refl j s) (A.again h.inv hp hagain)
  | @crash i s t program hcrash =>
      obtain ⟨ht, hlost, hothers⟩ := A.crash h.inv hcrash
      exact h.update ht hothers hlost

/-- **Every run of the pool.** -/
theorem Sound.steps {P P' : Pool ι Op Reply σ α} (h : A.Sound P)
    (hsteps : Relation.ReflTransGen (Pool.Step M) P P') : A.Sound P' := by
  induction hsteps with
  | refl => exact h
  | tail _ hstep ih => exact ih.step hstep

end Agreement

/-! ## Running among others -/

section

variable {Op' : Type} {Reply' : Op' → Type} {β : Type}

/-- The calls of somebody who is not a member. -/
def onlooker (C : Contract Op' Reply' σ) : Contract Op' Reply' (Pool ι Op Reply σ α) where
  may op P r P' := ∃ t, C.may op P.state r t ∧ P' = { P with state := t }

/-- A run of a program with moves of others before each of its calls and at its end. -/
def Contract.RunsAmong (C : Contract Op Reply σ) (others : σ → σ → Prop) :
    Prog Op Reply α → σ → α → σ → Prop
  | .ret a, s, b, s' => b = a ∧ others s s'
  | .call op next, s, b, s' =>
      ∃ t r u, others s t ∧ C.may op t r u ∧ RunsAmong C others (next r) u b s'

/-- An onlooker may find that nobody else does anything. -/
theorem runsAmong_alone {C : Contract Op' Reply' σ} {others : Pool ι Op Reply σ α →
      Pool ι Op Reply σ α → Prop} (hrefl : ∀ P, others P P) {p : Prog Op' Reply' β}
    {P : Pool ι Op Reply σ α} {b : β} {s' : σ} (h : C.Runs p P.state b s') :
    (onlooker C).RunsAmong others p P b { P with state := s' } := by
  induction p generalizing P with
  | ret c =>
      obtain ⟨rfl, rfl⟩ := h
      exact ⟨rfl, hrefl P⟩
  | call op next ih =>
      obtain ⟨r, t, hmay, hrest⟩ := h
      have hnext := ih r (P := { P with state := t }) hrest
      exact ⟨P, r, { P with state := t }, hrefl P, ⟨t, hmay, rfl⟩, hnext⟩

/-- It finds so at some of its calls. -/
theorem runsAmong_advance {C : Contract Op' Reply' σ} {others : Pool ι Op Reply σ α →
      Pool ι Op Reply σ α → Prop} (hrefl : ∀ P, others P P)
    {step : Nat → (op : Op') → σ → Reply' op × σ}
    (hstep : ∀ n op s, C.may op s (step n op s).1 (step n op s).2) (calls n : Nat)
    {p : Prog Op' Reply' β} {P P' : Pool ι Op Reply σ α} {b : β}
    (h : (onlooker C).RunsAmong others (p.advance step calls n P.state).1
      { P with state := (p.advance step calls n P.state).2 } b P') :
    (onlooker C).RunsAmong others p P b P' := by
  induction calls generalizing p n P with
  | zero => exact h
  | succ calls ih =>
      cases p with
      | ret a => exact h
      | call op next =>
          exact ⟨P, _, { P with state := (step n op P.state).2 }, hrefl P,
            ⟨_, hstep n op P.state, rfl⟩, ih (n + 1) h⟩

/-- Others may have moved before. -/
theorem runsAmong_after {C : Contract Op Reply σ} {others : σ → σ → Prop}
    (htrans : ∀ s t u, others s t → others t u → others s u) {p : Prog Op Reply β} {s t u : σ}
    {b : β} (hmoved : others s t) (h : C.RunsAmong others p t b u) :
    C.RunsAmong others p s b u := by
  cases p with
  | ret a => exact ⟨h.1, htrans s t u hmoved h.2⟩
  | call op next =>
      obtain ⟨v, r, x, hthen, hrest⟩ := h
      exact ⟨v, r, x, htrans s t v hmoved hthen, hrest⟩

/-- What an onlooker grants: the invariant, and what each member relies on. -/
def Leaves (I : σ → Prop) (R : ι → σ → σ → Prop) (s t : σ) : Prop := I s → I t ∧ ∀ i, R i s t

variable {M : Members ι Op Reply σ α} {A : Agreement M} [DecidableEq ι]

/-- **A program among the members**, whatever they do between its calls. -/
theorem Agreement.Sound.among {C : Contract Op' Reply' σ} {p : Prog Op' Reply' β} {Q : β → Prop}
    {P P' : Pool ι Op Reply σ α} {b : β} (h : A.Sound P)
    (hp : C.Holds (Relies A.inv fun _ _ => True) (Leaves A.inv A.relied) p (fun b _ => Q b) P.state)
    (hrun : (onlooker C).RunsAmong (Relation.ReflTransGen (Pool.Step M)) p P b P') : Q b := by
  induction p generalizing P with
  | ret c =>
      obtain ⟨rfl, _⟩ := hrun
      exact hp
  | call op next ih =>
      obtain ⟨P1, r, _, hmoved, ⟨t, hmay, rfl⟩, hrest⟩ := hrun
      have h1 := h.steps hmoved
      obtain ⟨hleaves, hnext⟩ := hp P1.state (fun _ => ⟨h1.inv, trivial⟩) r t hmay
      obtain ⟨ht, hothers⟩ := hleaves h1.inv
      exact ih r (h1.moved ht hothers) hnext hrest

end

end Programs
