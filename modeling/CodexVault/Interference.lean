import CodexVault.Programs
import Mathlib.Logic.Relation

/-!
# Programs among others

A program that shares its state with others sees that state change between its
calls.  `Holds` is the weakest precondition under interference: whatever the
others do within `rely`, every call of the program keeps to `guar`, and it ends
with its postcondition.

It is composed bind by bind, and `holds_of_uses` is the rule for a part of a program
that keeps an invariant which the others keep too.
-/

namespace Programs

open Prog

variable {Op : Type} {Reply : Op → Type} {σ α β ε : Type}

namespace Contract

section

variable (C : Contract Op Reply σ) (rely guar : σ → σ → Prop)

/-- Whatever the others do within `rely` before each call, the call keeps to
`guar`, and the program ends with `Q`. -/
def Holds : Prog Op Reply α → (α → σ → Prop) → σ → Prop
  | .ret a, Q, s => Q a s
  | .call op next, Q, s =>
      ∀ t, rely s t → ∀ r u, C.may op t r u → guar t u ∧ Holds (next r) Q u

/-- The postcondition of a program that can fail, by its two outcomes. -/
def outcome (Q : α → σ → Prop) (E : ε → σ → Prop) : Except ε α → σ → Prop
  | .ok a, s => Q a s
  | .error e, s => E e s

/-- `Holds` for programs that can fail. -/
def HoldsE (p : ExceptT ε (Prog Op Reply) α) (Q : α → σ → Prop) (E : ε → σ → Prop) (s : σ) :
    Prop :=
  C.Holds rely guar p.run (outcome Q E) s

end

variable {C : Contract Op Reply σ} {rely guar : σ → σ → Prop}

theorem holds_perform {op : Op} {Q : Reply op → σ → Prop} {s : σ}
    (h : ∀ t, rely s t → ∀ r u, C.may op t r u → guar t u ∧ Q r u) :
    C.Holds rely guar (perform op) Q s := h

theorem holds_mono {p : Prog Op Reply α} {Q Q' : α → σ → Prop} {s : σ}
    (h : C.Holds rely guar p Q s) (himp : ∀ a t, Q a t → Q' a t) : C.Holds rely guar p Q' s := by
  induction p generalizing s with
  | ret a => exact himp a s h
  | call op next ih =>
      intro t ht r u hmay
      obtain ⟨hguar, hrest⟩ := h t ht r u hmay
      exact ⟨hguar, ih r hrest⟩

theorem holds_bind {p : Prog Op Reply α} {f : α → Prog Op Reply β} {Q : β → σ → Prop} {s : σ}
    (h : C.Holds rely guar p (fun a t => C.Holds rely guar (f a) Q t) s) :
    C.Holds rely guar (p >>= f) Q s := by
  induction p generalizing s with
  | ret a => exact h
  | call op next ih =>
      intro t ht r u hmay
      obtain ⟨hguar, hrest⟩ := h t ht r u hmay
      exact ⟨hguar, ih r hrest⟩

theorem holds_and {p : Prog Op Reply α} {Q Q' : α → σ → Prop} {s : σ}
    (h : C.Holds rely guar p Q s) (h' : C.Holds rely guar p Q' s) :
    C.Holds rely guar p (fun a t => Q a t ∧ Q' a t) s := by
  induction p generalizing s with
  | ret a => exact ⟨h, h'⟩
  | call op next ih =>
      intro t ht r u hmay
      obtain ⟨hguar, hrest⟩ := h t ht r u hmay
      exact ⟨hguar, ih r hrest (h' t ht r u hmay).2⟩

/-- **Invariants.**  A part of a program whose calls keep an invariant that the
others keep too. -/
theorem holds_of_uses {P : Op → Prop} {I : σ → Prop} (hrely : ∀ s t, I s → rely s t → I t)
    (hstep : ∀ op s r t, P op → I s → C.may op s r t → guar s t ∧ I t) {p : Prog Op Reply α}
    (hp : Uses P p) {s : σ} (hs : I s) : C.Holds rely guar p (fun _ t => I t) s := by
  induction p generalizing s with
  | ret a => exact hs
  | call op next ih =>
      intro t ht r u hmay
      obtain ⟨hguar, hu⟩ := hstep op t r u hp.1 (hrely s t hs ht) hmay
      exact ⟨hguar, ih r (hp.2 r) hu⟩

theorem holdsE_mono {p : ExceptT ε (Prog Op Reply) α} {Q Q' : α → σ → Prop}
    {E E' : ε → σ → Prop} {s : σ} (h : C.HoldsE rely guar p Q E s)
    (hQ : ∀ a t, Q a t → Q' a t) (hE : ∀ e t, E e t → E' e t) :
    C.HoldsE rely guar p Q' E' s := by
  apply holds_mono h
  intro r t hr
  cases r with
  | error e => exact hE e t hr
  | ok a => exact hQ a t hr

theorem holdsE_bind {p : ExceptT ε (Prog Op Reply) α} {f : α → ExceptT ε (Prog Op Reply) β}
    {Q : β → σ → Prop} {E : ε → σ → Prop} {s : σ}
    (h : C.HoldsE rely guar p (fun a t => C.HoldsE rely guar (f a) Q E t) E s) :
    C.HoldsE rely guar (p >>= f) Q E s := by
  unfold HoldsE
  rw [ExceptT.run_bind]
  apply holds_bind
  apply holds_mono h
  intro r t hr
  cases r with
  | error e => exact hr
  | ok a => exact hr

theorem holdsE_lift {p : Prog Op Reply α} {Q : α → σ → Prop} {E : ε → σ → Prop} {s : σ}
    (h : C.Holds rely guar p Q s) : C.HoldsE rely guar (ExceptT.lift p) Q E s := by
  unfold HoldsE
  rw [ExceptT.run_lift, ← bind_pure_comp]
  apply holds_bind
  exact holds_mono h fun a t ht => ht

theorem holdsE_attempt {p : ExceptT ε (Prog Op Reply) α} {Q : Except ε α → σ → Prop}
    {E : ε → σ → Prop} {s : σ}
    (h : C.HoldsE rely guar p (fun a t => Q (.ok a) t) (fun e t => Q (.error e) t) s) :
    C.HoldsE rely guar (attempt p) Q E s := by
  apply holdsE_lift
  apply holds_mono h
  intro r t hr
  cases r with
  | error e => exact hr
  | ok a => exact hr

theorem holdsE_onError {p : ExceptT ε (Prog Op Reply) α} {cleanup : Prog Op Reply Unit}
    {Q : α → σ → Prop} {E : ε → σ → Prop} {s : σ}
    (h : C.HoldsE rely guar p Q (fun e t => C.Holds rely guar cleanup (fun _ u => E e u) t) s) :
    C.HoldsE rely guar (onError p cleanup) Q E s := by
  apply holds_bind
  apply holds_mono h
  intro r t hr
  cases r with
  | error e =>
      apply holds_bind
      exact holds_mono hr fun _ u hu => hu
  | ok a => exact hr

theorem holdsE_mapError {ε' : Type} {f : ε → ε'} {p : ExceptT ε (Prog Op Reply) α}
    {Q : α → σ → Prop} {E : ε' → σ → Prop} {s : σ}
    (h : C.HoldsE rely guar p Q (fun e t => E (f e) t) s) :
    C.HoldsE rely guar (mapError f p) Q E s := by
  apply holds_bind
  apply holds_mono h
  intro r t hr
  cases r with
  | error e => exact hr
  | ok a => exact hr

/-- Invariants, for a program that can fail. -/
theorem holdsE_of_uses {P : Op → Prop} {I : σ → Prop} (hrely : ∀ s t, I s → rely s t → I t)
    (hstep : ∀ op s r t, P op → I s → C.may op s r t → guar s t ∧ I t)
    {p : ExceptT ε (Prog Op Reply) α} (hp : Uses P p.run) {s : σ} (hs : I s) :
    C.HoldsE rely guar p (fun _ t => I t) (fun _ t => I t) s := by
  apply holds_mono (holds_of_uses hrely hstep hp hs)
  intro r t ht
  cases r with
  | error e => exact ht
  | ok a => exact ht

theorem holdsE_and {p : ExceptT ε (Prog Op Reply) α} {Q Q' : α → σ → Prop}
    {E E' : ε → σ → Prop} {s : σ} (h : C.HoldsE rely guar p Q E s)
    (h' : C.HoldsE rely guar p Q' E' s) :
    C.HoldsE rely guar p (fun a t => Q a t ∧ Q' a t) (fun e t => E e t ∧ E' e t) s := by
  apply holds_mono (holds_and h h')
  intro r t ht
  cases r with
  | error e => exact ht
  | ok a => exact ht

end Contract

end Programs
