import CodexVault.Interference

/-!
# Programs that are cut off

A process can die between any two of its calls.  `Cuts` says in which states a run
of a program may be cut off: a bind is cut off in its first part or, once that has
ended, in its second.

`cuts_of_holds` and `cuts_of_uses` are the rules for what every call keeps.
-/

namespace Programs

open Prog

namespace Contract

variable {Op : Type} {Reply : Op → Type} {σ α β ε : Type}

/-- A run of the program from `s` may be cut off in `s'`. -/
def Cuts (C : Contract Op Reply σ) : Prog Op Reply α → σ → σ → Prop
  | .ret _, s, s' => s' = s
  | .call op next, s, s' => s' = s ∨ ∃ r t, C.may op s r t ∧ Cuts C (next r) t s'

variable {C : Contract Op Reply σ} {rely guar : σ → σ → Prop}

/-- A run may be cut off where it ends. -/
theorem cuts_of_runs {p : Prog Op Reply α} {a : α} {s s' : σ} (h : C.Runs p s a s') :
    C.Cuts p s s' := by
  induction p generalizing s with
  | ret b => exact h.2
  | call op next ih =>
      obtain ⟨r, t, hmay, hrest⟩ := h
      exact .inr ⟨r, t, hmay, ih r hrest⟩

/-- A machine that is a function within the contract may be cut off after any call. -/
theorem cuts_advance {step : Nat → (op : Op) → σ → Reply op × σ}
    (hstep : ∀ n op s, C.may op s (step n op s).1 (step n op s).2) (calls n : Nat)
    (p : Prog Op Reply α) (s : σ) : C.Cuts p s (p.advance step calls n s).2 := by
  induction calls generalizing p n s with
  | zero =>
      cases p with
      | ret a => exact rfl
      | call op next => exact .inl rfl
  | succ calls ih =>
      cases p with
      | ret a => exact rfl
      | call op next => exact .inr ⟨_, _, hstep n op s, ih (n + 1) _ _⟩

theorem cuts_bind {p : Prog Op Reply α} {f : α → Prog Op Reply β} {s s' : σ}
    (h : C.Cuts (p >>= f) s s') : C.Cuts p s s' ∨ ∃ a t, C.Runs p s a t ∧ C.Cuts (f a) t s' := by
  induction p generalizing s with
  | ret a => exact .inr ⟨a, s, ⟨rfl, rfl⟩, h⟩
  | call op next ih =>
      rcases h with rfl | ⟨r, t, hmay, hrest⟩
      · exact .inl (.inl rfl)
      · rcases ih r hrest with hfirst | ⟨a, u, hruns, hcut⟩
        · exact .inl (.inr ⟨r, t, hmay, hfirst⟩)
        · exact .inr ⟨a, u, ⟨r, t, hmay, hruns⟩, hcut⟩

theorem cuts_run_bind {p : ExceptT ε (Prog Op Reply) α} {f : α → ExceptT ε (Prog Op Reply) β}
    {s s' : σ} (h : C.Cuts (p >>= f).run s s') :
    C.Cuts p.run s s' ∨ ∃ a t, C.Runs p.run s (.ok a) t ∧ C.Cuts (f a).run t s' := by
  rw [ExceptT.run_bind] at h
  rcases cuts_bind h with hfirst | ⟨r, t, hruns, hcut⟩
  · exact .inl hfirst
  · cases r with
    | error e =>
        have hcut : s' = t := hcut
        subst hcut
        exact .inl (cuts_of_runs hruns)
    | ok a => exact .inr ⟨a, t, hruns, hcut⟩

theorem cuts_lift {p : Prog Op Reply α} {s s' : σ}
    (h : C.Cuts (ExceptT.lift p : ExceptT ε (Prog Op Reply) α).run s s') : C.Cuts p s s' := by
  rw [ExceptT.run_lift, ← bind_pure_comp] at h
  rcases cuts_bind h with hfirst | ⟨a, t, hruns, hcut⟩
  · exact hfirst
  · have hcut : s' = t := hcut
    subst hcut
    exact cuts_of_runs hruns

theorem cuts_attempt_bind {p : ExceptT ε (Prog Op Reply) α}
    {f : Except ε α → ExceptT ε (Prog Op Reply) β} {s s' : σ}
    (h : C.Cuts (attempt p >>= f).run s s') :
    C.Cuts p.run s s' ∨ ∃ a t, C.Runs p.run s a t ∧ C.Cuts (f a).run t s' := by
  rcases cuts_run_bind h with hfirst | ⟨a, t, hruns, hcut⟩
  · exact .inl (cuts_lift hfirst)
  · obtain ⟨b, heq, hruns⟩ := runs_attempt.mp hruns
    cases heq
    exact .inr ⟨a, t, hruns, hcut⟩

/-- A program with a cleanup is cut off in the program, or in the cleanup after it
has failed. -/
theorem cuts_onError {p : ExceptT ε (Prog Op Reply) α} {cleanup : Prog Op Reply Unit}
    {s s' : σ} (h : C.Cuts (onError p cleanup).run s s') :
    C.Cuts p.run s s' ∨ ∃ e t, C.Runs p.run s (.error e) t ∧ C.Cuts cleanup t s' := by
  rcases cuts_bind h with hfirst | ⟨r, t, hruns, hcut⟩
  · exact .inl hfirst
  · cases r with
    | error e =>
        rcases cuts_bind hcut with hcut | ⟨u, t', hclean, hcut⟩
        · exact .inr ⟨e, t, hruns, hcut⟩
        · have hcut : s' = t' := hcut
          subst hcut
          exact .inr ⟨e, t, hruns, cuts_of_runs hclean⟩
    | ok a =>
        have hcut : s' = t := hcut
        subst hcut
        exact .inl (cuts_of_runs hruns)

theorem cuts_mapError {ε' : Type} {f : ε → ε'} {p : ExceptT ε (Prog Op Reply) α} {s s' : σ}
    (h : C.Cuts (mapError f p).run s s') : C.Cuts p.run s s' := by
  rcases cuts_bind h with hfirst | ⟨r, t, hruns, hcut⟩
  · exact hfirst
  · cases r with
    | error e =>
        have hcut : s' = t := hcut
        exact hcut ▸ cuts_of_runs hruns
    | ok a =>
        have hcut : s' = t := hcut
        exact hcut ▸ cuts_of_runs hruns

/-- A single call is cut off before it or after it. -/
theorem cuts_perform {op : Op} {s s' : σ} (h : C.Cuts (perform op) s s') :
    s' = s ∨ ∃ r, C.may op s r s' := by
  rcases h with rfl | ⟨r, t, hmay, hcut⟩
  · exact .inl rfl
  · have hcut : s' = t := hcut
    exact .inr ⟨r, hcut ▸ hmay⟩

/-! ## What holds where a run is cut off -/

/-- **A relation that each of the calls keeps** holds wherever the run is cut off. -/
theorem cuts_of_uses {P : Op → Prop} {I : σ → Prop}
    (hstep : ∀ op s r t, P op → I s → C.may op s r t → I t) {p : Prog Op Reply α}
    (hp : Uses P p) {s s' : σ} (hs : I s) (h : C.Cuts p s s') : I s' := by
  induction p generalizing s with
  | ret a =>
      have h : s' = s := h
      exact h ▸ hs
  | call op next ih =>
      rcases h with rfl | ⟨r, t, hmay, hrest⟩
      · exact hs
      · exact ih r (hp.2 r) (hstep op s r t hp.1 hs hmay) hrest

/-- What the calls guarantee step by step holds wherever a run that is left alone is
cut off. -/
theorem cuts_of_holds {I : σ → Prop} (hrefl : ∀ s, rely s s)
    (hguar : ∀ s t, I s → guar s t → I t) {p : Prog Op Reply α} {Q : α → σ → Prop} {s s' : σ}
    (hp : C.Holds rely guar p Q s) (hs : I s) (h : C.Cuts p s s') : I s' := by
  induction p generalizing s with
  | ret a =>
      have h : s' = s := h
      exact h ▸ hs
  | call op next ih =>
      rcases h with rfl | ⟨r, t, hmay, hrest⟩
      · exact hs
      · obtain ⟨hstep, hnext⟩ := hp s (hrefl s) r t hmay
        exact ih r hnext (hguar s t hs hstep) hrest

/-- A run that is left alone ends with its postcondition. -/
theorem runs_of_holds (hrefl : ∀ s, rely s s) {p : Prog Op Reply α} {Q : α → σ → Prop}
    {s s' : σ} {a : α} (hp : C.Holds rely guar p Q s) (h : C.Runs p s a s') : Q a s' := by
  induction p generalizing s with
  | ret b =>
      obtain ⟨rfl, rfl⟩ := h
      exact hp
  | call op next ih =>
      obtain ⟨r, t, hmay, hrest⟩ := h
      exact ih r (hp s (hrefl s) r t hmay).2 hrest

/-! ## Programs that are left alone -/

/-- The postcondition of a program that is left alone may speak of its run. -/
theorem holds_runs {p : Prog Op Reply α} {Q : α → σ → Prop} {s : σ}
    (hp : C.Holds Eq guar p Q s) : C.Holds Eq guar p (fun a t => Q a t ∧ C.Runs p s a t) s := by
  induction p generalizing s with
  | ret a => exact ⟨hp, rfl, rfl⟩
  | call op next ih =>
      intro t ht r u hmay
      obtain ⟨hguar, hrest⟩ := hp t ht r u hmay
      refine ⟨hguar, holds_mono (ih r hrest) fun a v ⟨hQ, hruns⟩ => ⟨hQ, r, u, ?_, hruns⟩⟩
      exact ht ▸ hmay

/-- Calls that keep an invariant, by a program that is left alone. -/
theorem holdsE_alone {P : Op → Prop} {I : σ → Prop}
    (hstep : ∀ op s r t, P op → I s → C.may op s r t → guar s t ∧ I t)
    {p : ExceptT ε (Prog Op Reply) α} (hp : Uses P p.run) {s : σ} (hs : I s) :
    C.HoldsE Eq guar p (fun a t => I t ∧ C.Runs p.run s (.ok a) t) (fun _ t => I t) s := by
  apply holds_mono (holds_runs (holds_of_uses (fun _ _ hs heq => heq ▸ hs) hstep hp hs))
  intro r t ht
  cases r with
  | error e => exact ht.1
  | ok a => exact ht

end Contract

end Programs
