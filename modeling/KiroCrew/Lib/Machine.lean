import Mathlib

/-!
# Runs of a partial step function

A machine is a step function `step : σ → ε → Option σ`; `none` means that the event is not enabled.
`Reaches step C s s'` says that some run leads from `s` to `s'` in which every event satisfies the
condition `C` at the state where it happens. `runAlong` executes a list of events and checks the
condition on the way, so a concrete run proves `Reaches` by evaluation (`Reaches.of_runAlong`).
-/

namespace Machine

variable {σ ε : Type*} {step : σ → ε → Option σ} {C C' : σ → ε → Prop} {s s' s'' : σ}

/-- One enabled event that satisfies `C`. -/
def StepBy (step : σ → ε → Option σ) (C : σ → ε → Prop) (s s' : σ) : Prop :=
  ∃ e, C s e ∧ step s e = some s'

/-- `s'` is reached from `s` by events that satisfy `C` where they happen. -/
def Reaches (step : σ → ε → Option σ) (C : σ → ε → Prop) : σ → σ → Prop :=
  Relation.ReflTransGen (StepBy step C)

/-- No condition on the events. -/
def Any : σ → ε → Prop := fun _ _ => True

/-- Execute `es` from `s`; `none` as soon as an event is not enabled or violates `C`. -/
def runAlong (step : σ → ε → Option σ) (C : σ → ε → Prop) [∀ s e, Decidable (C s e)] :
    σ → List ε → Option σ
  | s, [] => some s
  | s, e :: es => if C s e then (step s e).bind fun s' => runAlong step C s' es else none

theorem runAlong_cons [∀ s e, Decidable (C s e)] {e : ε} {es : List ε} (hC : C s e) :
    runAlong step C s (e :: es) = (step s e).bind fun s' => runAlong step C s' es :=
  if_pos hC

theorem runAlong_cons_of_not [∀ s e, Decidable (C s e)] {e : ε} {es : List ε} (hC : ¬ C s e) :
    runAlong step C s (e :: es) = none :=
  if_neg hC

namespace Reaches

theorem refl : Reaches step C s s := Relation.ReflTransGen.refl

theorem trans (h : Reaches step C s s') (h' : Reaches step C s' s'') : Reaches step C s s'' :=
  Relation.ReflTransGen.trans h h'

theorem tail {e : ε} (h : Reaches step C s s') (hC : C s' e) (he : step s' e = some s'') :
    Reaches step C s s'' :=
  Relation.ReflTransGen.tail h ⟨e, hC, he⟩

theorem single {e : ε} (hC : C s e) (he : step s e = some s') : Reaches step C s s' :=
  refl.tail hC he

theorem mono (hC : ∀ s e, C s e → C' s e) (h : Reaches step C s s') : Reaches step C' s s' :=
  Relation.ReflTransGen.mono (fun _ _ ⟨e, hc, he⟩ => ⟨e, hC _ _ hc, he⟩) _ _ h

theorem any (h : Reaches step C s s') : Reaches step Any s s' := h.mono fun _ _ _ => trivial

/-- The invariant rule: what every allowed step keeps, every run keeps. -/
theorem invariant {I : σ → Prop} (hI : ∀ s e s', I s → C s e → step s e = some s' → I s')
    (h : Reaches step C s s') (hs : I s) : I s' := by
  induction h with
  | refl => exact hs
  | tail _ hstep ih =>
    obtain ⟨e, hc, he⟩ := hstep
    exact hI _ e _ ih hc he

/-- The invariant rule for a relation to the start of the run. -/
theorem relation {R : σ → σ → Prop} (hrefl : ∀ s, R s s)
    (hR : ∀ s₀ s e s', R s₀ s → C s e → step s e = some s' → R s₀ s')
    (h : Reaches step C s s') : R s s' :=
  h.invariant (I := R s) (hR s) (hrefl s)

theorem of_runAlong [∀ s e, Decidable (C s e)] {es : List ε} (h : runAlong step C s es = some s') :
    Reaches step C s s' := by
  induction es generalizing s with
  | nil => simp only [runAlong, Option.some.injEq] at h; subst h; exact refl
  | cons e es ih =>
    simp only [runAlong] at h
    split at h
    · next hc =>
      obtain ⟨s₁, he, hrest⟩ := Option.bind_eq_some_iff.1 h
      exact (single hc he).trans (ih hrest)
    · simp at h

theorem of_isSome [∀ s e, Decidable (C s e)] {es : List ε} (h : (runAlong step C s es).isSome) :
    Reaches step C s ((runAlong step C s es).get h) :=
  of_runAlong (Option.some_get h).symm

end Reaches

instance (s : σ) (e : ε) : Decidable ((Any : σ → ε → Prop) s e) := .isTrue trivial

theorem runAlong_any [∀ s e, Decidable (C s e)] {es : List ε} (h : runAlong step C s es = some s') :
    runAlong step Any s es = some s' := by
  induction es generalizing s with
  | nil => exact h
  | cons e es ih =>
    by_cases hC : C s e
    · rw [runAlong_cons hC] at h
      obtain ⟨s₁, he, hrest⟩ := Option.bind_eq_some_iff.1 h
      rw [runAlong_cons trivial, he, Option.bind_some]
      exact ih hrest
    · rw [runAlong_cons_of_not hC] at h
      cases h

end Machine
