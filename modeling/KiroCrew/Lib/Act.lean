/-!
# Actions on a state that may fail

`Act σ ε α` runs on a state and leaves one, whether it returns or raises. `attempt` is a handler,
`always` a `finally`, `each` a loop. `Only P` says that whatever an action raises satisfies `P`; it
is closed under the combinators. `Triple` is a Hoare triple with a postcondition for each way out,
with a rule for each combinator, and `Keeps` says that an action keeps an invariant however it ends.
-/

def Act (σ ε α : Type) := σ → σ × Except ε α

namespace Act

variable {σ ε ε' α β : Type}

protected def pure (a : α) : Act σ ε α := fun s => (s, .ok a)

protected def bind (x : Act σ ε α) (f : α → Act σ ε β) : Act σ ε β := fun s =>
  match x s with
  | (s', .ok a) => f a s'
  | (s', .error e) => (s', .error e)

instance : Monad (Act σ ε) where
  pure := Act.pure
  bind := Act.bind

def raise (e : ε) : Act σ ε α := fun s => (s, .error e)

/-- What can be seen of the state. -/
def look (f : σ → α) : Act σ ε α := fun s => (s, .ok (f s))

def ofExcept : Except ε α → Act σ ε α
  | .ok a => Act.pure a
  | .error e => raise e

/-- Another type of exceptions. -/
def mapError (f : ε' → ε) (x : Act σ ε' α) : Act σ ε α := fun s =>
  match x s with
  | (s', .ok a) => (s', .ok a)
  | (s', .error e) => (s', .error (f e))

/-- `try: x except e: handle e` -/
def attempt (x : Act σ ε α) (handle : ε → Act σ ε α) : Act σ ε α := fun s =>
  match x s with
  | (s', .ok a) => (s', .ok a)
  | (s', .error e) => handle e s'

/-- `try: x finally: cleanup`; what the cleanup raises replaces what `x` raised. -/
def always (x : Act σ ε α) (cleanup : Act σ ε Unit) : Act σ ε α := fun s =>
  match cleanup (x s).1 with
  | (s', .ok _) => (s', (x s).2)
  | (s', .error e) => (s', .error e)

/-- `if c: x` -/
def when (c : Bool) (x : Act σ ε Unit) : Act σ ε Unit := if c then x else Act.pure ()

/-- `for a in as: f a` -/
def each (f : α → Act σ ε Unit) : List α → Act σ ε Unit
  | [] => Act.pure ()
  | a :: as => Act.bind (f a) fun _ => each f as

section Equations

variable {s s' : σ} {x : Act σ ε α} {f : α → Act σ ε β} {a : α} {e : ε}

@[simp] theorem pure_apply : (pure a : Act σ ε α) s = (s, .ok a) := rfl

@[simp] theorem raise_apply : (raise e : Act σ ε α) s = (s, .error e) := rfl

@[simp] theorem look_apply {g : σ → α} : (look g : Act σ ε α) s = (s, .ok (g s)) := rfl

theorem bind_of_ok (h : x s = (s', .ok a)) : (x >>= f) s = f a s' := by
  show Act.bind x f s = f a s'
  rw [Act.bind, h]

theorem bind_of_error (h : x s = (s', .error e)) : (x >>= f) s = (s', .error e) := by
  show Act.bind x f s = _
  rw [Act.bind, h]

/-- What is done first returns, or the whole raises what it raises. -/
theorem bind_cases : (∃ s₁ a, x s = (s₁, .ok a) ∧ (x >>= f) s = f a s₁) ∨
    ∃ s₁ e, x s = (s₁, .error e) ∧ (x >>= f) s = (s₁, .error e) := by
  rcases hx : x s with ⟨s₁, a | a⟩
  · exact Or.inr ⟨s₁, a, rfl, bind_of_error hx⟩
  · exact Or.inl ⟨s₁, a, rfl, bind_of_ok hx⟩

theorem bind_ok {b : β} (h : (x >>= f) s = (s', .ok b)) : ∃ s₁ a, x s = (s₁, .ok a) ∧
    f a s₁ = (s', .ok b) := by
  rcases bind_cases (x := x) (f := f) (s := s) with ⟨s₁, a, hx, heq⟩ | ⟨s₁, e, hx, heq⟩
  · exact ⟨s₁, a, hx, heq ▸ h⟩
  · rw [heq] at h
    cases h

@[simp] theorem each_nil {g : α → Act σ ε Unit} : each g [] = pure () := rfl

@[simp] theorem each_cons {g : α → Act σ ε Unit} {as : List α} : each g (a :: as) = g a >>= fun _ =>
    each g as := rfl

theorem each_append {g : α → Act σ ε Unit} {as bs : List α} :
    each g (as ++ bs) s = (each g as >>= fun _ => each g bs) s := by
  induction as generalizing s with
  | nil => rfl
  | cons a as ih =>
    simp only [List.cons_append, each_cons]
    rcases bind_cases (x := g a) (f := fun _ => each g (as ++ bs)) (s := s) with
      ⟨s₁, u, hx, heq⟩ | ⟨s₁, e, hx, heq⟩
    · have hleft : (g a >>= fun _ => each g as) s = each g as s₁ := bind_of_ok hx
      rw [heq, ih]
      rcases hrest : each g as s₁ with ⟨s₂, e | v⟩
      · rw [bind_of_error hrest, bind_of_error (hleft.trans hrest)]
      · rw [bind_of_ok hrest, bind_of_ok (hleft.trans hrest)]
    · have hleft : (g a >>= fun _ => each g as) s = (s₁, .error e) := bind_of_error hx
      rw [heq, bind_of_error hleft]

/-- A loop that raises does so in one of its rounds. -/
theorem each_error {g : α → Act σ ε Unit} {as : List α} (h : each g as s = (s', .error e)) :
    ∃ before a after s₁, as = before ++ a :: after ∧ each g before s = (s₁, .ok ()) ∧
    g a s₁ = (s', .error e) := by
  induction as generalizing s with
  | nil => cases h
  | cons a as ih =>
    rw [each_cons] at h
    rcases bind_cases (x := g a) (f := fun _ => each g as) (s := s) with
      ⟨s₁, u, hx, heq⟩ | ⟨s₁, e₁, hx, heq⟩
    · obtain ⟨before, b, after, s₂, rfl, hbefore, hraise⟩ := ih (heq ▸ h)
      exact ⟨a :: before, b, after, s₂, rfl, (bind_of_ok hx).trans hbefore, hraise⟩
    · rw [heq] at h
      obtain ⟨rfl, he⟩ := Prod.mk.inj h
      exact ⟨[], a, as, s, rfl, rfl, by rw [hx, he]⟩

theorem each_of_error {g : α → Act σ ε Unit} {before after : List α} {s₁ : σ}
    (hbefore : each g before s = (s₁, .ok ()))
    (ha : g a s₁ = (s', .error e)) : each g (before ++ a :: after) s = (s', .error e) := by
  rw [each_append, bind_of_ok hbefore]
  exact bind_of_error ha

/-- In a loop that returns, every round did. -/
theorem each_ok {g : α → Act σ ε Unit} {as : List α} {u : Unit} (h : each g as s = (s', .ok u))
    (ha : a ∈ as) :
    ∃ s₁ s₂, g a s₁ = (s₂, .ok ()) := by
  induction as generalizing s with
  | nil => cases ha
  | cons b as ih =>
    obtain ⟨s₁, v, hb, hrest⟩ := bind_ok h
    rcases List.mem_cons.1 ha with rfl | ha
    · exact ⟨s, s₁, hb⟩
    · exact ih hrest ha

end Equations

/-! ## What is raised -/

/-- Whatever the action raises satisfies `P`. -/
def Only (P : ε → Prop) (x : Act σ ε α) : Prop := ∀ s s' e, x s = (s', .error e) → P e

namespace Only

variable {P Q : ε → Prop} {x : Act σ ε α} {f : α → Act σ ε β}

theorem pure {a : α} : Only P (Pure.pure a : Act σ ε α) := fun s s' e he => by cases he

theorem look {g : σ → α} : Only P (Act.look g : Act σ ε α) := fun s s' e he => by cases he

theorem raise {e : ε} (h : P e) : Only P (Act.raise e : Act σ ε α) := fun s s' e' he => by
  cases he
  exact h

theorem bind (hx : Only P x) (hf : ∀ a, Only P (f a)) : Only P (x >>= f) := by
  intro s s' e he
  rcases bind_cases (x := x) (f := f) (s := s) with ⟨s₁, a, -, heq⟩ | ⟨s₁, e', hraise, heq⟩
  · exact hf a s₁ s' e (heq ▸ he)
  · rw [heq] at he
    cases he
    exact hx s _ _ hraise

theorem ite {c : Prop} [Decidable c] {y : Act σ ε α} (hx : Only P x) (hy : Only P y) :
    Only P (if c then x else y) := by
  split
  · exact hx
  · exact hy

theorem attempt {handle : ε → Act σ ε α} (hx : Only Q x) (hhandle : ∀ e, Q e → Only P (handle e)) :
    Only P (Act.attempt x handle) := by
  intro s s' e he
  unfold Act.attempt at he
  rcases hrun : x s with ⟨s₁, e₁ | a⟩
  · rw [hrun] at he
    exact hhandle e₁ (hx s s₁ e₁ hrun) s₁ s' e he
  · rw [hrun] at he
    cases he

theorem mapError {ε' : Type} {g : ε' → ε} {y : Act σ ε' α} (h : ∀ e, P (g e)) :
    Only P (Act.mapError g y) := by
  intro s s' e he
  unfold Act.mapError at he
  rcases hrun : y s with ⟨s₁, e₁ | a⟩
  · rw [hrun] at he
    cases he
    exact h e₁
  · rw [hrun] at he
    cases he

end Only

/-! ## Pre- and postconditions -/

/-- From a state with `P` the action leaves one with `Q` when it returns and one with `E` when it
raises. -/
def Triple (P : σ → Prop) (x : Act σ ε α) (Q : α → σ → Prop) (E : ε → σ → Prop) : Prop :=
  ∀ s, P s → (∀ a s', x s = (s', .ok a) → Q a s') ∧ ∀ e s', x s = (s', .error e) → E e s'

namespace Triple

variable {P P' : σ → Prop} {Q Q' : α → σ → Prop} {E E' : ε → σ → Prop} {x : Act σ ε α}
    {f : α → Act σ ε β} {R : β → σ → Prop}

theorem conseq (h : Triple P x Q E) (hP : ∀ s, P' s → P s) (hQ : ∀ a s, Q a s → Q' a s)
    (hE : ∀ e s, E e s → E' e s) :
    Triple P' x Q' E' := fun s hs => ⟨fun a s' hrun => hQ a s' ((h s (hP s hs)).1 a s' hrun),
  fun e s' hrun => hE e s' ((h s (hP s hs)).2 e s' hrun)⟩

theorem assuming {c : Prop} (h : c → Triple P x Q E) :
    Triple (fun s => P s ∧ c) x Q E := fun s hs => h hs.2 s hs.1

theorem of_exists {ι : Type} {R : ι → σ → Prop} (h : ∀ i, Triple (R i) x Q E) :
    Triple (fun s => ∃ i, R i s) x Q E :=
  fun s ⟨i, hi⟩ => h i s hi

theorem pure {a : α} (h : ∀ s, P s → Q a s) : Triple P (Pure.pure a : Act σ ε α) Q E := by
  intro s hs
  refine ⟨fun b s' hrun => ?_, fun e s' hrun => by cases hrun⟩
  cases hrun
  exact h s hs

theorem raise {e : ε} (h : ∀ s, P s → E e s) : Triple P (Act.raise e : Act σ ε α) Q E := by
  intro s hs
  refine ⟨fun b s' hrun => (by cases hrun), fun e' s' hrun => ?_⟩
  cases hrun
  exact h s hs

theorem look {g : σ → α} (h : ∀ s, P s → Q (g s) s) : Triple P (Act.look g : Act σ ε α) Q E := by
  intro s hs
  refine ⟨fun b s' hrun => ?_, fun e s' hrun => by cases hrun⟩
  cases hrun
  exact h s hs

theorem bind (hx : Triple P x Q E) (hf : ∀ a, Triple (Q a) (f a) R E) : Triple P (x >>= f) R E := by
  intro s hs
  rcases bind_cases (x := x) (f := f) (s := s) with ⟨s₁, a, hrun, heq⟩ | ⟨s₁, e, hrun, heq⟩
  · rw [heq]
    exact hf a s₁ ((hx s hs).1 a s₁ hrun)
  · rw [heq]
    refine ⟨fun b s' h => (by cases h), fun e' s' h => ?_⟩
    cases h
    exact (hx s hs).2 e s₁ hrun

theorem ite {c : Prop} [Decidable c] {y : Act σ ε α} (hx : c → Triple P x Q E)
    (hy : ¬ c → Triple P y Q E) :
    Triple P (if c then x else y) Q E := by
  split
  · next hc => exact hx hc
  · next hc => exact hy hc

theorem attempt {handle : ε → Act σ ε α} (hx : Triple P x Q E')
    (hhandle : ∀ e, Triple (E' e) (handle e) Q E) :
    Triple P (Act.attempt x handle) Q E := by
  intro s hs
  unfold Act.attempt
  rcases hrun : x s with ⟨s₁, e | a⟩
  · exact hhandle e s₁ ((hx s hs).2 e s₁ hrun)
  · refine ⟨fun b s' h => ?_, fun e' s' h => by cases h⟩
    cases h
    exact (hx s hs).1 a s₁ hrun

theorem mapError {ε' : Type} {g : ε' → ε} {y : Act σ ε' α} (h : Triple P y Q fun e => E (g e)) :
    Triple P (Act.mapError g y) Q E := by
  intro s hs
  unfold Act.mapError
  rcases hrun : y s with ⟨s₁, e | a⟩
  · refine ⟨fun b s' h => (by cases h), fun e' s' h' => ?_⟩
    cases h'
    exact (h s hs).2 e s₁ hrun
  · refine ⟨fun b s' h' => ?_, fun e' s' h => by cases h⟩
    cases h'
    exact (h s hs).1 a s₁ hrun

theorem each {I : σ → Prop} {g : α → Act σ ε Unit} {as : List α}
    (h : ∀ a ∈ as, Triple I (g a) (fun _ => I) E) :
    Triple I (Act.each g as) (fun _ => I) E := by
  induction as with
  | nil => exact Triple.pure fun _ hs => hs
  | cons a as ih =>
    have hrest := ih fun b hb => h b (List.mem_cons_of_mem _ hb)
    exact (h a List.mem_cons_self).bind fun _ => hrest

theorem each_append {g : α → Act σ ε Unit} {as bs : List α} {R : Unit → σ → Prop}
    {S : Unit → σ → Prop}
    (has : Triple P (Act.each g as) R E) (hbs : ∀ u, Triple (R u) (Act.each g bs) S E) :
    Triple P (Act.each g (as ++ bs)) S E := by
  have hboth : Triple P (Act.each g as >>= fun _ => Act.each g bs) S E := has.bind hbs
  intro s hs
  rw [Act.each_append]
  exact hboth s hs

end Triple

/-- The action keeps `I`, whether it returns or raises. -/
def Keeps (I : σ → Prop) (x : Act σ ε α) : Prop := ∀ s, I s → I (x s).1

namespace Keeps

variable {I : σ → Prop} {x : Act σ ε α} {f : α → Act σ ε β}

theorem pure {a : α} : Keeps I (Pure.pure a : Act σ ε α) := fun _ hs => hs

theorem raise {e : ε} : Keeps I (Act.raise e : Act σ ε α) := fun _ hs => hs

theorem look {g : σ → α} : Keeps I (Act.look g : Act σ ε α) := fun _ hs => hs

theorem bind (hx : Keeps I x) (hf : ∀ a, Keeps I (f a)) : Keeps I (x >>= f) := by
  intro s hs
  have hkept := hx s hs
  rcases bind_cases (x := x) (f := f) (s := s) with ⟨s₁, a, hrun, heq⟩ | ⟨s₁, e, hrun, heq⟩
  · rw [hrun] at hkept
    rw [heq]
    exact hf a s₁ hkept
  · rw [hrun] at hkept
    rw [heq]
    exact hkept

theorem ite {c : Prop} [Decidable c] {y : Act σ ε α} (hx : Keeps I x) (hy : Keeps I y) :
    Keeps I (if c then x else y) := by
  split
  · exact hx
  · exact hy

theorem attempt {handle : ε → Act σ ε α} (hx : Keeps I x) (hhandle : ∀ e, Keeps I (handle e)) :
    Keeps I (Act.attempt x handle) := by
  intro s hs
  have hkept := hx s hs
  unfold Act.attempt
  rcases hrun : x s with ⟨s₁, e | a⟩
  · rw [hrun] at hkept
    exact hhandle e s₁ hkept
  · rw [hrun] at hkept
    exact hkept

theorem each {g : α → Act σ ε Unit} {as : List α} (h : ∀ a ∈ as, Keeps I (g a)) :
    Keeps I (Act.each g as) := by
  induction as with
  | nil => exact Keeps.pure
  | cons a as ih =>
    have hrest := ih fun b hb => h b (List.mem_cons_of_mem _ hb)
    exact (h a List.mem_cons_self).bind fun _ => hrest

end Keeps

end Act
