import KiroCrew.Lib.Machine

/-!
# Programs that ask

A `Program` asks queries, each answered by a value of the query's own type, and returns. A `Server`
answers from a state that many programs share, and `Server.step` runs them side by side, one query
at a time. A `Guard` says what a program may ask, given what it has learned; `Program.Keeps` that it
does so whatever it is answered, with a rule for each way to write a program. Programs that keep
their guards keep the invariant behind them (`Server.Guarded.reaches`), and where the guards of two
groups part the state, one group runs as if the other did not exist (`Server.Isolates.run`).
-/

inductive Program (Q : Type) (A : Q → Type) (α : Type)
  | done (a : α)
  | ask (q : Q) (k : A q → Program Q A α)

/-- What a program may ask and is answered, and what it knows then. -/
structure Guard (Q : Type) (A : Q → Type) (K : Type) where
  may : K → Q → Prop
  sees : K → (q : Q) → A q → Prop
  learn : K → (q : Q) → A q → K

namespace Program

variable {Q : Type} {A : Q → Type} {α β ε K : Type}

protected def bind : Program Q A α → (α → Program Q A β) → Program Q A β
  | done a, f => f a
  | ask q k, f => ask q fun a => (k a).bind f

/-- Whatever is answered, only what the guard lets it ask; `post` holds of what is known and
returned in the end. -/
def Keeps (G : Guard Q A K) (post : K → α → Prop) : Program Q A α → K → Prop
  | done a, k => post k a
  | ask q f, k => G.may k q ∧ ∀ a, G.sees k q a → (f a).Keeps G post (G.learn k q a)

variable {G : Guard Q A K} {post post' : K → α → Prop} {k : K} {x : Program Q A α}

theorem Keeps.mono (h : x.Keeps G post k) (hpost : ∀ k a, post k a → post' k a) :
    x.Keeps G post' k := by
  induction x generalizing k with
  | done a => exact hpost k a h
  | ask q f ih => exact ⟨h.1, fun a ha => ih a (h.2 a ha)⟩

theorem Keeps.bind {f : α → Program Q A β} {post : K → β → Prop}
    (h : x.Keeps G (fun k a => (f a).Keeps G post k) k) :
    (x.bind f).Keeps G post k := by
  induction x generalizing k with
  | done a => exact h
  | ask q f ih => exact ⟨h.1, fun a ha => ih a (h.2 a ha)⟩

end Program

/-! ## Programs that may raise -/

/-- A program that returns or raises. -/
def Asks (Q : Type) (A : Q → Type) (ε α : Type) := Program Q A (Except ε α)

namespace Asks

variable {Q : Type} {A : Q → Type} {α β ε K : Type}

protected def bind (x : Asks Q A ε α) (f : α → Asks Q A ε β) : Asks Q A ε β :=
  Program.bind x fun
    | .ok a => f a
    | .error e => .done (.error e)

instance : Monad (Asks Q A ε) where
  pure a := .done (.ok a)
  bind := Asks.bind

def raise (e : ε) : Asks Q A ε α := .done (.error e)

def request (q : Q) : Asks Q A ε (A q) := .ask q fun a => .done (.ok a)

/-- `try: x except e: handle e` -/
def attempt (x : Asks Q A ε α) (handle : ε → Asks Q A ε α) : Asks Q A ε α :=
  Program.bind x fun
    | .ok a => .done (.ok a)
    | .error e => handle e

/-- `Keeps` with a postcondition for each way out. -/
def Keeps (G : Guard Q A K) (ret : K → α → Prop) (exc : K → ε → Prop) (x : Asks Q A ε α) (k : K) :
    Prop :=
  Program.Keeps G (fun k r => match r with | .ok a => ret k a | .error e => exc k e) x k

variable {G : Guard Q A K} {ret ret' : K → α → Prop} {exc exc' : K → ε → Prop} {k : K}
    {x : Asks Q A ε α}

theorem Keeps.pure {a : α} (h : ret k a) : Keeps G ret exc (Pure.pure a) k := h

theorem Keeps.raise {e : ε} (h : exc k e) : Keeps G ret exc (Asks.raise e) k := h

theorem Keeps.request {q : Q} {ret : K → A q → Prop} (hmay : G.may k q) (hret : ∀ a, G.sees k q a →
    ret (G.learn k q a) a) :
    Keeps G ret exc (Asks.request q) k := ⟨hmay, hret⟩

theorem Keeps.mono (h : Keeps G ret exc x k) (hret : ∀ k a, ret k a → ret' k a)
    (hexc : ∀ k e, exc k e → exc' k e) :
    Keeps G ret' exc' x k := by
  refine Program.Keeps.mono h fun k r hr => ?_
  cases r with
  | ok a => exact hret k a hr
  | error e => exact hexc k e hr

theorem Keeps.bind {f : α → Asks Q A ε β} {ret : K → β → Prop}
    (h : Keeps G (fun k a => Keeps G ret exc (f a) k) exc x k) :
    Keeps G ret exc (x >>= f) k := by
  refine Program.Keeps.bind (Program.Keeps.mono h fun k r hr => ?_)
  cases r with
  | ok a => exact hr
  | error e => exact hr

theorem Keeps.attempt {handle : ε → Asks Q A ε α}
    (h : Keeps G ret (fun k e => Keeps G ret exc (handle e) k) x k) :
    Keeps G ret exc (x.attempt handle) k := by
  refine Program.Keeps.bind (Program.Keeps.mono h fun k r hr => ?_)
  cases r with
  | ok a => exact hr
  | error e => exact hr

end Asks

/-! ## Side by side -/

/-- Requests `ρ` start programs that run under a label; the state answers queries, for some choice
of what is open. -/
structure Server (ρ L χ Q : Type) (A : Q → Type) (α σ : Type) where
  label : ρ → L
  program : ρ → Program Q A α
  starts : σ → ρ → Bool
  serve : σ → χ → (q : Q) → Option (σ × A q)

structure Pool (L Q : Type) (A : Q → Type) (α σ : Type) where
  shared : σ
  threads : Nat → Option (L × Program Q A α) := fun _ => none

namespace Pool

variable {L Q : Type} {A : Q → Type} {α : Type} {low : L → Bool}

theorem filter_update {f g : Nat → Option (L × Program Q A α)} (h : ∀ n, g n = (f n).filter fun x =>
    low x.1) (n : Nat)
    {x y : Option (L × Program Q A α)} (hx : x.filter (fun y => low y.1) = y) (m : Nat) :
    Function.update g n y m = (Function.update f n x m).filter fun y => low y.1 := by
  by_cases hm : m = n
  · subst hm
    rw [Function.update_self, Function.update_self, hx]
  · rw [Function.update_of_ne hm, Function.update_of_ne hm]
    exact h m

end Pool

inductive Turn (ρ L χ : Type)
  | start (n : Nat) (r : ρ)
  | tick (n : Nat) (l : L) (c : χ)
  /-- A thread is given up. -/
  | drop (n : Nat) (l : L)

def Turn.drops {ρ L χ : Type} (n : Nat) : Turn ρ L χ → Bool
  | .drop m _ => m = n
  | _ => false

namespace Server

variable {ρ L χ Q : Type} {A : Q → Type} {α σ K : Type} [DecidableEq L]

variable (S : Server ρ L χ Q A α σ)

def turnLabel : Turn ρ L χ → L
  | .start _ r => S.label r
  | .tick _ l _ => l
  | .drop _ l => l

def step (w : Pool L Q A α σ) : Turn ρ L χ → Option (Pool L Q A α σ)
  | .start n r =>
    if (w.threads n).isNone && S.starts w.shared r then
      some { w with threads := Function.update w.threads n (some (S.label r, S.program r)) }
    else none
  | .tick n l c =>
    match w.threads n with
    | some (l', .ask q k) =>
      if l' = l then
        (S.serve w.shared c q).map fun x =>
          { shared := x.1, threads := Function.update w.threads n (some (l, k x.2)) }
      else none
    | _ => none
  | .drop n l =>
    match w.threads n with
    | some (l', _) =>
      if l' = l then some { w with threads := Function.update w.threads n none } else none
    | none => none

/-- What a turn does. -/
inductive Taken (w : Pool L Q A α σ) : Turn ρ L χ → Pool L Q A α σ → Prop
  | start {n : Nat} {r : ρ} (hfree : w.threads n = none) (hstarts : S.starts w.shared r = true) :
      Taken w (.start n r)
      { w with threads := Function.update w.threads n (some (S.label r, S.program r)) }
  | tick {n : Nat} {l : L} {c : χ} {q : Q} {k : A q → Program Q A α} {s : σ} {a : A q}
      (hthread : w.threads n = some (l, .ask q k)) (hserve : S.serve w.shared c q = some (s, a)) :
      Taken w (.tick n l c) { shared := s, threads := Function.update w.threads n (some (l, k a)) }
  | drop {n : Nat} {l : L} {p : Program Q A α} (hthread : w.threads n = some (l, p)) :
      Taken w (.drop n l) { w with threads := Function.update w.threads n none }

/-- The server that gives only some of the answers. -/
def restrict (allowed : σ → χ → Q → Bool) : Server ρ L χ Q A α σ where
  label := S.label
  program := S.program
  starts := S.starts
  serve s c q := if allowed s c q then S.serve s c q else none

variable {S} {w w' v v' : Pool L Q A α σ} {e : Turn ρ L χ}

omit [DecidableEq L] in
theorem restrict_serve {allowed : σ → χ → Q → Bool} {s s' : σ} {c : χ} {q : Q} {a : A q}
    (h : (S.restrict allowed).serve s c q = some (s', a)) :
    allowed s c q = true ∧ S.serve s c q = some (s', a) := by
  unfold restrict at h
  dsimp only at h
  split at h
  · next hallowed => exact ⟨hallowed, h⟩
  · cases h

theorem step_eq_some : S.step w e = some w' ↔ S.Taken w e w' := by
  constructor
  · intro h
    cases e with
    | start n r =>
      unfold step at h
      dsimp only at h
      split at h
      · next hready =>
        cases h
        rw [Bool.and_eq_true, Option.isNone_iff_eq_none] at hready
        exact .start hready.1 hready.2
      · cases h
    | tick n l c =>
      unfold step at h
      dsimp only at h
      split at h
      · next l' q k hthread =>
        split at h
        · next hl =>
          subst hl
          obtain ⟨⟨s, a⟩, hserve, rfl⟩ := Option.map_eq_some_iff.1 h
          exact .tick hthread hserve
        · cases h
      · cases h
    | drop n l =>
      unfold step at h
      dsimp only at h
      split at h
      · next l' p hthread =>
        split at h
        · next hl =>
          subst hl
          cases h
          exact .drop hthread
        · cases h
      · cases h
  · rintro (⟨hfree, hstarts⟩ | ⟨hthread, hserve⟩ | ⟨hthread⟩)
    · unfold step
      dsimp only
      rw [hfree, hstarts]
      rfl
    · unfold step
      dsimp only
      rw [hthread]
      dsimp only
      rw [if_pos rfl, hserve]
      rfl
    · unfold step
      dsimp only
      rw [hthread]
      dsimp only
      rw [if_pos rfl]

/-! ### Guarded -/

/-- What the guards know is true and stays so, whoever asks. -/
structure Guarded (S : Server ρ L χ Q A α σ) (G : L → Guard Q A K) (inv : σ → Prop)
    (valid : L → K → σ → Prop)
    (post : L → K → α → Prop) : Prop where
  start : ∀ s r, inv s → S.starts s r = true →
    ∃ k, valid (S.label r) k s ∧ (S.program r).Keeps (G (S.label r)) (post (S.label r)) k
  serve : ∀ s s' l k q c a, inv s → valid l k s → (G l).may k q → S.serve s c q = some (s', a) →
    inv s' ∧ (G l).sees k q a ∧ valid l ((G l).learn k q a) s'
  stable : ∀ s s' l k q c a, inv s → valid l k s → (G l).may k q → S.serve s c q = some (s', a) →
    ∀ l' k', valid l' k' s → valid l' k' s'

/-- Every thread keeps its guard, from something that is true. -/
def Sound (G : L → Guard Q A K) (inv : σ → Prop) (valid : L → K → σ → Prop)
    (post : L → K → α → Prop) (w : Pool L Q A α σ) : Prop :=
  inv w.shared ∧ ∀ n l p, w.threads n = some (l, p) → ∃ k, valid l k w.shared ∧
    Program.Keeps (G l) (post l) p k

namespace Guarded

variable {G : L → Guard Q A K} {inv : σ → Prop} {valid : L → K → σ → Prop} {post : L → K → α → Prop}

theorem step (h : S.Guarded G inv valid post) (hw : Sound G inv valid post w)
    (hstep : S.step w e = some w') :
    Sound G inv valid post w' := by
  obtain ⟨hinv, hthreads⟩ := hw
  rcases step_eq_some.1 hstep with ⟨hfree, hstarts⟩ | ⟨hthread, hserve⟩ | ⟨hthread⟩
  · next n r =>
    refine ⟨hinv, ?_⟩
    intro m l p hm
    dsimp only at hm ⊢
    by_cases hmn : m = n
    · subst hmn
      rw [Function.update_self] at hm
      cases hm
      exact h.start _ r hinv hstarts
    · rw [Function.update_of_ne hmn] at hm
      exact hthreads m l p hm
  · next n l c q k s a =>
    obtain ⟨known, hvalid, hmay, hnext⟩ := hthreads n l _ hthread
    obtain ⟨hinv', hsees, hlearn⟩ := h.serve _ _ _ _ _ _ _ hinv hvalid hmay hserve
    refine ⟨hinv', ?_⟩
    intro m l' p hm
    dsimp only at hm ⊢
    by_cases hmn : m = n
    · subst hmn
      rw [Function.update_self] at hm
      cases hm
      exact ⟨_, hlearn, hnext a hsees⟩
    · rw [Function.update_of_ne hmn] at hm
      obtain ⟨known', hvalid', hkeeps⟩ := hthreads m l' p hm
      exact ⟨known', h.stable _ _ _ _ _ _ _ hinv hvalid hmay hserve l' known' hvalid', hkeeps⟩
  · next n l p =>
    refine ⟨hinv, ?_⟩
    intro m l' p' hm
    dsimp only at hm
    by_cases hmn : m = n
    · subst hmn
      rw [Function.update_self] at hm
      cases hm
    · rw [Function.update_of_ne hmn] at hm
      exact hthreads m l' p' hm

theorem reaches (h : S.Guarded G inv valid post) (hw : Sound G inv valid post w)
    (hrun : Machine.Reaches S.step Machine.Any w w') :
    Sound G inv valid post w' :=
  hrun.invariant (fun _ _ _ hsound _ hstep => h.step hsound hstep) hw

/-- A thread that runs, and something it knows. -/
def Knows (G : L → Guard Q A K) (valid : L → K → σ → Prop) (post : L → K → α → Prop) (n : Nat)
    (P : K → Prop)
    (w : Pool L Q A α σ) : Prop :=
  ∃ l p k, w.threads n = some (l, p) ∧ valid l k w.shared ∧ Program.Keeps (G l) (post l) p k ∧ P k

/-- What a thread cannot unlearn it knows until it is given up. -/
theorem knows_step (h : S.Guarded G inv valid post) {n : Nat} {P : K → Prop}
    (hP : ∀ l k q a, P k → P ((G l).learn k q a))
    (hw : Sound G inv valid post w) (hknows : Knows G valid post n P w) (he : e.drops n = false)
    (hstep : S.step w e = some w') :
    Knows G valid post n P w' := by
  obtain ⟨l, p, k, hthread, hvalid, hkeeps, hk⟩ := hknows
  rcases step_eq_some.1 hstep with ⟨hfree, -⟩ | ⟨hother, hserve⟩ | ⟨hother⟩
  · next m r =>
    have hmn : n ≠ m := by
      rintro rfl
      rw [hthread] at hfree
      cases hfree
    exact ⟨l, p, k, (Function.update_of_ne hmn _ _).trans hthread, hvalid, hkeeps, hk⟩
  · next m l' c q f s a =>
    by_cases hmn : n = m
    · subst hmn
      rw [hthread] at hother
      cases hother
      obtain ⟨hmay, hnext⟩ := hkeeps
      obtain ⟨-, hsees, hlearn⟩ := h.serve _ _ _ _ _ _ _ hw.1 hvalid hmay hserve
      exact ⟨l, f a, _, Function.update_self _ _ _, hlearn, hnext a hsees, hP l k q a hk⟩
    · obtain ⟨k', hvalid', hmay', -⟩ := hw.2 m l' _ hother
      exact ⟨l, p, k, (Function.update_of_ne hmn _ _).trans hthread,
        h.stable _ _ _ _ _ _ _ hw.1 hvalid' hmay' hserve l k hvalid,
        hkeeps, hk⟩
  · next m l' p' =>
    have hmn : n ≠ m := by
      rintro rfl
      exact absurd he (by simp [Turn.drops])
    exact ⟨l, p, k, (Function.update_of_ne hmn _ _).trans hthread, hvalid, hkeeps, hk⟩

theorem knows_reaches (h : S.Guarded G inv valid post) {n : Nat} {P : K → Prop}
    (hP : ∀ l k q a, P k → P ((G l).learn k q a))
    (hw : Sound G inv valid post w) (hknows : Knows G valid post n P w)
    (hrun : Machine.Reaches S.step (fun _ e => e.drops n = false) w w') :
        Knows G valid post n P w' := by
  refine (hrun.invariant (I := fun w => Sound G inv valid post w ∧ Knows G valid post n P w) ?_
    ⟨hw, hknows⟩).2
  rintro w₁ e w₂ ⟨hsound, hknown⟩ he hstep
  exact ⟨h.step hsound hstep, h.knows_step hP hsound hknown he hstep⟩

end Guarded

/-! ### Isolated -/

/-- The queries of some labels depend on and change only what `same` compares, those of the others
nothing of it. -/
structure Isolates (S : Server ρ L χ Q A α σ) (G : L → Guard Q A K) (inv : σ → Prop)
    (valid : L → K → σ → Prop) (low : L → Bool)
    (same : σ → σ → Prop) : Prop where
  starts : ∀ s s' r, low (S.label r) = true → same s s' → S.starts s' r = S.starts s r
  serve : ∀ s s' s₁ l k q c a, low l = true → inv s → valid l k s → (G l).may k q → same s s' →
    S.serve s c q = some (s₁, a) →
    ∃ s₁', S.serve s' c q = some (s₁', a) ∧ same s₁ s₁'
  foreign : ∀ s s' s₁ l k q c a, low l = false → inv s → valid l k s → (G l).may k q → same s s' →
    S.serve s c q = some (s₁, a) →
    same s₁ s'

/-- `v` is `w` with the threads of the low labels only. -/
def Agree (low : L → Bool) (same : σ → σ → Prop) (w v : Pool L Q A α σ) : Prop :=
  same w.shared v.shared ∧ ∀ n, v.threads n = (w.threads n).filter fun x => low x.1

namespace Isolates

variable {G : L → Guard Q A K} {inv : σ → Prop} {valid : L → K → σ → Prop} {post : L → K → α → Prop}
    {low : L → Bool}
  {same : σ → σ → Prop}

/-- A turn of a low label happens alike where the others never ran. -/
theorem step_low (h : S.Isolates G inv valid low same) (hw : Sound G inv valid post w)
    (hagree : Agree low same w v)
    (hlow : low (S.turnLabel e) = true) (hstep : S.step w e = some w') :
    ∃ v', S.step v e = some v' ∧ Agree low same w' v' := by
  obtain ⟨hsame, hthreads⟩ := hagree
  have hkeep : ∀ l p, low l = true → (some (l, p) : Option (L × Program Q A α)).filter
      (fun x => low x.1) = some (l, p) :=
    fun l p hl => if_pos hl
  rcases step_eq_some.1 hstep with ⟨hfree, hstarts⟩ | ⟨hthread, hserve⟩ | ⟨hthread⟩
  · next n r =>
    have hfree' : v.threads n = none := by
      rw [hthreads n, hfree]
      rfl
    exact ⟨_, step_eq_some.2 (.start hfree' ((h.starts _ _ r hlow hsame).trans hstarts)), hsame,
      Pool.filter_update hthreads n (hkeep _ _ hlow)⟩
  · next n l c q k s a =>
    obtain ⟨known, hvalid, hmay, -⟩ := hw.2 n l _ hthread
    obtain ⟨s', hserve', hsame'⟩ := h.serve _ _ _ _ _ _ _ _ hlow hw.1 hvalid hmay hsame hserve
    have hthread' : v.threads n = some (l, .ask q k) := by
      rw [hthreads n, hthread]
      exact hkeep _ _ hlow
    exact ⟨_, step_eq_some.2 (.tick hthread' hserve'), hsame', Pool.filter_update hthreads n
      (hkeep _ _ hlow)⟩
  · next n l p =>
    have hthread' : v.threads n = some (l, p) := by
      rw [hthreads n, hthread]
      exact hkeep _ _ hlow
    exact ⟨_, step_eq_some.2 (.drop hthread'), hsame, Pool.filter_update hthreads n rfl⟩

/-- A turn of another label is nothing to the low ones. -/
theorem step_foreign (h : S.Isolates G inv valid low same) (hw : Sound G inv valid post w)
    (hagree : Agree low same w v)
    (hlow : low (S.turnLabel e) = false) (hstep : S.step w e = some w') : Agree low same w' v := by
  obtain ⟨hsame, hthreads⟩ := hagree
  have hhidden : ∀ l p, low l = false → (some (l, p) : Option (L × Program Q A α)).filter
      (fun x => low x.1) = none :=
    fun l p hl => if_neg (Bool.not_eq_true _ ▸ hl)
  -- where a hidden thread is put, no thread was seen before
  have hput : ∀ n x, (x : Option (L × Program Q A α)).filter (fun y => low y.1) = none →
      (w.threads n).filter (fun y => low y.1) = none →
      ∀ m, v.threads m = (Function.update w.threads n x m).filter fun y => low y.1 := by
    intro n x hx hn m
    by_cases hm : m = n
    · subst hm
      rw [Function.update_self, hx, hthreads m, hn]
    · rw [Function.update_of_ne hm]
      exact hthreads m
  rcases step_eq_some.1 hstep with ⟨hfree, hstarts⟩ | ⟨hthread, hserve⟩ | ⟨hthread⟩
  · next n r => exact ⟨hsame, hput n _ (hhidden _ _ hlow) (by rw [hfree]; rfl)⟩
  · next n l c q k s a =>
    obtain ⟨known, hvalid, hmay, -⟩ := hw.2 n l _ hthread
    refine ⟨h.foreign _ _ _ _ _ _ _ _ hlow hw.1 hvalid hmay hsame hserve,
      hput n _ (hhidden _ _ hlow) ?_⟩
    rw [hthread]
    exact hhidden _ _ hlow
  · next n l p => exact ⟨hsame, hput n none rfl (by rw [hthread]; exact hhidden _ _ hlow)⟩

/-- Every run is, for the low labels, the run of their turns alone. -/
theorem run (h : S.Isolates G inv valid low same) (hguarded : S.Guarded G inv valid post)
    {es : List (Turn ρ L χ)}
    (hw : Sound G inv valid post w) (hagree : Agree low same w v)
    (hrun : Machine.runAlong S.step Machine.Any w es = some w') :
    ∃ v', Machine.runAlong S.step Machine.Any v (es.filter fun e => low (S.turnLabel e)) = some v' ∧
        Agree low same w' v' := by
  induction es generalizing w v with
  | nil =>
    cases hrun
    exact ⟨v, rfl, hagree⟩
  | cons e es ih =>
    rw [Machine.runAlong_cons trivial] at hrun
    obtain ⟨w₁, hstep, hrest⟩ := Option.bind_eq_some_iff.1 hrun
    have hw₁ := hguarded.step hw hstep
    cases hlow : low (S.turnLabel e) with
    | true =>
      obtain ⟨v₁, hstep', hagree₁⟩ := h.step_low hw hagree hlow hstep
      obtain ⟨v', hrun', hagree'⟩ := ih hw₁ hagree₁ hrest
      refine ⟨v', ?_, hagree'⟩
      rw [List.filter_cons_of_pos (by exact hlow), Machine.runAlong_cons trivial, hstep',
        Option.bind_some]
      exact hrun'
    | false =>
      obtain ⟨v', hrun', hagree'⟩ := ih hw₁ (h.step_foreign hw hagree hlow hstep) hrest
      refine ⟨v', ?_, hagree'⟩
      rw [List.filter_cons_of_neg (by rw [hlow]; exact Bool.false_ne_true)]
      exact hrun'

end Isolates

end Server
