import Mathlib

/-!
# Backtracking regular expressions

`rests r s` has what is left of `s` after each match of `r` at its start, in the order in which a
backtracking matcher tries them: the first alternative first, a repetition as long as it goes.
`search` says whether some match begins anywhere, `findAll` goes from match to match. Without
anchors and look-around a match does not depend on what surrounds it, so a text without a match has
no part with one (`search_infix`).
-/

inductive Regex (α : Type*)
  /-- One letter of a class. -/
  | one (p : α → Bool)
  | empty
  | seq (r r' : Regex α)
  | alt (r r' : Regex α)
  | star (r : Regex α)

namespace Regex

variable {α : Type*} {r r' : Regex α} {s t u w : List α}

def opt (r : Regex α) : Regex α := .alt r .empty

def plus (r : Regex α) : Regex α := .seq r (.star r)

/-- `r{n}` -/
def times (r : Regex α) : Nat → Regex α
  | 0 => .empty
  | n + 1 => .seq r (times r n)

/-- `r{0,n}` -/
def upTo (r : Regex α) : Nat → Regex α
  | 0 => .empty
  | n + 1 => opt (.seq r (upTo r n))

/-- One class after another. -/
def classes : List (α → Bool) → Regex α
  | [] => .empty
  | p :: ps => .seq (.one p) (classes ps)

/-- The rests after a repetition; a round that takes nothing ends it. -/
def starRests (next : List α → List (List α)) : Nat → List α → List (List α)
  | 0, s => [s]
  | fuel + 1, s =>
    ((next s).filter fun t => t.length < s.length).flatMap (starRests next fuel) ++ [s]

def rests : Regex α → List α → List (List α)
  | .one _, [] => []
  | .one p, a :: s => if p a then [s] else []
  | .empty, s => [s]
  | .seq r r', s => (rests r s).flatMap (rests r')
  | .alt r r', s => rests r s ++ rests r' s
  | .star r, s => starRests (rests r) s.length s

/-- `re.search(...) is not None` -/
def search (r : Regex α) (s : List α) : Bool := s.tails.any fun t => !(rests r t).isEmpty

/-- The first match at the start of `s` of one pattern and then another: what is left after each of
the two. -/
def twoRests (r r' : Regex α) (s : List α) : Option (List α × List α) :=
  (rests r s).findSome? fun t => (rests r' t).head?.map fun u => (t, u)

/-- What the second of two patterns takes in each match of both, from left to right without overlap;
a match must take something. -/
def findAll (r r' : Regex α) : Nat → List α → List (List α)
  | 0, _ => []
  | _ + 1, [] => []
  | fuel + 1, a :: s =>
    match twoRests r r' (a :: s) with
    | some (t, u) => t.take (t.length - u.length) :: findAll r r' fuel u
    | none => findAll r r' fuel s

theorem starRests_append {next : List α → List (List α)} (hnext : ∀ s t, t ∈ next s →
    t ++ w ∈ next (s ++ w)) :
    ∀ (fuel fuel' : Nat) (s : List α), fuel ≤ fuel' → t ∈ starRests next fuel s →
    t ++ w ∈ starRests next fuel' (s ++ w)
  | 0, 0, s, _, ht => by
    rw [List.mem_singleton.1 ht]
    exact List.mem_singleton_self _
  | 0, fuel' + 1, s, _, ht => by
    rw [List.mem_singleton.1 ht]
    exact List.mem_append_right _ (List.mem_singleton_self _)
  | fuel + 1, 0, s, hle, ht => absurd hle (Nat.not_succ_le_zero fuel)
  | fuel + 1, fuel' + 1, s, hle, ht => by
    rcases List.mem_append.1 ht with ht | ht
    · obtain ⟨u, hu, ht⟩ := List.mem_flatMap.1 ht
      obtain ⟨hu, hshort⟩ := List.mem_filter.1 hu
      refine List.mem_append_left _
        (List.mem_flatMap.2 ⟨u ++ w, List.mem_filter.2 ⟨hnext s u hu, ?_⟩, ?_⟩)
      · simpa using hshort
      · exact starRests_append hnext fuel fuel' u (Nat.le_of_succ_le_succ hle) ht
    · rw [List.mem_singleton.1 ht]
      exact List.mem_append_right _ (List.mem_singleton_self _)

theorem rests_append (h : t ∈ rests r s) (w : List α) : t ++ w ∈ rests r (s ++ w) := by
  induction r generalizing s t with
  | one p =>
    cases s with
    | nil => cases h
    | cons a s =>
      simp only [rests, List.cons_append] at h ⊢
      split_ifs at h ⊢
      · rw [List.mem_singleton.1 h]
        exact List.mem_singleton_self _
      · cases h
  | empty =>
    rw [List.mem_singleton.1 h]
    exact List.mem_singleton_self _
  | seq r r' ih ih' =>
    obtain ⟨u, hu, ht⟩ := List.mem_flatMap.1 h
    exact List.mem_flatMap.2 ⟨u ++ w, ih hu, ih' ht⟩
  | alt r r' ih ih' =>
    rcases List.mem_append.1 h with h | h
    · exact List.mem_append_left _ (ih h)
    · exact List.mem_append_right _ (ih' h)
  | star r ih =>
    exact starRests_append (fun _ _ => ih) s.length (s ++ w).length s (by simp) h

theorem search_iff : search r s = true ↔ ∃ t, t <:+ s ∧ rests r t ≠ [] := by
  simp [search]

theorem search_infix (h : search r s = false) (ht : t <:+: s) : search r t = false := by
  by_contra hne
  obtain ⟨u, ⟨v, hv⟩, hu⟩ := search_iff.1 (eq_true_of_ne_false hne)
  obtain ⟨x, hx⟩ := List.exists_mem_of_ne_nil _ hu
  obtain ⟨pre, post, rfl⟩ := ht
  have hfound : search r (pre ++ t ++ post) = true := by
    refine search_iff.2 ⟨u ++ post, ⟨pre ++ v, ?_⟩, List.ne_nil_of_mem (rests_append hx post)⟩
    rw [← hv]
    simp
  rw [hfound] at h
  cases h

end Regex
