import Mathlib

/-!
# Cutting a stream into blocks

A `Framing` finds the first block of a buffer. A reader appends each piece it gets to its buffer and
cuts off what blocks it can; `blocks_append` says that the blocks do not depend on how the stream
came in pieces. Pieces that are each ended by a separator are determined by the stream
(`terminated_inj`).
-/

structure Framing (α : Type) where
  /-- the first block and what follows its separator -/
  cut : List α → Option (List α × List α)
  shrinks : ∀ {xs block rest}, cut xs = some (block, rest) → rest.length < xs.length
  /-- what comes later does not move the first separator -/
  stable : ∀ {xs block rest} (ys), cut xs = some (block, rest) →
    cut (xs ++ ys) = some (block, rest ++ ys)

namespace Framing

variable {α : Type} (F : Framing α)

/-- The blocks of a buffer, and what is left. -/
def blocks (buffer : List α) : List (List α) × List α :=
  match h : F.cut buffer with
  | none => ([], buffer)
  | some (block, rest) =>
    have := F.shrinks h
    (block :: (blocks rest).1, (blocks rest).2)
termination_by buffer.length

theorem blocks_of_none {buffer : List α} (h : F.cut buffer = none) :
    F.blocks buffer = ([], buffer) := by
  rw [blocks]
  split
  · rfl
  · next hsome =>
    rw [h] at hsome
    cases hsome

theorem blocks_of_some {buffer block rest : List α} (h : F.cut buffer = some (block, rest)) :
    F.blocks buffer = (block :: (F.blocks rest).1, (F.blocks rest).2) := by
  rw [blocks]
  split
  · next hnone =>
    rw [h] at hnone
    cases hnone
  · next hsome =>
    rw [h] at hsome
    cases hsome
    rfl

/-- The blocks of a buffer are found before its continuation comes. -/
theorem blocks_append (xs ys : List α) :
    F.blocks (xs ++ ys) =
      ((F.blocks xs).1 ++ (F.blocks ((F.blocks xs).2 ++ ys)).1,
      (F.blocks ((F.blocks xs).2 ++ ys)).2) := by
  induction hn : xs.length using Nat.strong_induction_on generalizing xs with
  | _ n ih =>
    cases hcut : F.cut xs with
    | none => rw [F.blocks_of_none hcut, List.nil_append]
    | some p =>
      obtain ⟨block, rest⟩ := p
      rw [F.blocks_of_some hcut, F.blocks_of_some (F.stable ys hcut),
        ih rest.length (hn ▸ F.shrinks hcut) rest rfl]
      rfl

/-- The blocks that each piece completes, and the buffer at the end. -/
def feedAll (buffer : List α) : List (List α) → List (List (List α)) × List α
  | [] => ([], buffer)
  | piece :: pieces =>
    let (found, buffer) := F.blocks (buffer ++ piece)
    let (later, buffer) := feedAll buffer pieces
    (found :: later, buffer)

theorem feedAll_cons (buffer piece : List α) (pieces : List (List α)) :
    F.feedAll buffer (piece :: pieces) =
      ((F.blocks (buffer ++ piece)).1 :: (F.feedAll (F.blocks (buffer ++ piece)).2 pieces).1,
        (F.feedAll (F.blocks (buffer ++ piece)).2 pieces).2) := rfl

theorem feedAll_flatten {buffer : List α} (h : F.cut buffer = none) (pieces : List (List α)) :
    (F.feedAll buffer pieces).1.flatten = (F.blocks (buffer ++ pieces.flatten)).1 := by
  have hrest : ∀ xs, F.cut (F.blocks xs).2 = none := by
    intro xs
    induction hn : xs.length using Nat.strong_induction_on generalizing xs with
    | _ n ih =>
      cases hcut : F.cut xs with
      | none => rwa [F.blocks_of_none hcut]
      | some p =>
        obtain ⟨block, rest⟩ := p
        rw [F.blocks_of_some hcut]
        exact ih rest.length (hn ▸ F.shrinks hcut) rest rfl
  induction pieces generalizing buffer with
  | nil =>
    rw [List.flatten_nil, List.append_nil, F.blocks_of_none h]
    rfl
  | cons piece pieces ih =>
    rw [feedAll_cons, List.flatten_cons, ih (hrest _), List.flatten_cons, ← List.append_assoc,
      F.blocks_append (buffer ++ piece)]

/-! ## Pieces that are each ended by a separator -/

variable {x : α} [DecidableEq α]

theorem append_separator_inj {s s' rest rest' : List α} (h : x ∉ s) (h' : x ∉ s')
    (heq : s ++ x :: rest = s' ++ x :: rest') :
    s = s' ∧ rest = rest' := by
  have htake (s rest : List α) (h : x ∉ s) :
      (s ++ x :: rest).takeWhile (fun y => decide (y ≠ x)) = s := by
    have hpos : ∀ y ∈ s, decide (y ≠ x) = true := fun y hy =>
      decide_eq_true (ne_of_mem_of_not_mem hy h)
    rw [List.takeWhile_append_of_pos hpos, List.takeWhile_cons, if_neg (by simp), List.append_nil]
  have hs : s = s' := by rw [← htake s rest h, heq, htake s' rest' h']
  subst hs
  exact ⟨rfl, List.cons_injective (List.append_cancel_left heq)⟩

/-- The pieces are determined by their concatenation. -/
theorem terminated_inj {pieces pieces' : List (List α)} (h : ∀ s ∈ pieces, x ∉ s)
    (h' : ∀ s ∈ pieces', x ∉ s)
    (heq : pieces.flatMap (· ++ [x]) = pieces'.flatMap (· ++ [x])) : pieces = pieces' := by
  induction pieces generalizing pieces' with
  | nil =>
    cases pieces' with
    | nil => rfl
    | cons s pieces' => simp at heq
  | cons s pieces ih =>
    cases pieces' with
    | nil => simp at heq
    | cons s' pieces' =>
      rw [List.forall_mem_cons] at h h'
      simp only [List.flatMap_cons, List.append_assoc, List.singleton_append] at heq
      obtain ⟨rfl, hrest⟩ := append_separator_inj h.1 h'.1 heq
      rw [ih h.2 h'.2 hrest]

end Framing
