import Mathlib

/-!
# Batches of a list

`spans n` cuts a list into runs of `n`, `pack size limit` into runs whose sizes add up to the limit
at most, or that are one item. Nothing is lost or moved (`flatten_spans`, `flatten_pack`).
-/

namespace Batches

variable {α : Type*}

/-- Runs of `n + 1` items, the last one perhaps shorter. -/
def spans (n : ℕ) : List α → List (List α)
  | [] => []
  | x :: xs => (x :: xs.take n) :: spans n (xs.drop n)
termination_by xs => xs.length
decreasing_by
  rw [List.length_drop, List.length_cons]
  omega

theorem flatten_spans (n : ℕ) (xs : List α) : (spans n xs).flatten = xs := by
  induction xs using spans.induct n with
  | case1 => simp [spans]
  | case2 x xs ih => rw [spans, List.flatten_cons, ih, List.cons_append, List.take_append_drop]

theorem length_le_of_mem_spans {n : ℕ} {xs span : List α} (h : span ∈ spans n xs) :
    span.length ≤ n + 1 := by
  induction xs using spans.induct n with
  | case1 =>
    rw [spans] at h
    cases h
  | case2 x xs ih =>
    rw [spans, List.mem_cons] at h
    rcases h with rfl | h
    · rw [List.length_cons]
      exact Nat.succ_le_succ (List.length_take_le n xs)
    · exact ih h

/-- The batches after `current`, whose sizes add up to `total`. -/
def packFrom (size : α → ℕ) (limit : ℕ) (current : List α) (total : ℕ) : List α → List (List α)
  | [] => if current = [] then [] else [current]
  | x :: xs =>
    if current ≠ [] ∧ limit < total + size x then current :: packFrom size limit [x] (size x) xs
    else packFrom size limit (current ++ [x]) (total + size x) xs

def pack (size : α → ℕ) (limit : ℕ) (xs : List α) : List (List α) := packFrom size limit [] 0 xs

variable {size : α → ℕ} {limit : ℕ}

theorem flatten_packFrom (current : List α) (total : ℕ) (xs : List α) :
    (packFrom size limit current total xs).flatten = current ++ xs := by
  induction xs generalizing current total with
  | nil =>
    rw [packFrom]
    split_ifs with h
    · rw [h]
      rfl
    · rw [List.flatten_singleton, List.append_nil]
  | cons x xs ih =>
    rw [packFrom]
    split_ifs
    · rw [List.flatten_cons, ih]
      rfl
    · rw [ih, List.append_assoc]
      rfl

theorem flatten_pack (xs : List α) : (pack size limit xs).flatten = xs := flatten_packFrom [] 0 xs

/-- A batch that is small enough, or one item. -/
def Fits (size : α → ℕ) (limit : ℕ) (batch : List α) : Prop :=
  batch.length = 1 ∨ (batch.map size).sum ≤ limit

theorem fits_of_mem_packFrom {current : List α} {total : ℕ} {xs batch : List α}
    (htotal : (current.map size).sum = total)
    (hcurrent : Fits size limit current) (h : batch ∈ packFrom size limit current total xs) :
    batch ≠ [] ∧ Fits size limit batch := by
  induction xs generalizing current total with
  | nil =>
    rw [packFrom] at h
    split_ifs at h with hnil
    · cases h
    · rw [List.mem_singleton.1 h]
      exact ⟨hnil, hcurrent⟩
  | cons x xs ih =>
    have hone : ([x].map size).sum = size x := by simp
    rw [packFrom] at h
    split_ifs at h with hfull
    · rcases List.mem_cons.1 h with rfl | h
      · exact ⟨hfull.1, hcurrent⟩
      · exact ih hone (Or.inl rfl) h
    · refine ih ?_ ?_ h
      · rw [List.map_append, List.sum_append, htotal, hone]
      · by_cases hnil : current = []
        · subst hnil
          exact Or.inl rfl
        · right
          rw [List.map_append, List.sum_append, htotal, hone]
          exact Nat.le_of_not_lt fun hlt => hfull ⟨hnil, hlt⟩

theorem fits_of_mem_pack {xs batch : List α} (h : batch ∈ pack size limit xs) : batch ≠ [] ∧
    Fits size limit batch := by
  have hnil : Fits size limit [] := Or.inr (Nat.zero_le limit)
  exact fits_of_mem_packFrom rfl hnil h

theorem length_le_of_mem_pack {xs batch : List α} (h : batch ∈ pack size limit xs) :
    batch.length ≤ xs.length := by
  have hlength := (List.sublist_flatten_of_mem h).length_le
  rwa [flatten_pack] at hlength

/-! ## Results one by one -/

theorem mapM_eq_some {β : Type*} {f : α → Option β} {xs : List α} {ys : List β} :
    xs.mapM f = some ys ↔ xs.map f = ys.map some := by
  induction xs generalizing ys with
  | nil => cases ys <;> simp
  | cons x xs ih =>
    cases ys with
    | nil =>
      simp only [List.mapM_cons, List.map_cons, List.map_nil, reduceCtorEq, iff_false]
      cases f x <;> cases xs.mapM f <;> simp
    | cons y ys =>
      simp only [List.mapM_cons, List.map_cons, List.cons.injEq, ← ih]
      cases f x <;> cases xs.mapM f <;> simp

end Batches
