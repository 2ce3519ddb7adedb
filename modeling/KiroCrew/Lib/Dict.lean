import Mathlib

/-!
# Insertion-ordered dictionaries

A dictionary is the list of its items, oldest key first. `set` is `d[k] = v`, which leaves a key
that is there in its place, `setdefault` keeps what is there, `erase` is `del d[k]`.
-/

abbrev Dict (κ α : Type) := List (κ × α)

namespace Dict

variable {κ α : Type} [DecidableEq κ] {d : Dict κ α} {k k' : κ} {v v' : α} {x : κ × α}

def get? (d : Dict κ α) (k : κ) : Option α := (d.find? (·.1 = k)).map (·.2)

def set (d : Dict κ α) (k : κ) (v : α) : Dict κ α :=
  match d with
  | [] => [(k, v)]
  | x :: d => if x.1 = k then (k, v) :: d else x :: set d k v

def setdefault (d : Dict κ α) (k : κ) (v : α) : Dict κ α :=
  if (get? d k).isSome then d else d ++ [(k, v)]

def erase (d : Dict κ α) (k : κ) : Dict κ α := d.filter (·.1 ≠ k)

def keys (d : Dict κ α) : List κ := d.map (·.1)

theorem mem_of_get? (h : get? d k = some v) : (k, v) ∈ d := by
  obtain ⟨x, hx, rfl⟩ := Option.map_eq_some_iff.1 h
  have hkey : x.1 = k := by simpa using List.find?_some hx
  exact hkey ▸ List.mem_of_find?_eq_some hx

theorem get?_isSome : (get? d k).isSome ↔ k ∈ keys d := by
  simp only [get?, Option.isSome_map, List.find?_isSome, keys, List.mem_map, decide_eq_true_eq]

theorem get?_nil (k : κ) : get? ([] : Dict κ α) k = none := rfl

theorem get?_cons (x : κ × α) (d : Dict κ α) (k : κ) : get? (x :: d) k = if x.1 = k then some x.2
    else get? d k := by
  by_cases h : x.1 = k <;> simp [get?, h]

@[simp] theorem get?_set_self (d : Dict κ α) (k : κ) (v : α) : get? (set d k v) k = some v := by
  induction d with
  | nil => simp [set, get?_cons]
  | cons x d ih =>
    unfold set
    split_ifs with h
    · rw [get?_cons, if_pos rfl]
    · rw [get?_cons, if_neg h, ih]

theorem get?_set_of_ne (d : Dict κ α) {k k' : κ} (v : α) (h : k' ≠ k) :
    get? (set d k v) k' = get? d k' := by
  induction d with
  | nil => simp [set, get?_cons, get?_nil, h.symm]
  | cons x d ih =>
    unfold set
    split_ifs with hx
    · rw [get?_cons, get?_cons, if_neg h.symm, if_neg fun heq => h (heq.symm.trans hx)]
    · rw [get?_cons, get?_cons, ih]

theorem mem_set (h : x ∈ set d k v) : x = (k, v) ∨ x ∈ d := by
  induction d with
  | nil => exact Or.inl (List.mem_singleton.1 h)
  | cons y d ih =>
    unfold set at h
    split_ifs at h with hy
    · exact (List.mem_cons.1 h).imp_right (List.mem_cons_of_mem y)
    · rcases List.mem_cons.1 h with rfl | h
      · exact Or.inr List.mem_cons_self
      · exact (ih h).imp_right (List.mem_cons_of_mem y)

/-- What tells the items apart still does if it tells the new one from the old ones. -/
theorem nodup_map_set {β : Type} {f : κ × α → β} (h : (d.map f).Nodup)
    (hnew : ∀ x ∈ d, f x ≠ f (k, v)) :
    ((set d k v).map f).Nodup := by
  induction d with
  | nil => exact List.nodup_singleton _
  | cons y d ih =>
    rw [List.map_cons, List.nodup_cons] at h
    obtain ⟨hy, hnew⟩ := List.forall_mem_cons.1 hnew
    unfold set
    split_ifs
    · rw [List.map_cons, List.nodup_cons]
      refine ⟨fun hmem => ?_, h.2⟩
      obtain ⟨x, hx, heq⟩ := List.mem_map.1 hmem
      exact hnew x hx heq
    · rw [List.map_cons, List.nodup_cons]
      refine ⟨fun hmem => ?_, ih h.2 hnew⟩
      obtain ⟨x, hx, heq⟩ := List.mem_map.1 hmem
      rcases mem_set hx with rfl | hx
      · exact hy heq.symm
      · exact h.1 (heq ▸ List.mem_map_of_mem hx)

theorem mem_keys_setdefault : k' ∈ keys (setdefault d k v) ↔ k' = k ∨ k' ∈ keys d := by
  unfold setdefault
  split
  · next hsome =>
    refine ⟨Or.inr, ?_⟩
    rintro (rfl | h)
    · exact get?_isSome.1 hsome
    · exact h
  · simp [keys, or_comm]

end Dict
