import KiroCrew.Lib.Json

/-!
# What a JSON text holds

Each reader of the parser leaves a suffix of its text, so the text of an object or an array holds
its brackets (`mem_of_loads`). `sortKeys` is the order `sort_keys=True` prints a value in.
-/

namespace Json

theorem push_eq_some {c : Nat} {p : Option (Str × Str)} {x r : Str} (h : push c p = some (x, r)) :
    ∃ x', p = some (x', r) := by
  obtain ⟨⟨x', r'⟩, hp, heq⟩ := Option.map_eq_some_iff.1 h
  cases heq
  exact ⟨x', hp⟩

theorem lowUnit_suffix {s r : Str} {l : Nat} (h : lowUnit s = some (some (l, r))) : r <:+ s := by
  unfold lowUnit at h
  split at h
  · next b e h1 h2 h3 h4 rest =>
    have hsuffix : rest <:+ b :: e :: h1 :: h2 :: h3 :: h4 :: rest := ⟨[b, e, h1, h2, h3, h4], rfl⟩
    split at h
    · split at h
      · simp at h
      · split at h
        · cases h; exact hsuffix
        · simp at h
    · simp at h
  · simp at h

theorem stringFuel_suffix {fuel : Nat} {s x r : Str} (h : stringFuel fuel s = some (x, r)) :
    r <:+ s := by
  induction fuel generalizing s x with
  | zero => simp [stringFuel] at h
  | succ fuel ih =>
    -- every recursive call reads a suffix of `s`
    have hpush : ∀ {u : Nat} {t : Str}, push u (stringFuel fuel t) = some (x, r) → t <:+ s →
        r <:+ s := by
      intro u t h ht
      obtain ⟨x', hx⟩ := push_eq_some h
      exact (ih hx).trans ht
    cases s with
    | nil => simp [stringFuel] at h
    | cons c rest =>
      unfold stringFuel at h
      split at h
      · cases h
        exact List.suffix_cons _ _
      · split at h
        · split at h
          · simp at h
          · next e rest =>
            split at h
            · split at h
              · next h1 h2 h3 h4 rest =>
                have hrest : rest <:+ c :: e :: h1 :: h2 :: h3 :: h4 :: rest :=
                  ⟨[c, e, h1, h2, h3, h4], rfl⟩
                split at h
                · simp at h
                · split at h
                  · split at h
                    · simp at h
                    · exact hpush h hrest
                    · next hlow => exact hpush h ((lowUnit_suffix hlow).trans hrest)
                  · exact hpush h hrest
              · simp at h
            · split at h
              · simp at h
              · exact hpush h ⟨[c, e], rfl⟩
        · split at h
          · simp at h
          · exact hpush h (List.suffix_cons c rest)

theorem skip_suffix (s : Str) : skip s <:+ s := List.dropWhile_suffix isSpace

theorem unsigned_suffix {negative : Bool} {s r : Str} {v : Value}
    (h : unsigned negative s = some (v, r)) : r <:+ s := by
  unfold unsigned at h
  simp only at h
  split_ifs at h
  all_goals
    cases h
    first
      | exact List.drop_suffix _ _
      | exact (List.drop_suffix _ _).trans (List.drop_suffix _ _)

theorem word_suffix {s r : Str} {v : Value} (h : word s = some (v, r)) : r <:+ s := by
  simp only [word, Option.or_eq_some_iff, Option.ite_none_right_eq_some] at h
  rcases h with ⟨-, h⟩ | ⟨-, ⟨-, h⟩ | ⟨-, ⟨-, h⟩ | ⟨-, ⟨-, h⟩ | ⟨-, ⟨-, h⟩ | ⟨-, ⟨-, h⟩⟩⟩⟩⟩⟩
  all_goals
    cases h
    exact List.drop_suffix _ _

theorem scalar_suffix {s r : Str} {v : Value} (h : scalar s = some (v, r)) : r <:+ s := by
  unfold scalar at h
  split at h
  · next hw => cases h; exact word_suffix hw
  · split at h
    · exact (unsigned_suffix h).trans (List.suffix_cons _ _)
    · exact unsigned_suffix h

/-- What is left of the text is a suffix of it; an array or object leaves it after its closing
bracket. -/
theorem reader_suffix (fuel : Nat) :
    (∀ {s v r}, value fuel s = some (v, r) → r <:+ s) ∧
      (∀ {s vs r}, items fuel s = some (vs, r) → 93 :: r <:+ s) ∧
      (∀ {s fs r}, fields fuel s = some (fs, r) → 125 :: r <:+ s) := by
  induction fuel with
  | zero => simp [value, items, fields]
  | succ fuel ih =>
    obtain ⟨ihvalue, ihitems, ihfields⟩ := ih
    refine ⟨?_, ?_, ?_⟩
    · intro s v r h
      cases s with
      | nil => simp [value] at h
      | cons c rest =>
        have hskip : skip rest <:+ c :: rest := (skip_suffix rest).trans (List.suffix_cons c rest)
        unfold value at h
        simp only at h
        split at h
        · obtain ⟨⟨x, r'⟩, hx, heq⟩ := Option.map_eq_some_iff.1 h
          cases heq
          exact (stringFuel_suffix hx).trans (List.suffix_cons c rest)
        · split at h
          · split at h
            · simp at h
            · next hs =>
              rw [hs] at hskip
              split at h
              · cases h
                exact (List.suffix_cons _ _).trans hskip
              · obtain ⟨⟨x, r'⟩, hx, heq⟩ := Option.map_eq_some_iff.1 h
                cases heq
                exact (List.suffix_cons _ _).trans ((ihitems hx).trans hskip)
          · split at h
            · split at h
              · simp at h
              · next hs =>
                rw [hs] at hskip
                split at h
                · cases h
                  exact (List.suffix_cons _ _).trans hskip
                · obtain ⟨⟨x, r'⟩, hx, heq⟩ := Option.map_eq_some_iff.1 h
                  cases heq
                  exact (List.suffix_cons _ _).trans ((ihfields hx).trans hskip)
            · exact scalar_suffix h
    · intro s vs r h
      unfold items at h
      split at h
      · simp at h
      · next v r' hv =>
        have hr := (skip_suffix r').trans (ihvalue hv)
        split at h
        · simp at h
        · next hs =>
          rw [hs] at hr
          split at h
          · next hclose =>
            cases h
            rw [← hclose]
            exact hr
          · split at h
            · obtain ⟨⟨x, r''⟩, hx, heq⟩ := Option.map_eq_some_iff.1 h
              cases heq
              exact ((ihitems hx).trans (skip_suffix _)).trans ((List.suffix_cons _ _).trans hr)
            · simp at h
    · intro s fs r h
      unfold fields at h
      split at h
      · simp at h
      · next q s =>
        split at h
        · split at h
          · simp at h
          · next k t hk =>
            have ht : skip t <:+ q :: s :=
              ((skip_suffix t).trans (stringFuel_suffix hk)).trans (List.suffix_cons q s)
            split at h
            · simp at h
            · next hs =>
              rw [hs] at ht
              split at h
              · split at h
                · simp at h
                · next v t' hv =>
                  have hr := (((skip_suffix t').trans (ihvalue hv)).trans (skip_suffix _)).trans
                    ((List.suffix_cons _ _).trans ht)
                  split at h
                  · simp at h
                  · next hs =>
                    rw [hs] at hr
                    split at h
                    · next hclose =>
                      cases h
                      rw [← hclose]
                      exact hr
                    · split at h
                      · obtain ⟨⟨x, r'⟩, hx, heq⟩ := Option.map_eq_some_iff.1 h
                        cases heq
                        exact ((ihfields hx).trans (skip_suffix _)).trans
                          ((List.suffix_cons _ _).trans hr)
                      · simp at h
              · simp at h
        · simp at h

/-- An object or an array. -/
def Value.isDocument : Value → Bool
  | .arr _ | .obj _ => true
  | _ => false

theorem unsigned_isDocument {negative : Bool} {s r : Str} {v : Value}
    (h : unsigned negative s = some (v, r)) :
    v.isDocument = false := by
  unfold unsigned at h
  simp only at h
  split_ifs at h
  all_goals
    cases h
    rfl

theorem scalar_isDocument {s r : Str} {v : Value} (h : scalar s = some (v, r)) :
    v.isDocument = false := by
  unfold scalar at h
  split at h
  · next hw =>
    cases h
    simp only [word, Option.or_eq_some_iff, Option.ite_none_right_eq_some] at hw
    rcases hw with ⟨-, h⟩ | ⟨-, ⟨-, h⟩ | ⟨-, ⟨-, h⟩ | ⟨-, ⟨-, h⟩ | ⟨-, ⟨-, h⟩ | ⟨-, ⟨-, h⟩⟩⟩⟩⟩⟩
    all_goals
      cases h
      rfl
  · split at h <;> exact unsigned_isDocument h

theorem mem_of_loads {s : Str} {v : Value} (h : loads s = some v) (hv : v.isDocument = true) :
    91 ∈ s ∨ 123 ∈ s ∧ 125 ∈ s := by
  have hskip := (skip_suffix s).subset
  unfold loads at h
  split at h
  · next v' rest hvalue =>
    split at h
    · cases h
      cases hs : skip s with
      | nil => simp [hs, value] at hvalue
      | cons c t =>
        rw [hs] at hvalue hskip
        have hc : c ∈ s := hskip (by simp)
        unfold value at hvalue
        simp only at hvalue
        split at hvalue
        · obtain ⟨⟨x, r⟩, -, heq⟩ := Option.map_eq_some_iff.1 hvalue
          cases heq
          simp [Value.isDocument] at hv
        · split at hvalue
          · next h91 => exact .inl (h91 ▸ hc)
          · split at hvalue
            · next h123 =>
              have ht : ∀ x ∈ skip t, x ∈ s := fun x hx =>
                hskip (List.mem_cons_of_mem _ ((skip_suffix t).subset hx))
              refine .inr ⟨h123 ▸ hc, ?_⟩
              split at hvalue
              · simp at hvalue
              · next hs' =>
                rw [hs'] at ht
                split at hvalue
                · next h125 => exact h125 ▸ ht _ (by simp)
                · obtain ⟨⟨x, r⟩, hx, -⟩ := Option.map_eq_some_iff.1 hvalue
                  exact ht _ (((reader_suffix _).2.2 hx).subset (by simp))
            · simp [scalar_isDocument hvalue] at hv
    · simp at h
  · simp at h

/-! ## Printing -/

/-- Insertion into fields sorted by their keys. -/
def insertField (f : Str × Value) : List (Str × Value) → List (Str × Value)
  | [] => [f]
  | g :: fs => if f.1 ≤ g.1 then f :: g :: fs else g :: insertField f fs

mutual

/-- The value as `sort_keys=True` prints it. -/
def sortKeys : Value → Value
  | .arr items => .arr (sortItems items)
  | .obj fields => .obj (sortFields fields)
  | v => v

def sortItems : List Value → List Value
  | [] => []
  | v :: items => sortKeys v :: sortItems items

def sortFields : List (Str × Value) → List (Str × Value)
  | [] => []
  | (k, v) :: fields => insertField (k, sortKeys v) (sortFields fields)

end

theorem plainFields_insertField {f : Str × Value} {fs : List (Str × Value)} :
    plainFields (insertField f fs) = (plainFields [f] && plainFields fs) := by
  induction fs with
  | nil => simp [insertField, plainFields]
  | cons g fs ih =>
    unfold insertField
    split_ifs
    · simp [plainFields]
    · simp only [plainFields, ih, Bool.and_true]
      cases Str.safe f.1 <;> cases f.2.plain <;> simp

mutual

theorem plain_sortKeys (v : Value) : (sortKeys v).plain = v.plain := by
  cases v with
  | arr items => simp [sortKeys, Value.plain, plain_sortItems items]
  | obj fields => simp [sortKeys, Value.plain, plain_sortFields fields]
  | _ => rfl

theorem plain_sortItems (items : List Value) : plainItems (sortItems items) = plainItems items := by
  cases items with
  | nil => rfl
  | cons v items => simp [sortItems, plainItems, plain_sortKeys v, plain_sortItems items]

theorem plain_sortFields (fields : List (Str × Value)) : plainFields (sortFields fields) =
    plainFields fields := by
  cases fields with
  | nil => rfl
  | cons f fields =>
    simp [sortFields, plainFields_insertField, plainFields, plain_sortKeys f.2,
      plain_sortFields fields]

end

theorem textualFields_insertField {f : Str × Value} {fs : List (Str × Value)} :
    textualFields (insertField f fs) = (textualFields [f] && textualFields fs) := by
  induction fs with
  | nil => simp [insertField, textualFields]
  | cons g fs ih =>
    unfold insertField
    split_ifs
    · simp [textualFields]
    · simp only [textualFields, ih, Bool.and_true]
      cases Str.valid f.1 <;> cases f.2.textual <;> simp

mutual

theorem textual_sortKeys (v : Value) : (sortKeys v).textual = v.textual := by
  cases v with
  | arr items => simp [sortKeys, Value.textual, textual_sortItems items]
  | obj fields => simp [sortKeys, Value.textual, textual_sortFields fields]
  | _ => rfl

theorem textual_sortItems (items : List Value) : textualItems (sortItems items) =
    textualItems items := by
  cases items with
  | nil => rfl
  | cons v items => simp [sortItems, textualItems, textual_sortKeys v, textual_sortItems items]

theorem textual_sortFields (fields : List (Str × Value)) : textualFields (sortFields fields) =
    textualFields fields := by
  cases fields with
  | nil => rfl
  | cons f fields =>
    simp [sortFields, textualFields_insertField, textualFields, textual_sortKeys f.2,
      textual_sortFields fields]

end

theorem escapeChar_printable {c : Nat} (hc : c < 0x110000) : ∀ x ∈ escapeChar c, 32 ≤ x ∧
    x ≤ 126 := by
  have hhex : ∀ d < 16, 32 ≤ hexDigit d ∧ hexDigit d ≤ 126 := by decide
  have hunit : ∀ u, ∀ x ∈ escapeUnit u, 32 ≤ x ∧ x ≤ 126 := by
    intro u x hx
    simp only [escapeUnit, List.mem_cons, List.not_mem_nil, or_false] at hx
    rcases hx with rfl | rfl | rfl | rfl | rfl | rfl
    · decide
    · decide
    all_goals exact hhex _ (Nat.mod_lt _ (by decide))
  unfold escapeChar
  split_ifs
  all_goals first
    | decide
    | exact hunit c
    | (intro x hx
       simp only [List.mem_append, List.mem_singleton] at hx
       first
         | (rcases hx with hx | hx <;> exact hunit _ x hx)
         | omega)

theorem printStr_printable {s : Str} (h : s.valid = true) : ∀ x ∈ printStr s, 32 ≤ x ∧ x ≤ 126 := by
  intro x hx
  simp only [printStr, List.cons_append, List.mem_cons, List.mem_append, List.not_mem_nil,
    or_false] at hx
  rcases hx with rfl | hx | rfl
  · decide
  · obtain ⟨c, hc, hx⟩ := List.mem_flatMap.1 hx
    simp only [Str.valid, List.all_eq_true, decide_eq_true_eq] at h
    exact escapeChar_printable (h c hc) x hx
  · decide

theorem printInt_printable (i : Int) : ∀ x ∈ printInt i, 32 ≤ x ∧ x ≤ 126 := by
  intro x hx
  have hdigit : x = 45 ∨ isDigit x = true := by
    unfold printInt at hx
    split_ifs at hx
    · rcases List.mem_cons.1 hx with rfl | hx
      · exact .inl rfl
      · exact .inr (isDigit_decimal hx)
    · exact .inr (isDigit_decimal hx)
  simp only [isDigit, decide_eq_true_eq] at hdigit
  omega

mutual

theorem dumps_printable (v : Value) (h : v.textual = true) : ∀ x ∈ dumps v, 32 ≤ x ∧ x ≤ 126 := by
  cases v with
  | null => decide
  | bool b => cases b <;> decide
  | int i => exact printInt_printable i
  | float text => simp [Value.textual] at h
  | str s => exact printStr_printable h
  | arr items =>
    intro x hx
    simp only [dumps, List.cons_append, List.mem_cons, List.mem_append, List.not_mem_nil,
      or_false] at hx
    rcases hx with rfl | hx | rfl
    · decide
    · exact dumpsItems_printable items h x hx
    · decide
  | obj fields =>
    intro x hx
    simp only [dumps, List.cons_append, List.mem_cons, List.mem_append, List.not_mem_nil,
      or_false] at hx
    rcases hx with rfl | hx | rfl
    · decide
    · exact dumpsFields_printable fields h x hx
    · decide

theorem dumpsItems_printable (items : List Value) (h : textualItems items = true) :
    ∀ x ∈ dumpsItems items, 32 ≤ x ∧ x ≤ 126 := by
  match items, h with
  | [], _ => simp [dumpsItems]
  | [v], h =>
    simp only [textualItems, Bool.and_true] at h
    exact dumps_printable v h
  | v :: w :: items, h =>
    rw [textualItems, Bool.and_eq_true] at h
    intro x hx
    simp only [dumpsItems, List.mem_append, List.mem_cons] at hx
    rcases hx with hx | rfl | hx
    · exact dumps_printable v h.1 x hx
    · decide
    · exact dumpsItems_printable (w :: items) h.2 x hx

theorem dumpsFields_printable (fields : List (Str × Value)) (h : textualFields fields = true) :
    ∀ x ∈ dumpsFields fields, 32 ≤ x ∧ x ≤ 126 := by
  match fields, h with
  | [], _ => simp [dumpsFields]
  | [(k, v)], h =>
    simp only [textualFields, Bool.and_true, Bool.and_eq_true] at h
    intro x hx
    simp only [dumpsFields, List.mem_append, List.mem_cons] at hx
    rcases hx with hx | rfl | hx
    · exact printStr_printable h.1 x hx
    · decide
    · exact dumps_printable v h.2 x hx
  | (k, v) :: f :: fields, h =>
    rw [textualFields, Bool.and_eq_true, Bool.and_eq_true] at h
    intro x hx
    simp only [dumpsFields, List.append_assoc, List.mem_append, List.mem_cons,
      List.cons_append] at hx
    rcases hx with hx | rfl | hx | rfl | hx
    · exact printStr_printable h.1.1 x hx
    · decide
    · exact dumps_printable v h.1.2 x hx
    · decide
    · exact dumpsFields_printable (f :: fields) h.2 x hx

end

theorem dumps_ascii (v : Value) (h : v.plain = true) : ∀ x ∈ dumps v, 0 < x ∧ x < 128 := by
  intro x hx
  have := dumps_printable v (textual_of_plain h).1 x hx
  omega

theorem escape_printable {s : Str} (h : ∀ c ∈ s, 32 ≤ c ∧ c ≤ 126 ∧ c ≠ 34 ∧ c ≠ 92) :
    escape s = s := by
  induction s with
  | nil => rfl
  | cons c s ih =>
    obtain ⟨hlow, hhigh, hquote, hslash⟩ := h c (by simp)
    have hc : escapeChar c = [c] := by
      unfold escapeChar
      split_ifs <;> first | omega | rfl
    rw [show escape (c :: s) = escapeChar c ++ escape s from rfl, hc, ih fun x hx =>
      h x (by simp [hx])]
    rfl

/-! ## Numbers and their texts -/

theorem digit_range {n c : ℕ} (h : c ∈ decimal n) : 48 ≤ c ∧ c ≤ 57 := by
  have hdigit := isDigit_decimal h
  rwa [isDigit, decide_eq_true_eq] at hdigit

theorem decimal_inj {m n : ℕ} (h : decimal m = decimal n) : m = n := by
  rw [← readNat_decimal m, h, readNat_decimal]

theorem printInt_natCast (n : ℕ) : printInt n = decimal n := by
  rw [printInt, if_neg (by omega), Int.natAbs_natCast]

theorem length_decimal {n k : ℕ} (hk : 0 < k) (h : n < 10 ^ k) : (decimal n).length ≤ k := by
  have hfuel : ∀ fuel n k, 0 < k → n < 10 ^ k → (digitsFuel fuel n).length ≤ k := by
    intro fuel
    induction fuel with
    | zero => exact fun n k hk _ => Nat.zero_le k
    | succ fuel ih =>
      intro n k hk h
      rw [digitsFuel]
      split_ifs with hlt
      · exact hk
      · obtain ⟨k, rfl⟩ := Nat.exists_eq_add_of_lt hk
        have hpos : 0 < k := by
          rcases Nat.eq_zero_or_pos k with rfl | hpos
          · omega
          · exact hpos
        have hdiv : n / 10 < 10 ^ k := by
          rw [Nat.zero_add, pow_succ] at h
          omega
        have hle := ih (n / 10) k hpos hdiv
        rw [List.length_append, List.length_singleton]
        omega
  exact hfuel (n + 1) n k hk h

theorem length_printStr (s : Str) : (printStr s).length = (escape s).length + 2 := by
  simp [printStr]

theorem printInt_inj {i j : ℤ} (h : printInt i = printInt j) : i = j := by
  have hminus (m n : ℕ) : 45 :: decimal m ≠ decimal n := fun heq => by
    have hrange := digit_range (n := n) (c := 45) (heq ▸ List.mem_cons_self)
    omega
  unfold printInt at h
  split_ifs at h with hi hj hj
  · have := decimal_inj (List.cons_injective h)
    omega
  · exact absurd h (hminus _ _)
  · exact absurd h.symm (hminus _ _)
  · have := decimal_inj h
    omega

end Json
