import KiroCrew.Lib.Double
import KiroCrew.Lib.JsonText
import KiroCrew.Lib.TextDecoder

/-!
# JSON in a browser

The values of JavaScript that JSON can give: strings are code units, numbers are doubles.
`Json.Value.js` is a value of Python as a browser has it, and `Js.parse` is `JSON.parse`. What
Python prints, `JSON.parse` reads back (`parse_dumps`), surrogates included: a pair that Python
keeps as two code points is one character to both.
-/

namespace Js

inductive Value
  | null
  | bool (b : Bool)
  | number (d : Double)
  | string (s : List Nat)
  | array (items : List Value)
  /-- the last of several fields with one key counts -/
  | object (fields : List (List Nat × Value))

abbrev Fields := List (List Nat × Value)

/-- `Object.keys` -/
def keys (fields : Fields) : List (List Nat) := (fields.map (·.1)).dedup

/-- `fields[key]`; `none` is `undefined`. -/
def get (fields : Fields) (key : List Nat) : Option Value :=
  (fields.reverse.find? (·.1 = key)).map (·.2)

/-- `Number.isSafeInteger`, with the integer. -/
def safeInteger : Option Value → Option ℤ
  | some (.number (.finite q)) => if q.den = 1 ∧ |q| ≤ 2 ^ 53 - 1 then some q.num else none
  | _ => none

end Js

namespace Json

mutual

/-- The value as a browser has it. -/
def Value.js : Value → Js.Value
  | .null => .null
  | .bool b => .bool b
  | .int z => .number (.ofRat z)
  | .float text => .number (.ofText text)
  | .str s => .string (Str.units s)
  | .arr items => .array (jsItems items)
  | .obj fields => .object (jsFields fields)

def jsItems : List Value → List Js.Value
  | [] => []
  | v :: items => v.js :: jsItems items

def jsFields : List (Str × Value) → Js.Fields
  | [] => []
  | (k, v) :: fields => (Str.units k, v.js) :: jsFields fields

end

mutual

/-- Without the words that only Python reads as numbers. -/
def Value.strict : Value → Bool
  | .float text =>
    decide (text ≠ Str.ofString "NaN" ∧ text ≠ Str.ofString "Infinity" ∧
      text ≠ Str.ofString "-Infinity")
  | .arr items => strictItems items
  | .obj fields => strictFields fields
  | _ => true

def strictItems : List Value → Bool
  | [] => true
  | v :: items => v.strict && strictItems items

def strictFields : List (Str × Value) → Bool
  | [] => true
  | (_, v) :: fields => v.strict && strictFields fields

end

mutual

theorem js_join (v : Value) : v.join.js = v.js := by
  cases v with
  | str s => simp only [Value.join, Value.js, Str.units_join]
  | arr items => simp only [Value.join, Value.js, jsItems_join items]
  | obj fields => simp only [Value.join, Value.js, jsFields_join fields]
  | null | bool _ | int _ | float _ => rfl

theorem jsItems_join (items : List Value) : jsItems (joinItems items) = jsItems items := by
  cases items with
  | nil => rfl
  | cons v items => simp only [joinItems, jsItems, js_join v, jsItems_join items]

theorem jsFields_join (fields : List (Str × Value)) : jsFields (joinFields fields) =
    jsFields fields := by
  cases fields with
  | nil => rfl
  | cons f fields =>
    obtain ⟨k, v⟩ := f
    simp only [joinFields, jsFields, js_join v, jsFields_join fields, Str.units_join]

end

mutual

theorem strict_join {v : Value} (h : v.textual = true) : v.join.strict = true := by
  cases v with
  | float text => simp [Value.textual] at h
  | arr items => exact strictItems_join h
  | obj fields => exact strictFields_join h
  | null | bool _ | int _ | str _ => rfl

theorem strictItems_join {items : List Value} (h : textualItems items = true) :
    strictItems (joinItems items) = true := by
  cases items with
  | nil => rfl
  | cons v items =>
    rw [textualItems, Bool.and_eq_true] at h
    rw [joinItems, strictItems, strict_join h.1, strictItems_join h.2]
    rfl

theorem strictFields_join {fields : List (Str × Value)} (h : textualFields fields = true) :
    strictFields (joinFields fields) = true := by
  cases fields with
  | nil => rfl
  | cons f fields =>
    obtain ⟨k, v⟩ := f
    rw [textualFields, Bool.and_eq_true, Bool.and_eq_true] at h
    rw [joinFields, strictFields, strict_join h.1.2, strictFields_join h.2]
    rfl

end

theorem jsFields_eq_map (fields : List (Str × Value)) : jsFields fields = fields.map fun f =>
    (Str.units f.1, f.2.js) := by
  induction fields with
  | nil => rfl
  | cons f fields ih => rw [jsFields, ih]; rfl

end Json

namespace Json

/-! ## The length of what is read -/

theorem stringFuel_length {fuel : Nat} {s x r : Str} (hs : ∀ c ∈ s, c < 0x10000)
    (h : stringFuel fuel s = some (x, r)) :
    (Str.units x).length + r.length + 1 ≤ s.length := by
  induction fuel generalizing s x with
  | zero => simp [stringFuel] at h
  | succ fuel ih =>
    -- a unit of the string takes one unit of the text or more
    have hpush : ∀ {u : Nat} {t : Str}, push u (stringFuel fuel t) = some (x, r) → t <:+ s →
        t.length + (Str.unitsOf u).length ≤ s.length → (Str.units x).length + r.length + 1 ≤
        s.length := by
      intro u t h ht hlength
      obtain ⟨⟨x', r'⟩, hx, heq⟩ := Option.map_eq_some_iff.1 h
      cases heq
      have hle := ih (fun c hc => hs c (ht.subset hc)) hx
      rw [Str.length_units_cons]
      omega
    have htwo := Str.length_unitsOf_le
    cases s with
    | nil => simp [stringFuel] at h
    | cons c rest =>
      unfold stringFuel at h
      split at h
      · cases h
        simp [Str.units]
      · split at h
        · split at h
          · simp at h
          · next e rest =>
            split at h
            · split at h
              · next h1 h2 h3 h4 rest =>
                have hsuffix : rest <:+ c :: e :: h1 :: h2 :: h3 :: h4 :: rest :=
                  ⟨[c, e, h1, h2, h3, h4], rfl⟩
                split at h
                · simp at h
                · next u _ =>
                  have hu : rest.length + (Str.unitsOf u).length ≤
                      (c :: e :: h1 :: h2 :: h3 :: h4 :: rest).length := by
                    have hle := htwo u
                    simp only [List.length_cons]
                    omega
                  split at h
                  · split at h
                    · simp at h
                    · exact hpush h hsuffix hu
                    · next l rest' hlow =>
                      have hlow' := lowUnit_suffix hlow
                      refine hpush h (hlow'.trans hsuffix) ?_
                      have hle := htwo (65536 + (u - 55296) * 1024 + (l - 56320))
                      have hrest := hlow'.length_le
                      simp only [List.length_cons]
                      omega
                  · exact hpush h hsuffix hu
              · simp at h
            · split at h
              · simp at h
              · next u _ =>
                refine hpush h ⟨[c, e], rfl⟩ ?_
                have hle := htwo u
                simp only [List.length_cons]
                omega
        · split at h
          · simp at h
          · refine hpush h (List.suffix_cons c rest) ?_
            rw [Str.unitsOf, if_pos (hs c List.mem_cons_self)]
            exact Nat.le_refl _

theorem fields_value {fuel : Nat} {s r : Str} {fs : List (Str × Value)}
    (h : fields fuel s = some (fs, r)) :
    ∀ f ∈ fs, ∃ fuel' t r', t <:+ s ∧ value fuel' t = some (f.2, r') := by
  induction fuel generalizing s fs with
  | zero => simp [fields] at h
  | succ fuel ih =>
    unfold fields at h
    split at h
    · simp at h
    · next q s =>
      split at h
      · split at h
        · simp at h
        · next k t hk =>
          have ht : skip t <:+ q :: s :=
            ((skip_suffix t).trans (stringFuel_suffix hk)).trans (List.suffix_cons q s)
          split at h
          · simp at h
          · next hs =>
            rw [hs] at ht
            split at h
            · split at h
              · simp at h
              · next v t' hv =>
                have hvalue := (skip_suffix _).trans ((List.suffix_cons _ _).trans ht)
                have hr :=
                  (((skip_suffix t').trans ((reader_suffix _).1 hv)).trans (skip_suffix _)).trans
                  ((List.suffix_cons _ _).trans ht)
                split at h
                · simp at h
                · next hs =>
                  rw [hs] at hr
                  split at h
                  · cases h
                    intro f hf
                    rw [List.mem_singleton] at hf
                    subst hf
                    exact ⟨_, _, _, hvalue, hv⟩
                  · split at h
                    · obtain ⟨⟨x, r''⟩, hx, heq⟩ := Option.map_eq_some_iff.1 h
                      cases heq
                      intro f hf
                      rcases List.mem_cons.1 hf with rfl | hf
                      · exact ⟨_, _, _, hvalue, hv⟩
                      · obtain ⟨fuel', t, r', hsuffix, hread⟩ := ih hx f hf
                        exact ⟨fuel', t, r', hsuffix.trans
                          ((skip_suffix _).trans ((List.suffix_cons _ _).trans hr)), hread⟩
                    · simp at h
            · simp at h
      · simp at h

theorem scalar_ne_str {s : Str} (x r : Str) : scalar s ≠ some (.str x, r) := by
  have hunsigned : ∀ negative t, unsigned negative t ≠ some (.str x, r) := by
    intro negative t h
    unfold unsigned at h
    simp only at h
    split_ifs at h
    all_goals cases h
  intro h
  unfold scalar at h
  split at h
  · next hw =>
    cases h
    simp only [word, Option.or_eq_some_iff, Option.ite_none_right_eq_some] at hw
    rcases hw with ⟨-, h⟩ | ⟨-, ⟨-, h⟩ | ⟨-, ⟨-, h⟩ | ⟨-, ⟨-, h⟩ | ⟨-, ⟨-, h⟩ | ⟨-, ⟨-, h⟩⟩⟩⟩⟩⟩
    all_goals cases h
  · split at h <;> exact hunsigned _ _ h

theorem string_value {fuel : Nat} {text t x r : Str} (htext : ∀ c ∈ text, c < 0x10000)
    (ht : t <:+ text)
    (h : value fuel t = some (.str x, r)) : (Str.units x).length + 2 ≤ text.length := by
  have hle := ht.length_le
  cases fuel with
  | zero => simp [value] at h
  | succ fuel =>
    cases t with
    | nil => simp [value] at h
    | cons c t =>
      unfold value at h
      simp only at h
      split at h
      · obtain ⟨⟨x', r'⟩, hx, heq⟩ := Option.map_eq_some_iff.1 h
        cases heq
        have hlength :=
          stringFuel_length (fun c hc => htext c (ht.subset (List.mem_cons_of_mem _ hc))) hx
        rw [List.length_cons] at hle
        dsimp only
        omega
      · split at h
        · split at h
          · simp at h
          · split at h
            · cases h
            · obtain ⟨_, _, heq⟩ := Option.map_eq_some_iff.1 h
              cases heq
        · split at h
          · split at h
            · simp at h
            · split at h
              · cases h
              · obtain ⟨_, _, heq⟩ := Option.map_eq_some_iff.1 h
                cases heq
          · exact absurd h (scalar_ne_str x r)

theorem loads_string {fields : List (Str × Value)} {text k x : Str}
    (htext : ∀ c ∈ text, c < 0x10000)
    (h : loads text = some (.obj fields)) (hx : (k, .str x) ∈ fields) : (Str.units x).length + 2 ≤
    text.length := by
  have hskip := (skip_suffix text)
  unfold loads at h
  split at h
  · next v rest hvalue =>
    split_ifs at h
    cases h
    cases hs : skip text with
    | nil => simp [hs, value] at hvalue
    | cons c t =>
      rw [hs] at hvalue hskip
      unfold value at hvalue
      simp only at hvalue
      split at hvalue
      · obtain ⟨_, _, heq⟩ := Option.map_eq_some_iff.1 hvalue
        cases heq
      · split at hvalue
        · split at hvalue
          · simp at hvalue
          · split at hvalue
            · cases hvalue
            · obtain ⟨_, _, heq⟩ := Option.map_eq_some_iff.1 hvalue
              cases heq
        · split at hvalue
          · have ht : skip t <:+ text := (skip_suffix t).trans ((List.suffix_cons c t).trans hskip)
            split at hvalue
            · simp at hvalue
            · next hs' =>
              rw [hs'] at ht
              split at hvalue
              · cases hvalue
                cases hx
              · obtain ⟨⟨fs, r⟩, hfields, heq⟩ := Option.map_eq_some_iff.1 hvalue
                cases heq
                obtain ⟨fuel, u, r', hu, hread⟩ := fields_value hfields _ hx
                exact string_value htext (hu.trans ht) hread
          · have hscalar := scalar_isDocument hvalue
            cases hscalar
  · cases h

end Json

namespace Js

/-- `JSON.parse` -/
def parse (text : List Nat) : Option Value :=
  (Json.loads text).bind fun v => if v.strict then some v.js else none

theorem parse_dumps {v : Json.Value} (h : v.textual = true) : parse (Json.dumps v) = some v.js := by
  rw [parse, Json.loads_dumps_join h, Option.bind_some, if_pos (Json.strict_join h), Json.js_join]

theorem length_of_parse {text key d : Str} {fields : Fields} (htext : ∀ c ∈ text, c < 0x10000)
    (h : parse text = some (.object fields)) (hd : get fields key = some (.string d)) :
    d.length + 2 ≤ text.length := by
  obtain ⟨v, hloads, hv⟩ := Option.bind_eq_some_iff.1 h
  split_ifs at hv
  obtain ⟨f, hfind, hf⟩ := Option.map_eq_some_iff.1 hd
  have hmem := List.mem_reverse.1 (List.mem_of_find?_eq_some hfind)
  cases v with
  | obj fs =>
    cases hv
    rw [Json.jsFields_eq_map] at hmem
    obtain ⟨⟨k, w⟩, hw, rfl⟩ := List.mem_map.1 hmem
    cases w with
    | str x =>
      cases hf
      exact Json.loads_string htext hloads hw
    | null | bool _ | int _ | float _ | arr _ | obj _ => cases hf
  | null | bool _ | int _ | float _ | str _ | arr _ => cases hv

end Js

namespace Double

theorem roundEven_int (z : ℤ) : roundEven z = z := by
  have hzero : (z : ℚ) - ⌊(z : ℚ)⌋ < 1 / 2 := by norm_num
  rw [roundEven, if_pos hzero, Int.floor_intCast]

theorem ofRat_int {z : ℤ} (h : |z| < 2 ^ 53) : ofRat z = .finite z := by
  have hexponent : max (Int.log 2 |(z : ℚ)| - 52) (-1074) ≤ 0 := by
    rcases eq_or_ne z 0 with rfl | hne
    · simp
    · have hlog : Int.log 2 |(z : ℚ)| < 53 := by
        rw [← Int.lt_zpow_iff_log_lt (by norm_num) (by positivity)]
        exact_mod_cast h
      omega
  generalize hk : max (Int.log 2 |(z : ℚ)| - 52) (-1074) = k at hexponent
  obtain ⟨n, rfl⟩ : ∃ n : ℕ, k = -n := ⟨(-k).toNat, by omega⟩
  have hulp : ulp z = (2 ^ n)⁻¹ := by rw [ulp, hk, zpow_neg, zpow_natCast]
  have hscaled : (z : ℚ) / ulp z = ((z * 2 ^ n : ℤ) : ℚ) := by
    rw [hulp]
    push_cast
    field_simp
  have hvalue : (roundEven ((z : ℚ) / ulp z) : ℚ) * ulp z = z := by
    rw [hscaled, roundEven_int, hulp]
    push_cast
    field_simp
  have hsmall : ¬ (2 : ℚ) ^ 1024 ≤ |(z : ℚ)| := by
    have hcast : |(z : ℚ)| < 2 ^ 53 := by exact_mod_cast h
    have hle : (2 : ℚ) ^ 53 ≤ 2 ^ 1024 := pow_le_pow_right₀ (by norm_num) (by norm_num)
    exact not_le.2 (hcast.trans_le hle)
  unfold ofRat
  simp only [hvalue]
  rw [if_neg hsmall]

theorem le_roundEven {z : ℤ} {q : ℚ} (h : z ≤ q) : z ≤ roundEven q := by
  have hfloor : z ≤ ⌊q⌋ := Int.le_floor.2 h
  unfold roundEven
  split_ifs <;> omega

/-- A number of more than 53 bits is rounded to one of more than 53 bits. -/
theorem le_of_ofRat {q x : ℚ} (h : 2 ^ 53 ≤ q) (hx : ofRat q = .finite x) : 2 ^ 53 ≤ x := by
  have hpos : 0 < q := lt_of_lt_of_le (by norm_num) h
  have habs : |q| = q := abs_of_pos hpos
  have hlog : 53 ≤ Int.log 2 q :=
    (Int.zpow_le_iff_le_log (by norm_num) hpos).1 (by exact_mod_cast h)
  have hulp : ulp q = 2 ^ (Int.log 2 q - 52) := by
    rw [ulp, habs, max_eq_left (by omega)]
  have htwo : 2 ≤ ulp q := by
    rw [hulp]
    calc (2 : ℚ) = 2 ^ (1 : ℤ) := by norm_num
      _ ≤ 2 ^ (Int.log 2 q - 52) := zpow_le_zpow_right₀ (by norm_num) (by omega)
  have hscaled : ((2 ^ 52 : ℤ) : ℚ) ≤ q / ulp q := by
    rw [le_div_iff₀ (ulp_pos q), hulp]
    calc ((2 ^ 52 : ℤ) : ℚ) * 2 ^ (Int.log 2 q - 52) = 2 ^ (Int.log 2 q) := by
          rw [zpow_sub₀ (by norm_num)]
          push_cast
          field_simp
      _ ≤ q := Int.zpow_log_le_self (by norm_num) hpos
  have hround : ((2 ^ 52 : ℤ) : ℚ) ≤ roundEven (q / ulp q) := by exact_mod_cast le_roundEven hscaled
  unfold ofRat at hx
  simp only at hx
  split_ifs at hx
  cases hx
  calc (2 : ℚ) ^ 53 = ((2 ^ 52 : ℤ) : ℚ) * 2 := by norm_num
    _ ≤ roundEven (q / ulp q) * ulp q :=
      mul_le_mul hround htwo (by norm_num) (le_trans (by norm_num) hround)

end Double

namespace Js

theorem safeInteger_int {z : ℤ} (h : |z| < 2 ^ 53) : safeInteger (some (Json.Value.int z).js) =
    some z := by
  have habs : |(z : ℚ)| ≤ 2 ^ 53 - 1 := by
    have hle : |z| ≤ 2 ^ 53 - 1 := by omega
    exact_mod_cast hle
  rw [Json.Value.js, Double.ofRat_int h, safeInteger, if_pos ⟨Rat.den_intCast z, habs⟩,
    Rat.num_intCast]

theorem safeInteger_nat (n : ℕ) : safeInteger (some (Json.Value.int n).js) = if n < 2 ^ 53 then
    some (n : ℤ) else none := by
  split_ifs with h
  · refine safeInteger_int ?_
    rw [abs_of_nonneg (by omega)]
    exact_mod_cast h
  · have hlarge : (2 : ℚ) ^ 53 ≤ ((n : ℤ) : ℚ) := by
      have hcast : (2 ^ 53 : ℕ) ≤ n := Nat.not_lt.1 h
      exact_mod_cast hcast
    rw [Json.Value.js]
    cases hd : Double.ofRat ((n : ℤ) : ℚ) with
    | nan => rfl
    | infinite negative => rfl
    | finite q =>
      have hq := Double.le_of_ofRat hlarge hd
      rw [safeInteger, if_neg]
      rintro ⟨_, habs⟩
      rw [abs_of_nonneg (le_trans (by norm_num) hq)] at habs
      linarith

/-! ## Printing -/

/-- A code point in the text of `JSON.stringify`, in UTF-8. A surrogate of no pair is escaped. -/
def quoteChar (c : Nat) : List Nat :=
  if c = 34 then [92, 34]
  else if c = 92 then [92, 92]
  else if c = 8 then [92, 98]
  else if c = 9 then [92, 116]
  else if c = 10 then [92, 110]
  else if c = 12 then [92, 102]
  else if c = 13 then [92, 114]
  else if c < 32 ∨ Str.isHigh c ∨ Str.isLow c then Json.escapeUnit c
  else if c < 0x80 then [c]
  else if c < 0x800 then [192 + c / 64, 128 + c % 64]
  else if c < 0x10000 then [224 + c / 4096, 128 + c / 64 % 64, 128 + c % 64]
  else [240 + c / 262144, 128 + c / 4096 % 64, 128 + c / 64 % 64, 128 + c % 64]

def quote (s : Str) : List Nat := 34 :: s.flatMap quoteChar ++ [34]

mutual

/-- `JSON.stringify` in UTF-8; the pairs of the strings are joined. -/
def stringify : Json.Value → List Nat
  | .null => [110, 117, 108, 108]
  | .bool true => [116, 114, 117, 101]
  | .bool false => [102, 97, 108, 115, 101]
  | .int z => Json.printInt z
  | .float text => text
  | .str s => quote s
  | .arr items => 91 :: stringifyItems items ++ [93]
  | .obj fields => 123 :: stringifyFields fields ++ [125]

def stringifyItems : List Json.Value → List Nat
  | [] => []
  | [v] => stringify v
  | v :: w :: items => stringify v ++ 44 :: stringifyItems (w :: items)

def stringifyFields : List (Str × Json.Value) → List Nat
  | [] => []
  | [(k, v)] => quote k ++ 58 :: stringify v
  | (k, v) :: f :: fields => quote k ++ 58 :: stringify v ++ 44 :: stringifyFields (f :: fields)

end

theorem length_quote_plain {s : Str} (h : ∀ c ∈ s, 32 ≤ c ∧ c < 0x80 ∧ c ≠ 34 ∧ c ≠ 92) :
    (quote s).length = s.length + 2 := by
  have hbody : s.flatMap quoteChar = s := by
    induction s with
    | nil => rfl
    | cons c s ih =>
      obtain ⟨⟨hlow, hhigh, hquote, hslash⟩, hs⟩ := List.forall_mem_cons.1 h
      have hsurrogate : Str.isHigh c = false ∧ Str.isLow c = false :=
        ⟨decide_eq_false (by omega), decide_eq_false (by omega)⟩
      have hc : quoteChar c = [c] := by
        unfold quoteChar
        simp only [hsurrogate, Bool.false_eq_true, or_false]
        split_ifs <;> first | omega | rfl
      rw [List.flatMap_cons, hc, ih hs]
      rfl
  rw [quote, hbody, List.length_append, List.length_cons, List.length_singleton]

theorem length_stringifyItems {items : List Json.Value} (h : items ≠ []) :
    (stringifyItems items).length + 1 = (items.map fun v => (stringify v).length + 1).sum := by
  induction items with
  | nil => exact absurd rfl h
  | cons v items ih =>
    cases items with
    | nil => simp [stringifyItems]
    | cons w items =>
      rw [stringifyItems, List.length_append, List.length_cons, List.map_cons, List.sum_cons,
        ← ih (List.cons_ne_nil w items)]
      omega

end Js
