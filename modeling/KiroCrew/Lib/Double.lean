import KiroCrew.Lib.Json

/-!
# Double precision numbers by their exact value

A finite double is the rational it stands for, so both zeros are `finite 0`. `ofRat` rounds to the
nearest double, ties to even; `ofText` reads the text of a JSON number (`Json.Value.float`) that
way. A number is an integer or a double, as JSON text gives them and Python compares them: an
integer against a double exactly, without conversion.
-/

inductive Double
  | nan
  | infinite (negative : Bool)
  | finite (q : ℚ)
deriving DecidableEq, Repr

namespace Double

/-- The integer nearest to `q`, the even one of two. -/
def roundEven (q : ℚ) : ℤ :=
  if q - ⌊q⌋ < 1 / 2 then ⌊q⌋
  else if 1 / 2 < q - ⌊q⌋ then ⌊q⌋ + 1
  else if ⌊q⌋ % 2 = 0 then ⌊q⌋ else ⌊q⌋ + 1

/-- The distance of two doubles near `q`: 53 bits below its first one, but no less than `2 ^
-1074`. -/
def ulp (q : ℚ) : ℚ := 2 ^ max (Int.log 2 |q| - 52) (-1074)

def ofRat (q : ℚ) : Double :=
  let r := roundEven (q / ulp q) * ulp q
  if 2 ^ 1024 ≤ |r| then .infinite (decide (r < 0)) else .finite r

/-- `float(z)`; `none` is the `OverflowError`. -/
def ofInt (z : ℤ) : Option Double :=
  match ofRat z with
  | .finite q => some (.finite q)
  | _ => none

/-- The exact value of `digits`, `.digits` and `e±digits`, the last two possibly missing. -/
def decimalValue (s : Str) : ℚ :=
  let ds := s.takeWhile Json.isDigit
  let frac := (Json.fraction (s.drop ds.length)).drop 1
  let exp := (s.dropWhile fun c => c ≠ 69 && c ≠ 101).drop 1
  let e : ℤ := match exp with
    | 45 :: es => -(Json.readNat es : ℤ)
    | 43 :: es => Json.readNat es
    | es => Json.readNat es
  Json.readNat (ds ++ frac) * 10 ^ (e - frac.length)

/-- `float(text)` for the text of a JSON number. -/
def ofText (text : Str) : Double :=
  if text = Str.ofString "NaN" then .nan
  else if text = Str.ofString "Infinity" then .infinite false
  else if text = Str.ofString "-Infinity" then .infinite true
  else match text with
    | 45 :: rest => ofRat (-decimalValue rest)
    | _ => ofRat (decimalValue text)

/-- `a < b`; false when one is not a number. -/
def lt : Double → Double → Bool
  | .finite a, .finite b => decide (a < b)
  | .finite _, .infinite negative => !negative
  | .infinite negative, .finite _ => negative
  | .infinite a, .infinite b => a && !b
  | _, _ => false

def truncate (q : ℚ) : ℤ := if 0 ≤ q then ⌊q⌋ else ⌈q⌉

/-- `int(d)`; `none` is the `OverflowError` or `ValueError`. -/
def toInt : Double → Option ℤ
  | .finite q => some (truncate q)
  | _ => none

@[simp] theorem lt_irrefl (d : Double) : d.lt d = false := by
  cases d <;> simp [lt]

theorem lt_trans {a b c : Double} (h : a.lt b = true) (h' : b.lt c = true) : a.lt c = true := by
  cases a with
  | nan => simp [lt] at h
  | infinite negative => cases b <;> cases c <;> simp_all [lt]
  | finite p =>
    cases b <;> cases c <;> simp_all [lt]
    exact h.trans h'

theorem lt_or_eq_or_lt {a b : Double} (ha : a ≠ .nan) (hb : b ≠ .nan) : a.lt b = true ∨ a = b ∨
    b.lt a = true := by
  cases a with
  | nan => exact absurd rfl ha
  | infinite negative =>
    cases b with
    | nan => exact absurd rfl hb
    | infinite negative' => cases negative <;> cases negative' <;> simp [lt]
    | finite q => cases negative <;> simp [lt]
  | finite p =>
    cases b with
    | nan => exact absurd rfl hb
    | infinite negative => cases negative <;> simp [lt]
    | finite q => simpa [lt] using lt_trichotomy p q

theorem truncate_nonneg {q : ℚ} (h : 0 ≤ q) : 0 ≤ truncate q := by
  rw [truncate, if_pos h]
  exact Int.floor_nonneg.2 h

theorem truncate_lt {q : ℚ} {n : ℕ} : truncate q < n + 1 ↔ q < n + 1 := by
  rw [truncate]
  split_ifs with h
  · rw [Int.floor_lt]
    norm_cast
  · have hq : q < 0 := not_le.1 h
    have hceil : ⌈q⌉ ≤ 0 := Int.ceil_le.2 (by simpa using hq.le)
    constructor
    · intro _
      exact hq.trans (by positivity)
    · intro _
      omega

theorem roundEven_nonneg {q : ℚ} (h : 0 ≤ q) : 0 ≤ roundEven q := by
  have hfloor : 0 ≤ ⌊q⌋ := Int.floor_nonneg.2 h
  unfold roundEven
  split_ifs <;> omega

theorem ulp_pos (q : ℚ) : 0 < ulp q := by
  exact zpow_pos (by norm_num) _

theorem ofRat_nonneg {q x : ℚ} (h : 0 ≤ q) (hx : ofRat q = .finite x) : 0 ≤ x := by
  unfold ofRat at hx
  simp only at hx
  split_ifs at hx
  cases hx
  have hround : 0 ≤ roundEven (q / ulp q) := roundEven_nonneg (div_nonneg h (ulp_pos q).le)
  exact mul_nonneg (by exact_mod_cast hround) (ulp_pos q).le

theorem ofInt_eq_some {z : ℤ} {d : Double} (h : ofInt z = some d) : ∃ q, d = .finite q ∧
    ofRat z = .finite q := by
  unfold ofInt at h
  split at h
  · next q hq => exact ⟨q, by simpa using h.symm, hq⟩
  · simp at h

theorem ofInt_nonneg {z : ℤ} {q : ℚ} (h : ofInt z = some (.finite q)) (hz : 0 ≤ z) : 0 ≤ q := by
  obtain ⟨q', hd, hq⟩ := ofInt_eq_some h
  cases hd
  exact ofRat_nonneg (by exact_mod_cast hz) hq

end Double

example : Double.ofText (Str.ofString "1e400") = .infinite false := by decide +kernel
example : Double.ofText (Str.ofString "-0.1") =
    .finite (-3602879701896397 / 36028797018963968) := by decide +kernel
example : Double.ofInt (2 ^ 53 + 1) = some (.finite (2 ^ 53)) := by decide +kernel

namespace Json

/-- A value that is an `int` or a `float`; a `bool` is an `int`. -/
inductive Number
  | int (z : ℤ)
  | double (d : Double)
deriving DecidableEq, Repr

def Value.number : Value → Option Number
  | .bool b => some (.int (if b then 1 else 0))
  | .int z => some (.int z)
  | .float text => some (.double (.ofText text))
  | _ => none

/-- `bool(value)` -/
def Value.truthy : Value → Bool
  | .null => false
  | .bool b => b
  | .int z => decide (z ≠ 0)
  | .float text => decide (Double.ofText text ≠ .finite 0)
  | .str s => !s.isEmpty
  | .arr items => !items.isEmpty
  | .obj fields => !fields.isEmpty

namespace Number

/-- `float(n)` -/
def toDouble : Number → Option Double
  | .int z => Double.ofInt z
  | .double d => some d

/-- `n > q` -/
def gt : Number → ℚ → Bool
  | .int z, q => decide (q < z)
  | .double d, q => (Double.finite q).lt d

/-- A number above a nonnegative one converts to infinity or to a nonnegative double. -/
theorem toDouble_of_gt {n : Number} {q : ℚ} {d : Double} (hq : 0 ≤ q) (hgt : n.gt q = true)
    (hd : n.toDouble = some d) :
    d = .infinite false ∨ ∃ x, d = .finite x ∧ 0 ≤ x := by
  cases n with
  | int z =>
    obtain ⟨x, rfl, -⟩ := Double.ofInt_eq_some hd
    have hz : (0 : ℚ) < z := hq.trans_lt (of_decide_eq_true hgt)
    exact .inr ⟨x, rfl, Double.ofInt_nonneg hd (by exact_mod_cast hz.le)⟩
  | double d' =>
    cases hd
    cases d with
    | nan => simp [gt, Double.lt] at hgt
    | infinite negative => simpa [gt, Double.lt] using hgt
    | finite x =>
      have hx : q < x := of_decide_eq_true hgt
      exact .inr ⟨x, rfl, hq.trans hx.le⟩

end Number

end Json
