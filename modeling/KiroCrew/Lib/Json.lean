import KiroCrew.Lib.Str

/-!
# JSON text with ASCII output

`dumps` prints compactly and escapes everything outside printable ASCII, a code point above the
first plane as a surrogate pair; `loads` parses. A printed value is read back with the surrogate
pairs of its strings joined (`loads_dumps_join`), so as it was when none of them holds a high
surrogate (`loads_dumps`).
-/

namespace Json

inductive Value
  | null
  | bool (b : Bool)
  | int (i : Int)
  /-- A number with a fraction or an exponent, as written; also `NaN` and the infinities. -/
  | float (text : Str)
  | str (s : Str)
  | arr (items : List Value)
  | obj (fields : List (Str × Value))

/-! ## Printing -/

/-- The decimal digits of `n`, given enough fuel. -/
def digitsFuel : Nat → Nat → Str
  | 0, _ => []
  | fuel + 1, n => if n < 10 then [48 + n] else digitsFuel fuel (n / 10) ++ [48 + n % 10]

def decimal (n : Nat) : Str := digitsFuel (n + 1) n

def printInt (i : Int) : Str := if i < 0 then 45 :: decimal i.natAbs else decimal i.natAbs

def hexDigit (d : Nat) : Nat := if d < 10 then 48 + d else 87 + d

/-- `\uXXXX` -/
def escapeUnit (c : Nat) : Str :=
  [92, 117, hexDigit (c / 4096 % 16), hexDigit (c / 256 % 16), hexDigit (c / 16 % 16),
    hexDigit (c % 16)]

def escapeChar (c : Nat) : Str :=
  if c = 34 then [92, 34]
  else if c = 92 then [92, 92]
  else if c = 10 then [92, 110]
  else if c = 13 then [92, 114]
  else if c = 9 then [92, 116]
  else if c = 12 then [92, 102]
  else if c = 8 then [92, 98]
  else if 32 ≤ c ∧ c ≤ 126 then [c]
  else if c < 0x10000 then escapeUnit c
  else escapeUnit (0xD800 + (c - 0x10000) / 0x400) ++ escapeUnit (0xDC00 + (c - 0x10000) % 0x400)

def escape (s : Str) : Str := s.flatMap escapeChar

def printStr (s : Str) : Str := 34 :: escape s ++ [34]

mutual

/-- `json.dumps(value, separators=(",", ":"))` -/
def dumps : Value → Str
  | .null => [110, 117, 108, 108]
  | .bool true => [116, 114, 117, 101]
  | .bool false => [102, 97, 108, 115, 101]
  | .int i => printInt i
  | .float text => text
  | .str s => printStr s
  | .arr items => 91 :: dumpsItems items ++ [93]
  | .obj fields => 123 :: dumpsFields fields ++ [125]

def dumpsItems : List Value → Str
  | [] => []
  | [v] => dumps v
  | v :: w :: items => dumps v ++ 44 :: dumpsItems (w :: items)

def dumpsFields : List (Str × Value) → Str
  | [] => []
  | [(k, v)] => printStr k ++ 58 :: dumps v
  | (k, v) :: f :: fields => printStr k ++ 58 :: dumps v ++ 44 :: dumpsFields (f :: fields)

end

/-! ## Parsing -/

def isSpace (c : Nat) : Bool := c = 32 || c = 9 || c = 10 || c = 13
def isDigit (c : Nat) : Bool := decide (48 ≤ c ∧ c ≤ 57)

def skip (s : Str) : Str := s.dropWhile isSpace

def hexValue (c : Nat) : Option Nat :=
  if 48 ≤ c ∧ c ≤ 57 then some (c - 48)
  else if 97 ≤ c ∧ c ≤ 102 then some (c - 87)
  else if 65 ≤ c ∧ c ≤ 70 then some (c - 55)
  else none

def hex4 (a b c d : Nat) : Option Nat :=
  match hexValue a, hexValue b, hexValue c, hexValue d with
  | some a, some b, some c, some d => some (((a * 16 + b) * 16 + c) * 16 + d)
  | _, _, _, _ => none

/-- The escapes of one character after the backslash. -/
def shortEscape (c : Nat) : Option Nat :=
  if c = 34 then some 34 else if c = 92 then some 92 else if c = 47 then some 47
  else if c = 98 then some 8 else if c = 102 then some 12 else if c = 110 then some 10
  else if c = 114 then some 13 else if c = 116 then some 9 else none

def push (c : Nat) (r : Option (Str × Str)) : Option (Str × Str) :=
  r.map fun (s, rest) => (c :: s, rest)

/-- The second half of a surrogate pair: `\uXXXX` with a low surrogate, and what follows it. A
malformed escape is an error (the outer `none`). -/
def lowUnit (s : Str) : Option (Option (Nat × Str)) :=
  match s with
  | b :: e :: h1 :: h2 :: h3 :: h4 :: rest =>
    if b = 92 ∧ e = 117 then
      match hex4 h1 h2 h3 h4 with
      | none => none
      | some l => if Str.isLow l then some (some (l, rest)) else some none
    else some none
  | _ => some none

/-- A string after its opening quote, up to the closing one. -/
def stringFuel : Nat → Str → Option (Str × Str)
  | 0, _ => none
  | _ + 1, [] => none
  | fuel + 1, c :: rest =>
    if c = 34 then some ([], rest)
    else if c = 92 then
      match rest with
      | [] => none
      | e :: rest =>
        if e = 117 then
          match rest with
          | h1 :: h2 :: h3 :: h4 :: rest =>
            match hex4 h1 h2 h3 h4 with
            | none => none
            | some u =>
              if Str.isHigh u then
                match lowUnit rest with
                | none => none
                | some none => push u (stringFuel fuel rest)
                | some (some (l, rest)) =>
                  push (0x10000 + (u - 0xD800) * 0x400 + (l - 0xDC00)) (stringFuel fuel rest)
              else push u (stringFuel fuel rest)
          | _ => none
        else
          match shortEscape e with
          | none => none
          | some x => push x (stringFuel fuel rest)
    else if c < 32 then none
    else push c (stringFuel fuel rest)

def string (s : Str) : Option (Str × Str) := stringFuel s.length s

def readNat (ds : Str) : Nat := ds.foldl (fun n d => n * 10 + (d - 48)) 0

/-- The fraction of a number: a point and digits, or nothing. -/
def fraction (s : Str) : Str :=
  match s with
  | 46 :: rest => if rest.takeWhile isDigit = [] then [] else 46 :: rest.takeWhile isDigit
  | _ => []

/-- The exponent of a number, or nothing. -/
def exponent (s : Str) : Str :=
  match s with
  | e :: sign :: rest =>
    if e = 69 ∨ e = 101 then
      if sign = 43 ∨ sign = 45 then
        if rest.takeWhile isDigit = [] then [] else e :: sign :: rest.takeWhile isDigit
      else if isDigit sign then e :: (sign :: rest).takeWhile isDigit else []
    else []
  | _ => []

/-- A number, its sign already read. -/
def unsigned (negative : Bool) (s : Str) : Option (Value × Str) :=
  let ds := match s with
    | 48 :: _ => [48]
    | _ => s.takeWhile isDigit
  if ds = [] then none
  else
    let rest := s.drop ds.length
    let frac := fraction rest
    let exp := exponent (rest.drop frac.length)
    if frac = [] ∧ exp = [] then
      some (.int (if negative then -(readNat ds : Int) else readNat ds), rest)
    else some (.float ((if negative then [45] else []) ++ ds ++ frac ++ exp),
      rest.drop (frac.length + exp.length))

/-- The words of JSON, and those Python adds for floats. -/
def word (s : Str) : Option (Value × Str) :=
  let try_ (text : Str) (v : Value) : Option (Value × Str) :=
    if text.isPrefixOf s then some (v, s.drop text.length) else none
  (try_ [110, 117, 108, 108] .null).or <| (try_ [116, 114, 117, 101] (.bool true)).or <|
    (try_ [102, 97, 108, 115, 101] (.bool false)).or <|
    (try_ (Str.ofString "NaN") (.float (Str.ofString "NaN"))).or <|
    (try_ (Str.ofString "Infinity") (.float (Str.ofString "Infinity"))).or <|
    try_ (Str.ofString "-Infinity") (.float (Str.ofString "-Infinity"))

/-- A word or a number. -/
def scalar (s : Str) : Option (Value × Str) :=
  match word s with
  | some r => some r
  | none =>
    match s with
    | 45 :: rest => unsigned true rest
    | _ => unsigned false s

mutual

/-- One value; no space before it. -/
def value : Nat → Str → Option (Value × Str)
  | 0, _ => none
  | fuel + 1, s =>
    match s with
    | [] => none
    | c :: rest =>
      if c = 34 then (string rest).map fun (x, r) => (.str x, r)
      else if c = 91 then
        match skip rest with
        | [] => none
        | c :: r => if c = 93 then some (.arr [], r) else (items fuel (c :: r)).map fun (xs, r) =>
          (.arr xs, r)
      else if c = 123 then
        match skip rest with
        | [] => none
        | c :: r => if c = 125 then some (.obj [], r) else (fields fuel (c :: r)).map fun (xs, r) =>
          (.obj xs, r)
      else scalar s

/-- The items of an array, from the first value to the closing bracket. -/
def items : Nat → Str → Option (List Value × Str)
  | 0, _ => none
  | fuel + 1, s =>
    match value fuel s with
    | none => none
    | some (v, r) =>
      match skip r with
      | [] => none
      | c :: r =>
        if c = 93 then some ([v], r)
        else if c = 44 then (items fuel (skip r)).map fun (vs, r) => (v :: vs, r)
        else none

/-- The fields of an object, from the first key to the closing brace. -/
def fields : Nat → Str → Option (List (Str × Value) × Str)
  | 0, _ => none
  | fuel + 1, s =>
    match s with
    | [] => none
    | q :: s =>
      if q = 34 then
        match string s with
        | none => none
        | some (k, r) =>
          match skip r with
          | [] => none
          | colon :: r =>
            if colon = 58 then
              match value fuel (skip r) with
              | none => none
              | some (v, r) =>
                match skip r with
                | [] => none
                | c :: r =>
                  if c = 125 then some ([(k, v)], r)
                  else if c = 44 then (fields fuel (skip r)).map fun (fs, r) => ((k, v) :: fs, r)
                  else none
            else none
      else none

end

/-- `json.loads`: one value, with space around it. -/
def loads (s : Str) : Option Value :=
  match value (s.length + 1) (skip s) with
  | some (v, rest) => if skip rest = [] then some v else none
  | none => none

/-- `value.get(key)` of the dict an object becomes: the last of several equal keys counts. -/
def Value.get (fields : List (Str × Value)) (key : Str) : Option Value :=
  (fields.reverse.find? (·.1 = key)).map (·.2)

mutual

/-- Printed values that are read back: no floats, only safe strings. -/
def Value.plain : Value → Bool
  | .null | .bool _ | .int _ => true
  | .float _ => false
  | .str s => s.safe
  | .arr items => plainItems items
  | .obj fields => plainFields fields

def plainItems : List Value → Bool
  | [] => true
  | v :: items => v.plain && plainItems items

def plainFields : List (Str × Value) → Bool
  | [] => true
  | (k, v) :: fields => Str.safe k && v.plain && plainFields fields

end

mutual

/-- No floats, and only code points in its strings. -/
def Value.textual : Value → Bool
  | .null | .bool _ | .int _ => true
  | .float _ => false
  | .str s => s.valid
  | .arr items => textualItems items
  | .obj fields => textualFields fields

def textualItems : List Value → Bool
  | [] => true
  | v :: items => v.textual && textualItems items

def textualFields : List (Str × Value) → Bool
  | [] => true
  | (k, v) :: fields => Str.valid k && v.textual && textualFields fields

end

mutual

/-- The value with the surrogate pairs of its strings joined. -/
def Value.join : Value → Value
  | .str s => .str s.join
  | .arr items => .arr (joinItems items)
  | .obj fields => .obj (joinFields fields)
  | v => v

def joinItems : List Value → List Value
  | [] => []
  | v :: items => v.join :: joinItems items

def joinFields : List (Str × Value) → List (Str × Value)
  | [] => []
  | (k, v) :: fields => (Str.join k, v.join) :: joinFields fields

end

mutual

theorem textual_of_plain {v : Value} (h : v.plain = true) : v.textual = true ∧ v.join = v := by
  cases v with
  | str s => exact ⟨Str.valid_of_safe h, congrArg Value.str (Str.join_of_safe h)⟩
  | arr items =>
    obtain ⟨htextual, hjoin⟩ := textualItems_of_plain h
    exact ⟨htextual, congrArg Value.arr hjoin⟩
  | obj fields =>
    obtain ⟨htextual, hjoin⟩ := textualFields_of_plain h
    exact ⟨htextual, congrArg Value.obj hjoin⟩
  | float text => simp [Value.plain] at h
  | null | bool _ | int _ => exact ⟨rfl, rfl⟩

theorem textualItems_of_plain {items : List Value} (h : plainItems items = true) :
    textualItems items = true ∧ joinItems items = items := by
  cases items with
  | nil => exact ⟨rfl, rfl⟩
  | cons v items =>
    rw [plainItems, Bool.and_eq_true] at h
    obtain ⟨hv, hjoin⟩ := textual_of_plain h.1
    obtain ⟨hitems, hjoins⟩ := textualItems_of_plain h.2
    exact ⟨by rw [textualItems, hv, hitems]; rfl, by rw [joinItems, hjoin, hjoins]⟩

theorem textualFields_of_plain {fields : List (Str × Value)} (h : plainFields fields = true) :
    textualFields fields = true ∧ joinFields fields = fields := by
  cases fields with
  | nil => exact ⟨rfl, rfl⟩
  | cons f fields =>
    obtain ⟨k, v⟩ := f
    rw [plainFields, Bool.and_eq_true, Bool.and_eq_true] at h
    obtain ⟨hv, hjoin⟩ := textual_of_plain h.1.2
    obtain ⟨hfields, hjoins⟩ := textualFields_of_plain h.2
    exact ⟨by rw [textualFields, Str.valid_of_safe h.1.1, hv, hfields]; rfl,
      by rw [joinFields, Str.join_of_safe h.1.1, hjoin, hjoins]⟩

end

theorem plainItems_iff {items : List Value} : plainItems items = true ↔
    ∀ v ∈ items, v.plain = true := by
  induction items with
  | nil => simp [plainItems]
  | cons v items ih => simp [plainItems, ih]

theorem plainFields_iff {fields : List (Str × Value)} :
    plainFields fields = true ↔ ∀ f ∈ fields, f.1.safe = true ∧ f.2.plain = true := by
  induction fields with
  | nil => simp [plainFields]
  | cons f fields ih =>
    obtain ⟨k, v⟩ := f
    simp [plainFields, ih, and_assoc]

/-! ## Numbers -/

theorem digitsFuel_spec (fuel n : Nat) (h : n < fuel) :
    (∀ c ∈ digitsFuel fuel n, isDigit c = true) ∧ readNat (digitsFuel fuel n) = n ∧
      ∃ d ds, digitsFuel fuel n = d :: ds ∧ (d = 48 → n = 0) := by
  induction fuel generalizing n with
  | zero => omega
  | succ fuel ih =>
    unfold digitsFuel
    split
    · next hlt =>
      refine ⟨?_, ?_, 48 + n, [], rfl, by omega⟩
      · intro c hc
        obtain rfl := List.mem_singleton.1 hc
        simp only [isDigit, decide_eq_true_eq]
        omega
      · simp [readNat]
    · next hge =>
      obtain ⟨hall, hread, d, ds, hds, hd⟩ := ih (n / 10) (by omega)
      refine ⟨?_, ?_, d, ds ++ [48 + n % 10], by rw [hds]; rfl, fun h48 => ?_⟩
      · intro c hc
        rcases List.mem_append.1 hc with hc | hc
        · exact hall c hc
        · obtain rfl := List.mem_singleton.1 hc
          simp only [isDigit, decide_eq_true_eq]
          omega
      · simp only [readNat, List.foldl_append, List.foldl_cons, List.foldl_nil] at hread ⊢
        rw [hread]
        omega
      · have := hd h48
        omega

theorem isDigit_decimal {n c : Nat} (h : c ∈ decimal n) : isDigit c = true :=
  (digitsFuel_spec (n + 1) n (Nat.lt_succ_self n)).1 c h

theorem readNat_decimal (n : Nat) : readNat (decimal n) = n :=
  (digitsFuel_spec (n + 1) n (Nat.lt_succ_self n)).2.1

theorem decimal_cons (n : Nat) : ∃ d ds, decimal n = d :: ds ∧ isDigit d = true ∧
    (d = 48 → n = 0) := by
  obtain ⟨hall, -, d, ds, hds, hd⟩ := digitsFuel_spec (n + 1) n (Nat.lt_succ_self n)
  exact ⟨d, ds, hds, hall d (by rw [hds]; exact List.mem_cons_self), hd⟩

/-- What follows a printed value: the end, a comma or a closing bracket. -/
def ends : Str → Bool
  | [] => true
  | c :: _ => c = 44 || c = 93 || c = 125

theorem ends_cons {c : Nat} {rest : Str} : ends (c :: rest) = true ↔ c = 44 ∨ c = 93 ∨ c = 125 := by
  simp [ends, or_assoc]

theorem fraction_of_ends {rest : Str} (h : ends rest = true) : fraction rest = [] := by
  cases rest with
  | nil => rfl
  | cons c rest => rcases ends_cons.1 h with rfl | rfl | rfl <;> rfl

theorem exponent_of_ends {rest : Str} (h : ends rest = true) : exponent rest = [] := by
  rcases rest with _ | ⟨c, _ | ⟨sign, rest⟩⟩
  · rfl
  · rfl
  · rcases ends_cons.1 h with rfl | rfl | rfl <;> simp [exponent]

theorem takeWhile_decimal {n : Nat} {rest : Str} (h : ends rest = true) :
    (decimal n ++ rest).takeWhile isDigit = decimal n := by
  rw [List.takeWhile_append_of_pos fun c hc => isDigit_decimal hc]
  cases rest with
  | nil => simp
  | cons c rest => rcases ends_cons.1 h with rfl | rfl | rfl <;> simp [isDigit]

theorem unsigned_decimal (negative : Bool) (n : Nat) {rest : Str} (h : ends rest = true) :
    unsigned negative (decimal n ++ rest) =
      some (.int (if negative then -(n : Int) else n), rest) := by
  obtain ⟨d, ds, hds, hdigit, hzero⟩ := decimal_cons n
  have hleading : (match decimal n ++ rest with
      | 48 :: _ => [48]
      | _ => (decimal n ++ rest).takeWhile isDigit) = decimal n := by
    split
    · next heq =>
      rw [hds, List.cons_append, List.cons.injEq] at heq
      have hn := hzero heq.1
      subst hn
      rfl
    · exact takeWhile_decimal h
  unfold unsigned
  simp only [hleading]
  have hne : decimal n ≠ [] := by rw [hds]; simp
  simp [hne, fraction_of_ends h, exponent_of_ends h, readNat_decimal]

theorem word_digit {d : Nat} {s : Str} (h : isDigit d = true) : word (d :: s) = none := by
  simp only [isDigit, decide_eq_true_eq] at h
  have h1 : d ≠ 110 := by omega
  have h2 : d ≠ 116 := by omega
  have h3 : d ≠ 102 := by omega
  have h4 : d ≠ 78 := by omega
  have h5 : d ≠ 73 := by omega
  have h6 : d ≠ 45 := by omega
  have hnan : Str.ofString "NaN" = [78, 97, 78] := rfl
  have hinf : Str.ofString "Infinity" = [73, 110, 102, 105, 110, 105, 116, 121] := rfl
  have hneg : Str.ofString "-Infinity" = [45, 73, 110, 102, 105, 110, 105, 116, 121] := rfl
  simp [word, List.isPrefixOf, hnan, hinf, hneg, Ne.symm h1, Ne.symm h2, Ne.symm h3, Ne.symm h4,
    Ne.symm h5, Ne.symm h6]

theorem word_minus {d : Nat} {s : Str} (h : isDigit d = true) : word (45 :: d :: s) = none := by
  simp only [isDigit, decide_eq_true_eq] at h
  have h5 : d ≠ 73 := by omega
  have hnan : Str.ofString "NaN" = [78, 97, 78] := rfl
  have hinf : Str.ofString "Infinity" = [73, 110, 102, 105, 110, 105, 116, 121] := rfl
  have hneg : Str.ofString "-Infinity" = [45, 73, 110, 102, 105, 110, 105, 116, 121] := rfl
  simp [word, List.isPrefixOf, hnan, hinf, hneg, Ne.symm h5]

theorem scalar_printInt (i : Int) {rest : Str} (h : ends rest = true) :
    scalar (printInt i ++ rest) = some (.int i, rest) := by
  obtain ⟨d, ds, hds, hdigit, -⟩ := decimal_cons i.natAbs
  have hd : d ≠ 45 := by
    rintro rfl
    simp [isDigit] at hdigit
  unfold printInt
  split
  · next hneg =>
    rw [List.cons_append]
    unfold scalar
    rw [show word (45 :: (decimal i.natAbs ++ rest)) = none by rw [hds]; exact word_minus hdigit]
    simp only [unsigned_decimal true _ h, Option.some.injEq, Prod.mk.injEq, and_true, if_true,
      Value.int.injEq]
    omega
  · next hpos =>
    unfold scalar
    rw [show word (decimal i.natAbs ++ rest) = none by rw [hds]; exact word_digit hdigit]
    simp only
    split
    · next heq =>
      rw [hds, List.cons_append, List.cons.injEq] at heq
      exact absurd heq.1 hd
    · simp only [unsigned_decimal false _ h, Option.some.injEq, Prod.mk.injEq, and_true,
        Bool.false_eq_true, if_false,
        Value.int.injEq]
      omega

/-! ## Strings -/

theorem hexValue_hexDigit : ∀ d < 16, hexValue (hexDigit d) = some d := by decide

theorem hex4_escapeUnit {u : Nat} (h : u < 0x10000) :
    hex4 (hexDigit (u / 4096 % 16)) (hexDigit (u / 256 % 16)) (hexDigit (u / 16 % 16))
      (hexDigit (u % 16)) = some u := by
  simp only [hex4, hexValue_hexDigit _ (Nat.mod_lt _ (by decide : 0 < 16)), Option.some.injEq]
  omega

theorem lowUnit_escapeUnit {l : Nat} {rest : Str} (h : l < 0x10000) (hl : Str.isLow l = true) :
    lowUnit (escapeUnit l ++ rest) = some (some (l, rest)) := by
  simp [lowUnit, escapeUnit, hex4_escapeUnit h, hl]

/-- An escaped character is read back, one step of fuel for each. -/
theorem stringFuel_escapeChar {c fuel : Nat} {rest : Str} (hc : c < 0x110000)
    (hhigh : Str.isHigh c = false) :
    stringFuel (fuel + 1) (escapeChar c ++ rest) = push c (stringFuel fuel rest) := by
  unfold escapeChar
  split_ifs with h1 h2 h3 h4 h5 h6 h7 h8 h9
  · subst h1; simp [stringFuel, shortEscape]
  · subst h2; simp [stringFuel, shortEscape]
  · subst h3; simp [stringFuel, shortEscape]
  · subst h4; simp [stringFuel, shortEscape]
  · subst h5; simp [stringFuel, shortEscape]
  · subst h6; simp [stringFuel, shortEscape]
  · subst h7; simp [stringFuel, shortEscape]
  · have hsmall : ¬ c < 32 := by omega
    simp [stringFuel, h1, h2, hsmall]
  · -- one unit, which is no high surrogate
    simp only [escapeUnit, List.cons_append, List.nil_append, stringFuel]
    simp [hex4_escapeUnit h9, hhigh]
  · -- a surrogate pair
    have hu : 0xD800 + (c - 0x10000) / 0x400 < 0x10000 := by omega
    have hl : 0xDC00 + (c - 0x10000) % 0x400 < 0x10000 := by omega
    have hhi : Str.isHigh (0xD800 + (c - 0x10000) / 0x400) = true := by
      simp only [Str.isHigh, decide_eq_true_eq]; omega
    have hlo : Str.isLow (0xDC00 + (c - 0x10000) % 0x400) = true := by
      simp only [Str.isLow, decide_eq_true_eq]; omega
    have hvalue : 0x10000 + (c - 0x10000) / 0x400 * 0x400 + (c - 0x10000) % 0x400 = c := by omega
    rw [List.append_assoc]
    generalize hlow : escapeUnit (0xDC00 + (c - 0x10000) % 0x400) ++ rest = tail
    simp only [escapeUnit, List.cons_append, List.nil_append, stringFuel]
    rw [hex4_escapeUnit hu, ← hlow]
    simp [hhi, lowUnit_escapeUnit hl hlo, hvalue]

theorem lowUnit_of_ne {c : Nat} {s : Str} (h : c ≠ 92) : lowUnit (c :: s) = some none := by
  unfold lowUnit
  split
  · next b e h1 h2 h3 h4 rest heq =>
    cases heq
    rw [if_neg fun hc => h hc.1]
  · rfl

theorem lowUnit_short {e : Nat} {s : Str} (h : e ≠ 117) : lowUnit (92 :: e :: s) = some none := by
  unfold lowUnit
  split
  · next b e' h1 h2 h3 h4 rest heq =>
    cases heq
    rw [if_neg fun hc => h hc.2]
  · rfl

theorem lowUnit_unit {u : Nat} {rest : Str} (h : u < 0x10000) (hlow : Str.isLow u = false) :
    lowUnit (escapeUnit u ++ rest) = some none := by
  simp [lowUnit, escapeUnit, hex4_escapeUnit h, hlow]

theorem lowUnit_escapeChar {c : Nat} {rest : Str} (hc : c < 0x110000) (hlow : Str.isLow c = false) :
    lowUnit (escapeChar c ++ rest) = some none := by
  unfold escapeChar
  split_ifs with h1 h2 h3 h4 h5 h6 h7 h8 h9
  · exact lowUnit_short (by decide)
  · exact lowUnit_short (by decide)
  · exact lowUnit_short (by decide)
  · exact lowUnit_short (by decide)
  · exact lowUnit_short (by decide)
  · exact lowUnit_short (by decide)
  · exact lowUnit_short (by decide)
  · exact lowUnit_of_ne h2
  · exact lowUnit_unit h9 hlow
  · -- the first unit of a pair is a high surrogate
    rw [List.append_assoc]
    refine lowUnit_unit (by omega) ?_
    simp only [Str.isLow, decide_eq_false_iff_not]
    omega

theorem escapeChar_of_high {c : Nat} (h : Str.isHigh c = true) : escapeChar c = escapeUnit c := by
  simp only [Str.isHigh, decide_eq_true_eq] at h
  unfold escapeChar
  split_ifs <;> first | rfl | omega

theorem escapeChar_of_low {c : Nat} (h : Str.isLow c = true) : escapeChar c = escapeUnit c := by
  simp only [Str.isLow, decide_eq_true_eq] at h
  unfold escapeChar
  split_ifs <;> first | rfl | omega

/-- A high surrogate is read alone when nothing completes it. -/
theorem stringFuel_alone {c fuel : Nat} {rest : Str} (hhigh : Str.isHigh c = true)
    (hrest : lowUnit rest = some none) :
    stringFuel (fuel + 1) (escapeChar c ++ rest) = push c (stringFuel fuel rest) := by
  have hc : c < 0x10000 := by
    simp only [Str.isHigh, decide_eq_true_eq] at hhigh
    omega
  rw [escapeChar_of_high hhigh]
  simp only [escapeUnit, List.cons_append, List.nil_append, stringFuel]
  simp [hex4_escapeUnit hc, hhigh, hrest]

theorem stringFuel_pair {c d fuel : Nat} {rest : Str} (hhigh : Str.isHigh c = true)
    (hlow : Str.isLow d = true) :
    stringFuel (fuel + 1) (escapeChar c ++ (escapeChar d ++ rest)) =
      push (0x10000 + (c - 0xD800) * 0x400 + (d - 0xDC00)) (stringFuel fuel rest) := by
  have hc : c < 0x10000 := by
    simp only [Str.isHigh, decide_eq_true_eq] at hhigh
    omega
  have hd : d < 0x10000 := by
    simp only [Str.isLow, decide_eq_true_eq] at hlow
    omega
  rw [escapeChar_of_high hhigh, escapeChar_of_low hlow]
  generalize hunit : escapeUnit d ++ rest = tail
  simp only [escapeUnit, List.cons_append, List.nil_append, stringFuel]
  rw [hex4_escapeUnit hc, ← hunit]
  simp [hhigh, lowUnit_escapeUnit hd hlow]

theorem stringFuel_escape {s : Str} (h : s.valid = true) {fuel : Nat} {rest : Str}
    (hfuel : s.length < fuel) :
    stringFuel fuel (escape s ++ 34 :: rest) = some (s.join, rest) := by
  have hcons : ∀ c t, escape (c :: t) ++ 34 :: rest = escapeChar c ++ (escape t ++ 34 :: rest) := by
    simp [escape]
  induction s using Str.join.induct generalizing fuel with
  | case1 =>
    obtain ⟨fuel, rfl⟩ : ∃ f, fuel = f + 1 := ⟨fuel - 1, by simp at hfuel; omega⟩
    simp [escape, stringFuel, Str.join]
  | case2 c =>
    obtain ⟨fuel, rfl⟩ : ∃ f, fuel = f + 2 := ⟨fuel - 2, by simp at hfuel; omega⟩
    have hc := (Str.valid_cons.1 h).1
    have hend : stringFuel (fuel + 1) (escape [] ++ 34 :: rest) = some ([], rest) := by
      simp [escape, stringFuel]
    rw [hcons]
    cases hhigh : Str.isHigh c with
    | false => rw [stringFuel_escapeChar hc hhigh, hend]; rfl
    | true =>
      have hquote : lowUnit (escape [] ++ 34 :: rest) = some none := lowUnit_of_ne (by decide)
      rw [stringFuel_alone hhigh hquote, hend]
      rfl
  | case3 c d s hpair ih =>
    obtain ⟨fuel, rfl⟩ : ∃ f, fuel = f + 1 := ⟨fuel - 1, by simp at hfuel; omega⟩
    obtain ⟨_, hs⟩ := Str.valid_cons.1 (Str.valid_cons.1 h).2
    have hpair' := Bool.and_eq_true_iff.1 hpair
    rw [hcons, hcons, stringFuel_pair hpair'.1 hpair'.2, ih hs (by simp at hfuel; omega), Str.join,
      if_pos hpair]
    rfl
  | case4 c d s hpair ih =>
    obtain ⟨fuel, rfl⟩ : ∃ f, fuel = f + 1 := ⟨fuel - 1, by simp at hfuel; omega⟩
    obtain ⟨hc, hs⟩ := Str.valid_cons.1 h
    have hread : stringFuel (fuel + 1) (escapeChar c ++ (escape (d :: s) ++ 34 :: rest)) =
        push c (stringFuel fuel (escape (d :: s) ++ 34 :: rest)) := by
      cases hhigh : Str.isHigh c with
      | false => exact stringFuel_escapeChar hc hhigh
      | true =>
        refine stringFuel_alone hhigh ?_
        have hlow : Str.isLow d = false := by
          rw [hhigh, Bool.true_and] at hpair
          exact Bool.eq_false_iff.2 hpair
        rw [hcons]
        exact lowUnit_escapeChar (Str.valid_cons.1 hs).1 hlow
    rw [hcons, hread, ih hs (by simp at hfuel ⊢; omega), Str.join, if_neg hpair]
    rfl

theorem length_escapeChar (c : Nat) : 1 ≤ (escapeChar c).length := by
  unfold escapeChar
  split_ifs <;> simp [escapeUnit]

theorem length_escape (s : Str) : s.length ≤ (escape s).length := by
  induction s with
  | nil => simp
  | cons c s ih =>
    have := length_escapeChar c
    simp only [escape, List.flatMap_cons, List.length_append, List.length_cons] at ih ⊢
    omega

theorem string_escape {s rest : Str} (h : s.valid = true) : string (escape s ++ 34 :: rest) =
    some (s.join, rest) := by
  refine stringFuel_escape h ?_
  have := length_escape s
  simp only [List.length_append, List.length_cons]
  omega

/-! ## Values -/

/-- Where a value starts: neither a space nor a closing bracket. -/
def starts : Str → Bool
  | [] => false
  | c :: _ => !isSpace c && decide (c ≠ 93) && decide (c ≠ 125)

theorem skip_of_starts {s rest : Str} (h : starts s = true) : skip (s ++ rest) = s ++ rest := by
  cases s with
  | nil => simp [starts] at h
  | cons c s =>
    simp only [starts, Bool.and_eq_true, Bool.not_eq_true'] at h
    simp [skip, h.1.1]

theorem starts_cons {s : Str} (h : starts s = true) : ∃ c s', s = c :: s' ∧ c ≠ 93 ∧ c ≠ 125 := by
  cases s with
  | nil => simp [starts] at h
  | cons c s =>
    simp only [starts, Bool.and_eq_true, decide_eq_true_eq] at h
    exact ⟨c, s, rfl, h.1.2, h.2⟩

theorem skip_of_ends {c : Nat} {rest : Str} (h : ends (c :: rest) = true) :
    skip (c :: rest) = c :: rest := by
  rcases ends_cons.1 h with rfl | rfl | rfl <;> simp [skip, isSpace]

theorem starts_printInt (i : Int) : starts (printInt i) = true := by
  obtain ⟨d, ds, hds, hdigit, -⟩ := decimal_cons i.natAbs
  simp only [isDigit, decide_eq_true_eq] at hdigit
  unfold printInt
  split
  · simp [starts, isSpace]
  · rw [hds]
    simp only [starts, isSpace, Bool.and_eq_true, Bool.not_eq_true', Bool.or_eq_false_iff,
      decide_eq_false_iff_not,
      decide_eq_true_eq]
    omega

theorem starts_dumps {v : Value} (h : v.textual = true) : starts (dumps v) = true := by
  cases v with
  | null => rfl
  | bool b => cases b <;> rfl
  | int i => simpa only [dumps] using starts_printInt i
  | float text => simp [Value.textual] at h
  | str s => simp [dumps, printStr, starts, isSpace]
  | arr items => simp [dumps, starts, isSpace]
  | obj fields => simp [dumps, starts, isSpace]

theorem starts_append {s rest : Str} (h : starts s = true) : starts (s ++ rest) = true := by
  cases s with
  | nil => simp [starts] at h
  | cons c s => exact h

theorem starts_dumpsItems {v : Value} {xs : List Value} (h : textualItems (v :: xs) = true) :
    starts (dumpsItems (v :: xs)) = true := by
  simp only [textualItems, Bool.and_eq_true] at h
  cases xs with
  | nil => exact starts_dumps h.1
  | cons w xs => exact starts_append (starts_dumps h.1)

theorem dumpsFields_cons (f : Str × Value) (fs : List (Str × Value)) : ∃ s, dumpsFields (f :: fs) =
    34 :: s := by
  obtain ⟨k, v⟩ := f
  cases fs with
  | nil => exact ⟨_, rfl⟩
  | cons g fs => exact ⟨_, rfl⟩

theorem value_int (fuel : Nat) (i : Int) {rest : Str} (h : ends rest = true) :
    value (fuel + 1) (printInt i ++ rest) = some (.int i, rest) := by
  have hscalar := scalar_printInt i h
  obtain ⟨d, ds, hds, hdigit, -⟩ := decimal_cons i.natAbs
  have hfirst : ∃ c s, printInt i ++ rest = c :: s ∧ c ≠ 34 ∧ c ≠ 91 ∧ c ≠ 123 := by
    simp only [isDigit, decide_eq_true_eq] at hdigit
    unfold printInt
    split
    · exact ⟨45, _, rfl, by decide, by decide, by decide⟩
    · rw [hds]
      exact ⟨d, _, rfl, by omega, by omega, by omega⟩
  obtain ⟨c, s, hs, h1, h2, h3⟩ := hfirst
  rw [hs] at hscalar ⊢
  simp only [value, h1, h2, h3, if_false, hscalar]

mutual

/-- A printed value is read back, and what follows it is left. -/
theorem value_dumps (v : Value) (hv : v.textual = true) (fuel : Nat) (rest : Str)
    (hrest : ends rest = true)
    (hfuel : (dumps v).length < fuel) : value fuel (dumps v ++ rest) = some (v.join, rest) := by
  obtain ⟨fuel, rfl⟩ : ∃ f, fuel = f + 1 := ⟨fuel - 1, by omega⟩
  cases v with
  | null => simp [dumps, value, scalar, word, List.isPrefixOf, Value.join]
  | bool b => cases b <;> simp [dumps, value, scalar, word, List.isPrefixOf, Value.join]
  | int i =>
    simp only [dumps]
    exact value_int fuel i hrest
  | float text => simp [Value.textual] at hv
  | str s =>
    simp only [Value.textual] at hv
    simp [dumps, printStr, value, string_escape hv, Value.join]
  | arr xs =>
    simp only [Value.textual] at hv
    cases xs with
    | nil => simp [dumps, dumpsItems, value, skip, isSpace, Value.join, joinItems]
    | cons x xs =>
      have hitems := items_dumps (x :: xs) (by simp) hv fuel rest (by simp [dumps] at hfuel; omega)
      have hx : starts (dumpsItems (x :: xs)) = true := starts_dumpsItems hv
      simp only [dumps, List.cons_append, List.append_assoc, List.nil_append]
      rw [value]
      simp only [show ((91 : Nat) = 34) = False by simp, if_false, if_true, skip_of_starts hx]
      obtain ⟨c, s, hs, hc⟩ := starts_cons hx
      rw [hs] at hitems ⊢
      simp only [List.cons_append] at hitems ⊢
      simp [hc.1, hitems, Value.join]
  | obj fs =>
    simp only [Value.textual] at hv
    cases fs with
    | nil => simp [dumps, dumpsFields, value, skip, isSpace, Value.join, joinFields]
    | cons f fs =>
      have hfields :=
        fields_dumps (f :: fs) (by simp) hv fuel rest (by simp [dumps] at hfuel; omega)
      simp only [dumps, List.cons_append, List.append_assoc, List.nil_append]
      rw [value]
      obtain ⟨s, hs⟩ := dumpsFields_cons f fs
      rw [hs] at hfields ⊢
      simp only [List.cons_append] at hfields ⊢
      simp [skip, isSpace, hfields, Value.join]

theorem items_dumps (xs : List Value) (hne : xs ≠ []) (hv : textualItems xs = true) (fuel : Nat)
    (rest : Str)
    (hfuel : (dumpsItems xs).length + 1 < fuel) :
    items fuel (dumpsItems xs ++ 93 :: rest) = some (joinItems xs, rest) := by
  obtain ⟨fuel, rfl⟩ : ∃ f, fuel = f + 1 := ⟨fuel - 1, by omega⟩
  cases xs with
  | nil => exact absurd rfl hne
  | cons v xs =>
    have htextual := hv
    simp only [textualItems, Bool.and_eq_true] at htextual
    cases xs with
    | nil =>
      simp only [dumpsItems] at hfuel ⊢
      have hvalue := value_dumps v htextual.1 fuel (93 :: rest) rfl (by omega)
      simp [items, hvalue, skip, isSpace, joinItems]
    | cons w xs =>
      simp only [dumpsItems, List.length_append, List.length_cons] at hfuel
      have hvalue :=
        value_dumps v htextual.1 fuel (44 :: (dumpsItems (w :: xs) ++ 93 :: rest)) rfl (by omega)
      have hitems := items_dumps (w :: xs) (by simp) htextual.2 fuel rest (by omega)
      have hskip : skip (dumpsItems (w :: xs) ++ 93 :: rest) = _ :=
        skip_of_starts (starts_dumpsItems htextual.2)
      simp only [dumpsItems, List.append_assoc, List.cons_append]
      simp [items, hvalue, skip_of_ends (show ends (44 :: _) = true from rfl), hskip,
        hitems, joinItems]

theorem fields_dumps (fs : List (Str × Value)) (hne : fs ≠ []) (hv : textualFields fs = true)
    (fuel : Nat) (rest : Str)
    (hfuel : (dumpsFields fs).length + 1 < fuel) :
    fields fuel (dumpsFields fs ++ 125 :: rest) = some (joinFields fs, rest) := by
  obtain ⟨fuel, rfl⟩ : ∃ f, fuel = f + 1 := ⟨fuel - 1, by omega⟩
  cases fs with
  | nil => exact absurd rfl hne
  | cons f fs =>
    obtain ⟨k, v⟩ := f
    simp only [textualFields, Bool.and_eq_true] at hv
    obtain ⟨⟨hk, htextual⟩, hfs⟩ := hv
    have hcolon : ∀ s, skip (58 :: s) = 58 :: s := fun s => by simp [skip, isSpace]
    have hstart : ∀ s, skip (dumps v ++ s) = dumps v ++ s := fun s =>
      skip_of_starts (starts_dumps htextual)
    cases fs with
    | nil =>
      simp only [dumpsFields, printStr, List.cons_append, List.append_assoc, List.nil_append,
        List.length_cons,
        List.length_append] at hfuel ⊢
      have hvalue := value_dumps v htextual fuel (125 :: rest) rfl (by omega)
      simp [fields, string_escape hk, hcolon, hstart, hvalue,
        skip_of_ends (show ends (125 :: rest) = true from rfl),
        joinFields]
    | cons g fs =>
      simp only [dumpsFields, printStr, List.cons_append, List.append_assoc, List.nil_append,
        List.length_cons,
        List.length_append] at hfuel ⊢
      have hvalue :=
        value_dumps v htextual fuel (44 :: (dumpsFields (g :: fs) ++ 125 :: rest)) rfl (by omega)
      have hfields := fields_dumps (g :: fs) (by simp) hfs fuel rest (by omega)
      have hskip : skip (dumpsFields (g :: fs) ++ 125 :: rest) = dumpsFields (g :: fs) ++
          125 :: rest := by
        obtain ⟨s, hs⟩ := dumpsFields_cons g fs
        rw [hs]
        simp [skip, isSpace]
      simp [fields, string_escape hk, hcolon, hstart, hvalue,
        skip_of_ends (show ends (44 :: _) = true from rfl), hskip,
        hfields, joinFields]

end

/-- A printed value is read back with its surrogate pairs joined. -/
theorem loads_dumps_join {v : Value} (h : v.textual = true) : loads (dumps v) = some v.join := by
  have hvalue := value_dumps v h ((dumps v).length + 1) [] rfl (Nat.lt_succ_self _)
  have hskip : skip (dumps v ++ []) = dumps v ++ [] := skip_of_starts (starts_dumps h)
  simp only [List.append_nil] at hvalue hskip
  rw [loads, hskip, hvalue]
  simp [skip]

/-- A printed value is read back as it was. -/
theorem loads_dumps {v : Value} (h : v.plain = true) : loads (dumps v) = some v := by
  obtain ⟨htextual, hjoin⟩ := textual_of_plain h
  rw [loads_dumps_join htextual, hjoin]

end Json
