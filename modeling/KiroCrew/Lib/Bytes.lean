import KiroCrew.Lib.Json

/-!
# Bytes as text

Base64 with its standard alphabet, and the bytes of a JSON document: `decodeUtf8`, and `decodeJson`,
which finds the encoding first (`json.detect_encoding`). Bytes are natural numbers. `decode_encode`
is the round trip of base64; bytes below 128 without a zero are their own text (`decodeJson_ascii`),
base64 text among them.
-/

namespace Base64

/-- The character of six bits. -/
def char (d : Nat) : Nat :=
  if d < 26 then 65 + d else if d < 52 then 71 + d else if d < 62 then d - 4
    else if d = 62 then 43 else 47

def value (c : Nat) : Option Nat :=
  if 65 ≤ c ∧ c ≤ 90 then some (c - 65)
  else if 97 ≤ c ∧ c ≤ 122 then some (c - 71)
  else if 48 ≤ c ∧ c ≤ 57 then some (c + 4)
  else if c = 43 then some 62
  else if c = 47 then some 63
  else none

/-- `base64.b64encode` -/
def encode : List Nat → Str
  | [] => []
  | [a] => [char (a / 4), char (a % 4 * 16), 61, 61]
  | [a, b] => [char (a / 4), char (a % 4 * 16 + b / 16), char (b % 16 * 4), 61]
  | a :: b :: c :: rest =>
    char (a / 4) :: char (a % 4 * 16 + b / 16) :: char (b % 16 * 4 + c / 64) ::
      char (c % 64) :: encode rest

/-- Four characters, none of them padding. -/
def quad (w x y z : Nat) : Option (List Nat) :=
  match value w, value x, value y, value z with
  | some w, some x, some y, some z => some [w * 4 + x / 16, x % 16 * 16 + y / 4, y % 4 * 64 + z]
  | _, _, _, _ => none

/-- `base64.b64decode(text, validate=True)`; `none` is the `binascii.Error`. -/
def decode : Str → Option (List Nat)
  | [] => some []
  | w :: x :: y :: z :: rest =>
    if rest = [] ∧ y = 61 ∧ z = 61 then (quad w x 65 65).map (·.take 1)
    else if rest = [] ∧ z = 61 then (quad w x y 65).map (·.take 2)
    else (quad w x y z).bind fun bs => (decode rest).map (bs ++ ·)
  | _ => none

theorem value_char : ∀ d < 64, value (char d) = some d := by decide

theorem char_ne_pad : ∀ d < 64, char d ≠ 61 := by decide

/-- What `atob` drops: tab, newline, form feed, carriage return, space. -/
def isSpace (c : Nat) : Bool := c = 9 || c = 10 || c = 12 || c = 13 || c = 32

/-- One or two padding characters at the end are dropped. -/
def dropPad (s : Str) : Str :=
  match s.reverse with
  | 61 :: 61 :: rest => rest.reverse
  | 61 :: rest => rest.reverse
  | _ => s

/-- Base64 without padding. -/
def groups : Str → Option (List Nat)
  | [] => some []
  | [_] => none
  | [w, x] => (quad w x 65 65).map (·.take 1)
  | [w, x, y] => (quad w x y 65).map (·.take 2)
  | w :: x :: y :: z :: rest => (quad w x y z).bind fun bs => (groups rest).map (bs ++ ·)

/-- `atob`, which forgives space and missing padding. -/
def atob (s : Str) : Option (List Nat) :=
  let s := s.filter fun c => !isSpace c
  groups (if s.length % 4 = 0 then dropPad s else s)

/-- Base64 text: letters, digits, `+`, `/` and the padding. -/
def isText (s : Str) : Prop := ∀ c ∈ s, 43 ≤ c ∧ c ≤ 122 ∧ c ≠ 91 ∧ c ≠ 92

theorem char_range : ∀ d < 64, 43 ≤ char d ∧ char d ≤ 122 ∧ char d ≠ 91 ∧ char d ≠ 92 := by decide

theorem decode_encode {bs : List Nat} (h : ∀ b ∈ bs, b < 256) : decode (encode bs) = some bs := by
  induction bs using encode.induct with
  | case1 => rfl
  | case2 a =>
    have ha : a < 256 := h a (by simp)
    have h65 : value 65 = some 0 := rfl
    simp only [encode, decode, quad, and_self, if_true, value_char (a / 4) (by omega),
      value_char (a % 4 * 16) (by omega),
      h65, Option.map_some, List.take, Option.some.injEq, List.cons.injEq, and_true]
    omega
  | case3 a b =>
    have ha : a < 256 := h a (by simp)
    have hb : b < 256 := h b (by simp)
    have h65 : value 65 = some 0 := rfl
    have hpad := char_ne_pad (b % 16 * 4) (by omega)
    simp only [encode, decode, quad, hpad, and_false, if_false, and_self, if_true,
      value_char (a / 4) (by omega), value_char (a % 4 * 16 + b / 16) (by omega),
      value_char (b % 16 * 4) (by omega),
      h65, Option.map_some, List.take, Option.some.injEq, List.cons.injEq, and_true]
    omega
  | case4 a b c rest ih =>
    have ha : a < 256 := h a (by simp)
    have hb : b < 256 := h b (by simp)
    have hc : c < 256 := h c (by simp)
    have hpad := char_ne_pad (c % 64) (by omega)
    have hrest := ih fun x hx => h x (by simp [hx])
    simp only [encode, decode, quad, hpad, and_false, if_false, hrest,
      value_char (a / 4) (by omega),
      value_char (a % 4 * 16 + b / 16) (by omega), value_char (b % 16 * 4 + c / 64) (by omega),
      value_char (c % 64) (by omega),
      Option.bind_some, Option.map_some, Option.some.injEq, List.cons_append, List.nil_append,
        List.cons.injEq, and_true]
    omega

theorem isText_encode {bs : List Nat} (h : ∀ b ∈ bs, b < 256) : isText (encode bs) := by
  induction bs using encode.induct with
  | case1 => simp [encode, isText]
  | case2 a =>
    have ha : a < 256 := h a (by simp)
    intro c hc
    simp only [encode, List.mem_cons, List.not_mem_nil, or_false] at hc
    rcases hc with rfl | rfl | rfl | rfl
    · exact char_range _ (by omega)
    · exact char_range _ (by omega)
    · decide
    · decide
  | case3 a b =>
    have ha : a < 256 := h a (by simp)
    have hb : b < 256 := h b (by simp)
    intro c hc
    simp only [encode, List.mem_cons, List.not_mem_nil, or_false] at hc
    rcases hc with rfl | rfl | rfl | rfl
    · exact char_range _ (by omega)
    · exact char_range _ (by omega)
    · exact char_range _ (by omega)
    · decide
  | case4 a b c rest ih =>
    have ha : a < 256 := h a (by simp)
    have hb : b < 256 := h b (by simp)
    have hc : c < 256 := h c (by simp)
    intro x hx
    simp only [encode, List.mem_cons] at hx
    rcases hx with rfl | rfl | rfl | rfl | hx
    · exact char_range _ (by omega)
    · exact char_range _ (by omega)
    · exact char_range _ (by omega)
    · exact char_range _ (by omega)
    · exact ih (fun y hy => h y (by simp [hy])) x hx

theorem quad_of_lt {w x y z : Nat} (hw : w < 64) (hx : x < 64) (hy : y < 64) (hz : z < 64) :
    quad (char w) (char x) (char y) (char z) =
      some [w * 4 + x / 16, x % 16 * 16 + y / 4, y % 4 * 64 + z] := by
  rw [quad, value_char w hw, value_char x hx, value_char y hy, value_char z hz]

/-- Base64 text is its groups and at most two padding characters. -/
theorem encode_eq (bs : List Nat) (h : ∀ b ∈ bs, b < 256) :
    ∃ s p, encode bs = s ++ List.replicate p 61 ∧ p ≤ 2 ∧ (∀ c ∈ s, c ≠ 61) ∧
    groups s = some bs := by
  have h65 : char 0 = 65 := rfl
  induction bs using encode.induct with
  | case1 => exact ⟨[], 0, rfl, by decide, by simp, rfl⟩
  | case2 a =>
    have ha : a < 256 := h a (by simp)
    refine ⟨[char (a / 4), char (a % 4 * 16)], 2, rfl, by decide, ?_, ?_⟩
    · intro c hc
      simp only [List.mem_cons, List.not_mem_nil, or_false] at hc
      rcases hc with rfl | rfl <;> exact char_ne_pad _ (by omega)
    · have hvalue : a / 4 * 4 + a % 4 * 16 / 16 = a := by omega
      rw [groups, ← h65, quad_of_lt (by omega) (by omega) (by omega) (by omega), hvalue]
      rfl
  | case3 a b =>
    have ha : a < 256 := h a (by simp)
    have hb : b < 256 := h b (by simp)
    refine ⟨[char (a / 4), char (a % 4 * 16 + b / 16), char (b % 16 * 4)], 1,
      rfl, by decide, ?_, ?_⟩
    · intro c hc
      simp only [List.mem_cons, List.not_mem_nil, or_false] at hc
      rcases hc with rfl | rfl | rfl <;> exact char_ne_pad _ (by omega)
    · have hfirst : a / 4 * 4 + (a % 4 * 16 + b / 16) / 16 = a := by omega
      have hsecond : (a % 4 * 16 + b / 16) % 16 * 16 + b % 16 * 4 / 4 = b := by omega
      rw [groups, ← h65, quad_of_lt (by omega) (by omega) (by omega) (by omega), hfirst, hsecond]
      rfl
  | case4 a b c rest ih =>
    have ha : a < 256 := h a (by simp)
    have hb : b < 256 := h b (by simp)
    have hc : c < 256 := h c (by simp)
    obtain ⟨s, p, hs, hp, hpad, hgroups⟩ := ih fun x hx => h x (by simp [hx])
    refine ⟨char (a / 4) :: char (a % 4 * 16 + b / 16) :: char (b % 16 * 4 + c / 64) ::
      char (c % 64) :: s, p, ?_, hp, ?_, ?_⟩
    · rw [encode, hs]
      rfl
    · intro x hx
      simp only [List.mem_cons] at hx
      rcases hx with rfl | rfl | rfl | rfl | hx
      · exact char_ne_pad _ (by omega)
      · exact char_ne_pad _ (by omega)
      · exact char_ne_pad _ (by omega)
      · exact char_ne_pad _ (by omega)
      · exact hpad x hx
    · have hfirst : a / 4 * 4 + (a % 4 * 16 + b / 16) / 16 = a := by omega
      have hsecond : (a % 4 * 16 + b / 16) % 16 * 16 + (b % 16 * 4 + c / 64) / 4 = b := by omega
      have hthird : (b % 16 * 4 + c / 64) % 4 * 64 + c % 64 = c := by omega
      rw [groups, quad_of_lt (by omega) (by omega) (by omega) (by omega), hgroups, hfirst,
        hsecond, hthird]
      rfl

theorem dropPad_append {s : Str} {p : Nat} (hp : p ≤ 2) (h : ∀ c ∈ s, c ≠ 61) :
    dropPad (s ++ List.replicate p 61) = s := by
  have hreverse : ∀ c ∈ s.reverse, c ≠ 61 := fun c hc => h c (List.mem_reverse.1 hc)
  rw [dropPad, List.reverse_append, List.reverse_replicate]
  obtain rfl | rfl | rfl : p = 0 ∨ p = 1 ∨ p = 2 := by omega
  · cases hs : s.reverse with
    | nil => simp
    | cons c t =>
      rw [hs] at hreverse
      have hc : c ≠ 61 := hreverse c List.mem_cons_self
      simp [hc]
  · cases hs : s.reverse with
    | nil =>
      rw [List.reverse_eq_nil_iff.1 hs]
      rfl
    | cons c t =>
      rw [hs] at hreverse
      have hc : c ≠ 61 := hreverse c List.mem_cons_self
      have ht : t.reverse ++ [c] = s := by rw [← List.reverse_cons, ← hs, List.reverse_reverse]
      simp [hc, ht]
  · simp [List.replicate]

theorem length_encode (bs : List Nat) : (encode bs).length = 4 * ((bs.length + 2) / 3) := by
  induction bs using encode.induct with
  | case1 => rfl
  | case2 a => simp [encode]
  | case3 a b => simp [encode]
  | case4 a b c rest ih =>
    simp only [encode, List.length_cons, ih]
    omega

theorem length_dropPad_le (s : Str) : (dropPad s).length ≤ s.length := by
  have hreverse : s.reverse.length = s.length := List.length_reverse
  unfold dropPad
  split
  · next rest h =>
    rw [h] at hreverse
    simp only [List.length_cons] at hreverse
    rw [List.length_reverse]
    omega
  · next rest _ h =>
    rw [h] at hreverse
    simp only [List.length_cons] at hreverse
    rw [List.length_reverse]
    omega
  · exact Nat.le_refl _

theorem quad_length {w x y z : Nat} {bs : List Nat} (h : quad w x y z = some bs) :
    bs.length = 3 := by
  unfold quad at h
  split at h
  · cases h
    rfl
  · cases h

theorem length_groups {s : Str} {bs : List Nat} (h : groups s = some bs) :
    4 * bs.length ≤ 3 * s.length := by
  induction s using groups.induct generalizing bs with
  | case1 =>
    cases h
    exact Nat.le_refl _
  | case2 c => cases h
  | case3 w x =>
    obtain ⟨three, hthree, rfl⟩ := Option.map_eq_some_iff.1 h
    rw [List.length_take, quad_length hthree]
    simp
  | case4 w x y =>
    obtain ⟨three, hthree, rfl⟩ := Option.map_eq_some_iff.1 h
    rw [List.length_take, quad_length hthree]
    simp
  | case5 w x y z rest ih =>
    obtain ⟨three, hthree, hrest⟩ := Option.bind_eq_some_iff.1 h
    obtain ⟨more, hmore, rfl⟩ := Option.map_eq_some_iff.1 hrest
    have hle := ih hmore
    simp only [List.length_append, List.length_cons, quad_length hthree]
    omega

theorem length_atob {s : Str} {bs : List Nat} (h : atob s = some bs) :
    4 * bs.length ≤ 3 * s.length := by
  unfold atob at h
  have hle := length_groups h
  have hfilter : (s.filter fun c => !isSpace c).length ≤ s.length := List.length_filter_le _ _
  have hpad := length_dropPad_le (s.filter fun c => !isSpace c)
  split_ifs at hle <;> omega

/-- A browser reads back what Python encodes. -/
theorem atob_encode {bs : List Nat} (h : ∀ b ∈ bs, b < 256) : atob (encode bs) = some bs := by
  obtain ⟨s, p, hs, hp, hpad, hgroups⟩ := encode_eq bs h
  have hspace : (encode bs).filter (fun c => !isSpace c) = encode bs := by
    rw [List.filter_eq_self]
    intro c hc
    have hrange := isText_encode h c hc
    simp only [isSpace, Bool.not_eq_true', Bool.or_eq_false_iff, decide_eq_false_iff_not]
    omega
  have hlength : (encode bs).length % 4 = 0 := by rw [length_encode]; omega
  simp only [atob, hspace, hlength, if_true]
  rw [hs, dropPad_append hp hpad, hgroups]

end Base64

namespace Bytes

/-- A lead with `n` continuation bytes. -/
def continued (lead n : Nat) (rest : List Nat) : Option Nat :=
  if (rest.take n).length = n ∧ ∀ b ∈ rest.take n, 128 ≤ b ∧ b < 192 then
    some ((rest.take n).foldl (fun c b => c * 64 + (b - 128)) lead)
  else none

/-- The first code point and the number of its bytes. -/
def utf8Point (surrogates : Bool) : List Nat → Option (Nat × Nat)
  | [] => none
  | a :: rest =>
    if a < 128 then some (a, 1)
    else if 192 ≤ a ∧ a < 224 then
      (continued (a - 192) 1 rest).bind fun c => if 0x80 ≤ c then some (c, 2) else none
    else if 224 ≤ a ∧ a < 240 then
      (continued (a - 224) 2 rest).bind fun c =>
        if 0x800 ≤ c ∧ (surrogates || !(Str.isHigh c || Str.isLow c)) then some (c, 3) else none
    else if 240 ≤ a ∧ a < 248 then
      (continued (a - 240) 3 rest).bind fun c => if 0x10000 ≤ c ∧
        c < 0x110000 then some (c, 4) else none
    else none

def utf8Fuel (surrogates : Bool) : Nat → List Nat → Option Str
  | _, [] => some []
  | 0, _ => none
  | fuel + 1, s => (utf8Point surrogates s).bind fun (c, n) =>
    (utf8Fuel surrogates fuel (s.drop n)).map (c :: ·)

/-- `data.decode("utf-8")`; with `surrogates`, its form `"surrogatepass"`. -/
def decodeUtf8 (surrogates : Bool) (data : List Nat) : Option Str :=
  utf8Fuel surrogates data.length data

/-- `str.encode`; `none` is the `UnicodeEncodeError`. -/
def encodeUtf8 : Str → Option (List Nat)
  | [] => some []
  | c :: s =>
    let bytes :=
      if c < 0x80 then some [c]
      else if c < 0x800 then some [192 + c / 64, 128 + c % 64]
      else if Str.isHigh c || Str.isLow c then none
      else if c < 0x10000 then some [224 + c / 4096, 128 + c / 64 % 64, 128 + c % 64]
      else if c < 0x110000 then some [240 + c / 262144, 128 + c / 4096 % 64, 128 + c / 64 % 64,
        128 + c % 64]
      else none
    bytes.bind fun bs => (encodeUtf8 s).map (bs ++ ·)

/-- `data.decode("utf-16-be", "surrogatepass")` of the units. -/
def decodeUnits : List Nat → Str
  | [] => []
  | [u] => [u]
  | u :: v :: rest =>
    if Str.isHigh u && Str.isLow v then (0x10000 + (u - 0xD800) * 0x400 + (v - 0xDC00)) ::
      decodeUnits rest
    else u :: decodeUnits (v :: rest)

def units (big : Bool) : List Nat → Option (List Nat)
  | [] => some []
  | [_] => none
  | a :: b :: rest => (units big rest).map ((if big then a * 256 + b else b * 256 + a) :: ·)

def decodeUtf32 (big : Bool) : List Nat → Option Str
  | [] => some []
  | a :: b :: c :: d :: rest =>
    let x :=
      if big then ((a * 256 + b) * 256 + c) * 256 + d else ((d * 256 + c) * 256 + b) * 256 + a
    if x < 0x110000 then (decodeUtf32 big rest).map (x :: ·) else none
  | _ => none

/-- `data.decode(detect_encoding(data), "surrogatepass")` -/
def decodeJson (data : List Nat) : Option Str :=
  match data with
  | 0 :: 0 :: 0xFE :: 0xFF :: rest => decodeUtf32 true rest
  | 0xFF :: 0xFE :: 0 :: 0 :: rest => decodeUtf32 false rest
  | 0xFE :: 0xFF :: rest => (units true rest).map decodeUnits
  | 0xFF :: 0xFE :: rest => (units false rest).map decodeUnits
  | 0xEF :: 0xBB :: 0xBF :: rest => decodeUtf8 true rest
  | 0 :: 0 :: _ :: _ :: _ => decodeUtf32 true data
  | 0 :: _ :: _ :: _ :: _ => (units true data).map decodeUnits
  | _ :: 0 :: 0 :: 0 :: _ => decodeUtf32 false data
  | _ :: 0 :: _ :: _ :: _ => (units false data).map decodeUnits
  | [0, _] => (units true data).map decodeUnits
  | [_, 0] => (units false data).map decodeUnits
  | _ => decodeUtf8 true data

theorem decodeUtf8_ascii {surrogates : Bool} {s : Str} (h : ∀ c ∈ s, c < 128) :
    decodeUtf8 surrogates s = some s := by
  induction s with
  | nil => rfl
  | cons c s ih =>
    have hs : utf8Fuel surrogates s.length s = some s := ih fun x hx => h x (by simp [hx])
    simp [decodeUtf8, utf8Fuel, utf8Point, h c (by simp), hs]

theorem encodeUtf8_ascii {s : Str} (h : ∀ c ∈ s, c < 128) : encodeUtf8 s = some s := by
  induction s with
  | nil => rfl
  | cons c s ih =>
    have hs := ih fun x hx => h x (by simp [hx])
    simp [encodeUtf8, h c (by simp), hs]

theorem decodeJson_ascii {s : Str} (h : ∀ c ∈ s, 0 < c ∧ c < 128) : decodeJson s = some s := by
  unfold decodeJson
  split
  all_goals first
    | exact decodeUtf8_ascii fun c hc => (h c hc).2
    | (exfalso; simp only [List.mem_cons, forall_eq_or_imp] at h; omega)

/-- `json.loads` of bytes. -/
def loads (data : List Nat) : Option Json.Value := (decodeJson data).bind Json.loads

theorem loads_ascii {s : Str} (h : ∀ c ∈ s, 0 < c ∧ c < 128) : loads s = Json.loads s := by
  rw [loads, decodeJson_ascii h, Option.bind_some]

end Bytes
