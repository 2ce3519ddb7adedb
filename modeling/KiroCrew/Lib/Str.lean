import Mathlib

/-!
# Strings of code points

A string is the list of its code points, surrogates included, as Python has them. `Str.utf8Length`
is the length of the UTF-8 encoding, which a surrogate does not have. A file name that is not UTF-8
is decoded with one low surrogate for each byte outside it (`Str.fsDecoded`).
-/

/-- Code points; strings are ordered by them. -/
abbrev Str := List Nat

namespace Str

instance lawfulBEq : LawfulBEq Str := inferInstance

def ofString (s : String) : Str := s.toList.map Char.toNat

def isHigh (c : Nat) : Bool := decide (0xD800 ≤ c ∧ c ≤ 0xDBFF)
def isLow (c : Nat) : Bool := decide (0xDC00 ≤ c ∧ c ≤ 0xDFFF)

/-- Code points only, and no high surrogate. -/
def safe (s : Str) : Bool := s.all fun c => decide (c < 0x110000) && !isHigh c

/-- What `os.fsdecode` can give: surrogates only for single bytes. -/
def fsDecoded (s : Str) : Bool :=
  s.all fun c => decide (c < 0x110000) && !isHigh c &&
    (!isLow c || decide (0xDC80 ≤ c ∧ c ≤ 0xDCFF))

/-- Code points only, surrogates included. -/
def valid (s : Str) : Bool := s.all fun c => decide (c < 0x110000)

/-- `s.removesuffix(suffix)` -/
def removeSuffix (s suffix : Str) : Str :=
  if suffix.isSuffixOf s then s.take (s.length - suffix.length) else s

/-- Each surrogate pair as the code point it stands for. -/
def join : Str → Str
  | [] => []
  | [c] => [c]
  | c :: d :: s =>
    if isHigh c && isLow d then (0x10000 + (c - 0xD800) * 0x400 + (d - 0xDC00)) :: join s
      else c :: join (d :: s)

/-- The length of the UTF-8 encoding of a code point. -/
def utf8Size (c : Nat) : Option Nat :=
  if c < 0x80 then some 1 else if c < 0x800 then some 2
  else if isHigh c || isLow c then none
  else if c < 0x10000 then some 3 else if c < 0x110000 then some 4 else none

/-- `len(s.encode())`; `none` is the `UnicodeEncodeError`. -/
def utf8Length : Str → Option Nat
  | [] => some 0
  | c :: s => (utf8Size c).bind fun n => (utf8Length s).map (n + ·)

theorem ofString_inj {s t : String} : ofString s = ofString t ↔ s = t := by
  constructor
  · intro h
    exact String.toList_injective (List.map_injective_iff.2 (fun _ _ => Char.toNat_inj.1) h)
  · exact congrArg ofString

theorem removeSuffix_append (s suffix : Str) : removeSuffix (s ++ suffix) suffix = s := by
  rw [removeSuffix, if_pos (List.isSuffixOf_iff_suffix.2 (List.suffix_append s suffix)),
    List.length_append,
    Nat.add_sub_cancel, List.take_left]

theorem le_append (s t : Str) : s ≤ s ++ t := by
  induction s with
  | nil =>
    cases t with
    | nil => exact le_refl _
    | cons c t => exact le_of_lt (List.Lex.nil)
  | cons c s ih => exact List.cons_le_cons c ih

theorem safe_cons {c : Nat} {s : Str} : safe (c :: s) = true ↔ c < 0x110000 ∧ isHigh c = false ∧
    safe s = true := by
  simp [safe, and_assoc]

theorem valid_cons {c : Nat} {s : Str} : valid (c :: s) = true ↔ c < 0x110000 ∧ valid s = true := by
  simp [valid]

theorem valid_of_safe {s : Str} (h : s.safe = true) : s.valid = true := by
  simp only [safe, valid, List.all_eq_true, Bool.and_eq_true] at h ⊢
  exact fun c hc => (h c hc).1

theorem join_of_safe {s : Str} (h : s.safe = true) : join s = s := by
  induction s using join.induct with
  | case1 => rfl
  | case2 c => rfl
  | case3 c d s hpair ih =>
    obtain ⟨_, hhigh, _⟩ := safe_cons.1 h
    simp [hhigh] at hpair
  | case4 c d s hpair ih =>
    obtain ⟨_, hhigh, hs⟩ := safe_cons.1 h
    rw [join, if_neg hpair, ih hs]

theorem safe_append {s t : Str} : safe (s ++ t) = true ↔ safe s = true ∧ safe t = true := by
  simp [safe]

theorem safe_map_toNat (cs : List Char) : safe (cs.map Char.toNat) = true := by
  simp only [safe, List.all_map, List.all_eq_true, Function.comp_apply, Bool.and_eq_true,
    decide_eq_true_eq,
    Bool.not_eq_true', isHigh, decide_eq_false_iff_not]
  intro c _
  have hvalid : c.toNat < 0xD800 ∨ 0xDFFF < c.toNat ∧ c.toNat < 0x110000 := c.valid
  omega

theorem safe_ofString (s : String) : safe (ofString s) = true := safe_map_toNat s.toList

theorem safe_of_fsDecoded {s : Str} (h : s.fsDecoded = true) : s.safe = true := by
  simp only [fsDecoded, safe, List.all_eq_true, Bool.and_eq_true] at h ⊢
  exact fun c hc => (h c hc).1

theorem safe_of_utf8Length {s : Str} {n : Nat} (h : s.utf8Length = some n) : s.safe = true := by
  induction s generalizing n with
  | nil => rfl
  | cons c s ih =>
    simp only [utf8Length, Option.bind_eq_some_iff, Option.map_eq_some_iff] at h
    obtain ⟨k, hk, m, hm, -⟩ := h
    refine safe_cons.2 ⟨?_, ?_, ih hm⟩
    · unfold utf8Size at hk
      split_ifs at hk <;> omega
    · unfold utf8Size at hk
      by_contra hhigh
      have hrange : isHigh c = true := by simpa using hhigh
      simp only [isHigh, decide_eq_true_eq] at hrange
      split_ifs at hk <;> simp_all <;> omega

end Str
