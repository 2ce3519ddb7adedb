import KiroCrew.Lib.Json
import KiroCrew.Lib.Regex

/-!
# Text as Python has it

White space and case-insensitive letters of its regular expressions, `str` of the values that JSON
gives, and the lines of a text. An integer of more than `maxStrDigits` digits has no text, wherever
it stands in the value, and neither has a value that is nested too deeply (`str_isSome`).
-/

namespace PyText

open Json

/-- `chr(c).isspace()` -/
def isWhite (c : Nat) : Bool :=
  decide (9 ≤ c ∧ c ≤ 13) || decide (28 ≤ c ∧ c ≤ 32) || decide (0x2000 ≤ c ∧ c ≤ 0x200A) ||
    decide (c ∈ [0x85, 0xA0, 0x1680, 0x2028, 0x2029, 0x202F, 0x205F, 0x3000])

/-- The lower case letter that `re.IGNORECASE` compares with an ASCII one; four others fold to `i`,
`s` and `k` too. -/
def fold (c : Nat) : Nat :=
  if 65 ≤ c ∧ c ≤ 90 then c + 32
  else if c = 0x130 ∨ c = 0x131 then 105
  else if c = 0x17F then 115
  else if c = 0x212A then 107
  else c

def isLetter (c : Nat) : Bool := decide (97 ≤ fold c ∧ fold c ≤ 122)

/-- A word in any case. -/
def word (s : String) : Regex Nat :=
  .classes ((Str.ofString s).map fun d c => decide (fold c = fold d))

def space : Regex Nat := .one isWhite

/-- What depends on the interpreter: how it writes a float, which characters it takes for printable,
and how many lists and mappings deep `repr` gets before the `RecursionError`. -/
structure Printing where
  /-- `str(float(text))` -/
  float : Str → Str
  float_ne : ∀ text, float text ≠ []
  /-- `chr(c).isprintable()`, from 127 on -/
  printable : Nat → Bool
  nesting : Nat

/-- `sys.int_info.default_max_str_digits` -/
def maxStrDigits : Nat := 4300

def hexEscape (letter : Char) (width c : Nat) : Str :=
  92 :: letter.toNat :: (List.range width).reverse.map fun i => hexDigit (c / 16 ^ i % 16)

namespace Printing

variable (p : Printing)

def reprChar (quote c : Nat) : Str :=
  if c = quote ∨ c = 92 then [92, c]
  else if c = 9 then [92, 116]
  else if c = 10 then [92, 110]
  else if c = 13 then [92, 114]
  else if 32 ≤ c ∧ c < 127 ∨ 127 < c ∧ p.printable c = true then [c]
  else if c < 0x100 then hexEscape 'x' 2 c
  else if c < 0x10000 then hexEscape 'u' 4 c
  else hexEscape 'U' 8 c

def reprStr (s : Str) : Str :=
  let quote := if 39 ∈ s ∧ 34 ∉ s then 34 else 39
  quote :: s.flatMap (p.reprChar quote) ++ [quote]

mutual

/-- `repr(value)` with so many levels to go; `none` is the `ValueError` or the `RecursionError`. -/
def repr : Nat → Value → Option Str
  | _, .null => some (Str.ofString "None")
  | _, .bool true => some (Str.ofString "True")
  | _, .bool false => some (Str.ofString "False")
  | _, .int i => if i.natAbs < 10 ^ maxStrDigits then some (printInt i) else none
  | _, .float text => some (p.float text)
  | _, .str s => some (p.reprStr s)
  | n, .arr items => (reprItems n items).map fun s => 91 :: s ++ [93]
  | n, .obj fields => (reprFields n fields).map fun s => 123 :: s ++ [125]

def reprItems : Nat → List Value → Option Str
  | _, [] => some []
  | 0, _ :: _ => none
  | n + 1, [v] => repr n v
  | n + 1, v :: w :: items => (repr n v).bind fun s => (reprItems (n + 1) (w :: items)).map fun t =>
    s ++ [44, 32] ++ t

def reprFields : Nat → List (Str × Value) → Option Str
  | _, [] => some []
  | 0, _ :: _ => none
  | n + 1, [(k, v)] => (repr n v).map fun s => p.reprStr k ++ [58, 32] ++ s
  | n + 1, (k, v) :: f :: fields =>
    (repr n v).bind fun s =>
      (reprFields (n + 1) (f :: fields)).map fun t => p.reprStr k ++ [58, 32] ++ s ++ [44, 32] ++ t

end

/-- `str(value)` -/
def str : Value → Option Str
  | .str s => some s
  | v => p.repr p.nesting v

end Printing

mutual

/-- Every integer in the value has a text, and it is nested no deeper than this. -/
def fits : Nat → Value → Bool
  | _, .int i => decide (i.natAbs < 10 ^ maxStrDigits)
  | n, .arr items => fitsItems n items
  | n, .obj fields => fitsFields n fields
  | _, _ => true

def fitsItems : Nat → List Value → Bool
  | _, [] => true
  | 0, _ :: _ => false
  | n + 1, v :: items => fits n v && fitsItems (n + 1) items

def fitsFields : Nat → List (Str × Value) → Bool
  | _, [] => true
  | 0, _ :: _ => false
  | n + 1, (_, v) :: fields => fits n v && fitsFields (n + 1) fields

end

mutual

/-- The strings in a value, keys included. -/
def strings : Value → List Str
  | .str s => [s]
  | .arr items => stringsItems items
  | .obj fields => stringsFields fields
  | _ => []

def stringsItems : List Value → List Str
  | [] => []
  | v :: items => strings v ++ stringsItems items

def stringsFields : List (Str × Value) → List Str
  | [] => []
  | (k, v) :: fields => k :: strings v ++ stringsFields fields

end

namespace Printing

variable {p : Printing}

mutual

theorem repr_isSome (n : Nat) (v : Value) : (p.repr n v).isSome = fits n v := by
  cases v with
  | int i =>
    rw [repr, fits]
    split_ifs with h <;> simp [h]
  | arr items => rw [repr, fits, Option.isSome_map, reprItems_isSome n items]
  | obj fields => rw [repr, fits, Option.isSome_map, reprFields_isSome n fields]
  | bool b => cases b <;> simp [repr, fits]
  | _ => simp [repr, fits]

theorem reprItems_isSome (n : Nat) (items : List Value) : (p.reprItems n items).isSome =
    fitsItems n items := by
  match n, items with
  | 0, [] | _ + 1, [] => simp [reprItems, fitsItems]
  | 0, _ :: _ => simp [reprItems, fitsItems]
  | n + 1, [v] => rw [reprItems, fitsItems, repr_isSome n v, fitsItems, Bool.and_true]
  | n + 1, v :: w :: items =>
    rw [reprItems, fitsItems, ← repr_isSome n v, ← reprItems_isSome (n + 1) (w :: items)]
    cases p.repr n v <;> simp

theorem reprFields_isSome (n : Nat) (fields : List (Str × Value)) :
    (p.reprFields n fields).isSome = fitsFields n fields := by
  match n, fields with
  | 0, [] | _ + 1, [] => simp [reprFields, fitsFields]
  | 0, _ :: _ => simp [reprFields, fitsFields]
  | n + 1, [(k, v)] =>
    rw [reprFields, fitsFields, Option.isSome_map, repr_isSome n v, fitsFields, Bool.and_true]
  | n + 1, (k, v) :: f :: fields =>
    rw [reprFields, fitsFields, ← repr_isSome n v, ← reprFields_isSome (n + 1) (f :: fields)]
    cases p.repr n v <;> simp

end

theorem str_isSome (v : Value) : (p.str v).isSome = fits p.nesting v := by
  cases v with
  | str s => simp [str, fits]
  | _ => exact repr_isSome _ _

theorem printInt_ne (i : Int) : printInt i ≠ [] := by
  rw [printInt]
  split_ifs
  · exact List.cons_ne_nil _ _
  · obtain ⟨d, ds, hdecimal, -⟩ := decimal_cons i.natAbs
    rw [hdecimal]
    exact List.cons_ne_nil _ _

theorem repr_ne {n : Nat} {v : Value} {s : Str} (h : p.repr n v = some s) : s ≠ [] := by
  unfold repr at h
  cases v with
  | null => cases h; decide
  | bool b => cases b <;> cases h <;> decide
  | int i =>
    dsimp only at h
    split_ifs at h
    cases h
    exact printInt_ne i
  | float text => cases h; exact p.float_ne text
  | str s => cases h; exact List.cons_ne_nil _ _
  | arr items =>
    obtain ⟨t, -, rfl⟩ := Option.map_eq_some_iff.1 h
    exact List.cons_ne_nil _ _
  | obj fields =>
    obtain ⟨t, -, rfl⟩ := Option.map_eq_some_iff.1 h
    exact List.cons_ne_nil _ _

theorem str_eq_nil {v : Value} : p.str v = some [] ↔ v = .str [] := by
  constructor
  · intro h
    cases v with
    | str s => rw [Option.some.inj h]
    | _ => exact absurd rfl (repr_ne h)
  · rintro rfl
    rfl

end Printing

/-! ## Integers and lines -/

/-- `text.strip()` -/
def strip (text : Str) : Str := ((text.dropWhile isWhite).reverse.dropWhile isWhite).reverse

/-- `int(text)`, where the digits are ASCII; single underscores may stand between them. -/
def readInt (text : Str) : Option Int :=
  let (negative, digits) := match strip text with
    | 45 :: digits => (true, digits)
    | 43 :: digits => (false, digits)
    | digits => (false, digits)
  let numeral := digits.filter fun c => decide (c ≠ 95)
  if (digits.splitOn 95).all (fun group => !group.isEmpty && group.all isDigit) ∧
      numeral.length ≤ maxStrDigits then
    some (if negative then -(readNat numeral : Int) else readNat numeral)
  else none

/-- The newlines of a text file as text mode reads them. -/
def newlines : Str → Str
  | [] => []
  | 13 :: 10 :: s => 10 :: newlines s
  | c :: s => (if c = 13 then 10 else c) :: newlines s

def isBreak (c : Nat) : Bool :=
  decide (10 ≤ c ∧ c ≤ 13) || decide (28 ≤ c ∧ c ≤ 30) || decide (c ∈ [0x85, 0x2028, 0x2029])

/-- The lines, of the first of which `line` has been read. -/
def linesFrom (line : Str) : Str → List Str
  | [] => if line = [] then [] else [line]
  | 13 :: 10 :: s => line :: linesFrom [] s
  | c :: s => if isBreak c then line :: linesFrom [] s else linesFrom (line ++ [c]) s

/-- `text.splitlines()` -/
def splitlines (text : Str) : List Str := linesFrom [] text

theorem newlines_of_not_mem {s : Str} (h : 13 ∉ s) : newlines s = s := by
  induction s with
  | nil => rfl
  | cons c s ih =>
    rw [List.mem_cons, not_or] at h
    have hc : c ≠ 13 := Ne.symm h.1
    rw [newlines, if_neg hc, ih h.2]
    exact fun s' heq => absurd heq hc

theorem linesFrom_append {line s rest : Str} (h : ∀ c ∈ s, isBreak c = false) :
    linesFrom line (s ++ rest) = linesFrom (line ++ s) rest := by
  induction s generalizing line with
  | nil => rw [List.nil_append, List.append_nil]
  | cons c s ih =>
    have hc := h c List.mem_cons_self
    have hne : c ≠ 13 := by
      rintro rfl
      cases hc
    rw [List.cons_append, linesFrom, if_neg (by rw [hc]; decide), ih fun x hx =>
      h x (List.mem_cons_of_mem c hx), List.append_assoc]
    · rfl
    · exact fun s' heq => absurd heq hne

theorem linesFrom_newline (line rest : Str) : linesFrom line (10 :: rest) = line :: linesFrom
    [] rest := by
  rw [linesFrom, if_pos (by decide)]
  exact fun s' heq => absurd heq (by decide)

/-- Lines that were each written with a newline, and a rest without one. -/
theorem splitlines_lines {lines : List Str} {rest : Str}
    (h : ∀ line ∈ lines, ∀ c ∈ line, isBreak c = false)
    (hrest : ∀ c ∈ rest, isBreak c = false) :
    splitlines (lines.flatMap (· ++ [10]) ++ rest) = lines ++ if rest = [] then [] else [rest] := by
  unfold splitlines
  induction lines with
  | nil =>
    have hlast : linesFrom [] (rest ++ []) = linesFrom ([] ++ rest) [] := linesFrom_append hrest
    rw [List.append_nil, List.nil_append] at hlast
    exact hlast
  | cons line lines ih =>
    rw [List.flatMap_cons, List.append_assoc, List.append_assoc, linesFrom_append
      (h line List.mem_cons_self), List.nil_append,
      List.singleton_append, linesFrom_newline, ih fun l hl => h l (List.mem_cons_of_mem line hl),
      List.cons_append]

end PyText
