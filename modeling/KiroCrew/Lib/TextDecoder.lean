import KiroCrew.Lib.Str

/-!
# The text of a browser

A string of JavaScript is the list of its UTF-16 code units; `Str.units` is the string of a text.
`Utf8.step` is the UTF-8 decoder of the encoding standard, byte by byte, which replaces what is no
UTF-8 by U+FFFD; `TextDecoder` adds the byte order mark that is left out at the start. Feeding the
decoder a concatenation is feeding it the parts.
-/

namespace Str

/-- The code units of a code point. -/
def unitsOf (c : Nat) : List Nat :=
  if c < 0x10000 then [c]
    else [0xD800 + (c - 0x10000) / 0x400 % 0x400, 0xDC00 + (c - 0x10000) % 0x400]

/-- The UTF-16 code units of a text. -/
def units (s : Str) : List Nat := s.flatMap unitsOf

theorem units_append (s t : Str) : units (s ++ t) = units s ++ units t := by simp [units]

theorem units_cons (c : Nat) (s : Str) : units (c :: s) = unitsOf c ++ units s := by simp [units]

theorem units_of_lt {s : Str} (h : ∀ c ∈ s, c < 0x10000) : units s = s := by
  induction s with
  | nil => rfl
  | cons c s ih =>
    obtain ⟨hc, hs⟩ := List.forall_mem_cons.1 h
    rw [units_cons, ih hs, unitsOf, if_pos hc]
    rfl

theorem units_join (s : Str) : units (join s) = units s := by
  induction s using join.induct with
  | case1 => rfl
  | case2 c => rfl
  | case3 c d s hpair ih =>
    have hpair' := hpair
    simp only [isHigh, isLow, Bool.and_eq_true, decide_eq_true_eq] at hpair'
    obtain ⟨⟨hc, hc'⟩, hd, hd'⟩ := hpair'
    have hpoint : unitsOf (0x10000 + (c - 0xD800) * 0x400 + (d - 0xDC00)) = [c, d] := by
      rw [unitsOf, if_neg (by omega)]
      simp only [List.cons.injEq, and_true]
      omega
    have hunits : unitsOf c = [c] ∧ unitsOf d = [d] := by
      rw [unitsOf, unitsOf, if_pos (by omega), if_pos (by omega)]
      exact ⟨rfl, rfl⟩
    rw [join, if_pos hpair, units_cons, units_cons, units_cons, ih, hpoint, hunits.1, hunits.2]
    rfl
  | case4 c d s hpair ih => rw [join, if_neg hpair, units_cons, ih, ← units_cons]

theorem length_units_cons (c : Nat) (s : Str) : (units (c :: s)).length = (unitsOf c).length +
    (units s).length := by
  rw [units_cons, List.length_append]

theorem lt_of_mem_units {s : Str} {u : Nat} (h : u ∈ units s) : u < 0x10000 := by
  obtain ⟨c, _, hu⟩ := List.mem_flatMap.1 h
  unfold unitsOf at hu
  split_ifs at hu
  · rwa [List.mem_singleton.1 hu]
  · simp only [List.mem_cons, List.not_mem_nil, or_false] at hu
    omega

theorem length_unitsOf_le (c : Nat) : (unitsOf c).length ≤ 2 := by
  unfold unitsOf
  split_ifs <;> simp

end Str

namespace Utf8

/-- The decoder between two bytes: the bits of the character so far, the bytes it still needs, and
the range of the next one. -/
structure State where
  point : Nat := 0
  needed : Nat := 0
  lower : Nat := 0x80
  upper : Nat := 0xBF
deriving DecidableEq, Repr

def replacement : Nat := 0xFFFD

/-- A byte that starts a character. -/
def lead (b : Nat) : State × Str :=
  if b < 0x80 then ({}, [b])
  else if 0xC2 ≤ b ∧ b ≤ 0xDF then ({ point := b % 32, needed := 1 }, [])
  else if 0xE0 ≤ b ∧ b ≤ 0xEF then
    ({ point := b % 16, needed := 2, lower := if b = 0xE0 then 0xA0 else 0x80,
       upper := if b = 0xED then 0x9F else 0xBF }, [])
  else if 0xF0 ≤ b ∧ b ≤ 0xF4 then
    ({ point := b % 8, needed := 3, lower := if b = 0xF0 then 0x90 else 0x80,
       upper := if b = 0xF4 then 0x8F else 0xBF }, [])
  else ({}, [replacement])

def step (s : State) (b : Nat) : State × Str :=
  if s.needed = 0 then lead b
  else if s.lower ≤ b ∧ b ≤ s.upper then
    let point := s.point * 64 + b % 64
    if s.needed = 1 then ({}, [point]) else ({ point, needed := s.needed - 1 }, [])
  else
    -- the character is broken off, and the byte starts another one
    let (s, out) := lead b
    (s, replacement :: out)

def feed (s : State) : List Nat → State × Str
  | [] => (s, [])
  | b :: bs =>
    let (s, out) := step s b
    let (s, rest) := feed s bs
    (s, out ++ rest)

/-- The end of the input breaks off a character. -/
def finish (s : State) : Str := if s.needed = 0 then [] else [replacement]

theorem step_ascii {b : Nat} (h : b < 0x80) : step {} b = ({}, [b]) := by
  rw [step, if_pos rfl, lead, if_pos h]

theorem feed_ascii {bs : List Nat} (h : ∀ b ∈ bs, b < 0x80) : feed {} bs = ({}, bs) := by
  induction bs with
  | nil => rfl
  | cons b bs ih =>
    obtain ⟨hb, hbs⟩ := List.forall_mem_cons.1 h
    rw [feed, step_ascii hb]
    dsimp only
    rw [ih hbs]
    rfl

/-- A character that is not finished has taken a byte. -/
def State.taken (s : State) : Nat := if s.needed = 0 then 0 else 1

theorem length_lead (b : Nat) : (Str.units (lead b).2).length + (lead b).1.taken ≤ 1 := by
  unfold lead
  split_ifs with hascii
  · have hunit : Str.unitsOf b = [b] := by rw [Str.unitsOf, if_pos (by omega)]
    simp [Str.units, hunit, State.taken]
  all_goals simp [Str.units, Str.unitsOf, State.taken, replacement]

theorem length_step (s : State) (b : Nat) : (Str.units (step s b).2).length + (step s b).1.taken ≤
    s.taken + 1 := by
  have hlead := length_lead b
  have htaken : ∀ t : State, t.taken ≤ 1 := by
    intro t
    unfold State.taken
    split_ifs <;> omega
  unfold step
  split_ifs with hstart hrange hlast
  · omega
  · have htwo := Str.length_unitsOf_le (s.point * 64 + b % 64)
    have hone : s.taken = 1 := if_neg hstart
    simp only [Str.units, List.flatMap_cons, List.flatMap_nil, List.append_nil, hone]
    exact htwo
  · have hone : s.taken = 1 := if_neg hstart
    have hle := htaken { point := s.point * 64 + b % 64, needed := s.needed - 1 }
    simp only [Str.units, List.flatMap_nil, List.length_nil, hone]
    omega
  · have hmark : (Str.unitsOf replacement).length = 1 := by decide
    have hone : s.taken = 1 := if_neg hstart
    dsimp only
    rw [Str.length_units_cons, hmark, hone]
    omega

theorem length_feed (s : State) (bs : List Nat) :
    (Str.units (feed s bs).2).length + (feed s bs).1.taken ≤ s.taken + bs.length := by
  induction bs generalizing s with
  | nil => simp [feed, Str.units]
  | cons b bs ih =>
    have hstep := length_step s b
    have hrest := ih (step s b).1
    simp only [feed, Str.units_append, List.length_append, List.length_cons]
    omega

end Utf8

/-- `TextDecoder` (or `TextDecoderStream`) of UTF-8: its decoder, and whether something was
decoded. -/
structure TextDecoder where
  utf8 : Utf8.State := {}
  started : Bool := false
deriving DecidableEq, Repr

namespace TextDecoder

/-- A byte order mark at the start is left out. -/
def emit (started : Bool) : Str → Bool × Str
  | [] => (started, [])
  | c :: out => if started = false ∧ c = 0xFEFF then (true, out) else (true, c :: out)

/-- `decode(bytes, { stream: true })` -/
def feed (d : TextDecoder) (bytes : List Nat) : TextDecoder × List Nat :=
  let (utf8, out) := Utf8.feed d.utf8 bytes
  let (started, text) := emit d.started out
  ({ utf8, started }, Str.units text)

/-- `new TextDecoder().decode(bytes)` -/
def decode (bytes : List Nat) : List Nat :=
  let (utf8, out) := Utf8.feed {} bytes
  Str.units (emit false (out ++ Utf8.finish utf8)).2

/-- What a `TextDecoderStream` gives for the pieces, and for the end. -/
def feedAll (d : TextDecoder) : List (List Nat) → List (List Nat)
  | [] => [Str.units (emit d.started (Utf8.finish d.utf8)).2]
  | piece :: pieces => (d.feed piece).2 :: feedAll (d.feed piece).1 pieces

theorem feed_ascii {bytes : List Nat} (h : ∀ b ∈ bytes, b < 0x80) (started : Bool) :
    feed { started := started } bytes = ({ started := started || !bytes.isEmpty }, bytes) := by
  have hunits : Str.units bytes = bytes := Str.units_of_lt fun b hb => (h b hb).trans (by decide)
  cases bytes with
  | nil => cases started <;> rfl
  | cons b bytes =>
    have hmark : ¬ (started = false ∧ b = 0xFEFF) := by
      rintro ⟨_, rfl⟩
      exact absurd (h 0xFEFF List.mem_cons_self) (by decide)
    simp only [feed, Utf8.feed_ascii h, emit, if_neg hmark, hunits]
    simp

theorem flatten_feedAll_ascii {pieces : List (List Nat)} (h : ∀ b ∈ pieces.flatten, b < 0x80)
    (started : Bool) :
    (feedAll { started := started } pieces).flatten = pieces.flatten := by
  induction pieces generalizing started with
  | nil => rfl
  | cons piece pieces ih =>
    rw [List.flatten_cons, List.forall_mem_append] at h
    rw [feedAll, feed_ascii h.1, List.flatten_cons, List.flatten_cons, ih h.2]

theorem decode_ascii {bytes : List Nat} (h : ∀ b ∈ bytes, b < 0x80) : decode bytes = bytes := by
  have hfeed := feed_ascii h false
  simp only [feed, Utf8.feed_ascii h] at hfeed
  simp only [decode, Utf8.feed_ascii h, Utf8.finish, if_true, List.append_nil]
  exact (Prod.mk.inj hfeed).2

theorem length_decode_le (bytes : List Nat) : (decode bytes).length ≤ bytes.length := by
  have hemit : ∀ out, (Str.units (emit false out).2).length ≤ (Str.units out).length := by
    intro out
    cases out with
    | nil => exact Nat.le_refl _
    | cons c out =>
      rw [emit]
      split_ifs
      · rw [Str.length_units_cons]
        exact Nat.le_add_left _ _
      · exact Nat.le_refl _
  have hfeed : _ ≤ 0 + bytes.length := Utf8.length_feed {} bytes
  have hfinish : (Str.units (Utf8.finish (Utf8.feed {} bytes).1)).length =
      (Utf8.feed {} bytes).1.taken := by
    unfold Utf8.finish Utf8.State.taken
    split_ifs <;> rfl
  refine (hemit _).trans ?_
  rw [Str.units_append, List.length_append, hfinish]
  omega

end TextDecoder
