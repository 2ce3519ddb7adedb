import KiroCrew.Lib.Bytes
import KiroCrew.Lib.TextDecoder

/-!
# UTF-8 is read back as it was written

Every code point but a surrogate has an encoding (`encodeUtf8_isSome`), and a decoder finds the code
points of a text in its encoding (`decodeUtf8_encodeUtf8`), so a text is determined by it. A text
that is encoded in pieces is encoded piece by piece (`encodeUtf8_flatten`), and a `TextDecoder`
reads it piece by piece when no later piece begins with a byte order mark (`decode_flatten`).
-/

namespace Bytes

/-- The bytes of a code point. -/
def encodePoint (c : Nat) : Option (List Nat) :=
  if c < 0x80 then some [c]
  else if c < 0x800 then some [192 + c / 64, 128 + c % 64]
  else if Str.isHigh c || Str.isLow c then none
  else if c < 0x10000 then some [224 + c / 4096, 128 + c / 64 % 64, 128 + c % 64]
  else if c < 0x110000 then some [240 + c / 262144, 128 + c / 4096 % 64, 128 + c / 64 % 64,
    128 + c % 64]
  else none

theorem encodeUtf8_cons (c : Nat) (s : Str) :
    encodeUtf8 (c :: s) = (encodePoint c).bind fun bs => (encodeUtf8 s).map (bs ++ ·) := rfl

/-- A code point that is no surrogate. -/
def isScalar (c : Nat) : Bool := decide (c < 0x110000) && !Str.isHigh c && !Str.isLow c

theorem encodePoint_isSome (c : Nat) : (encodePoint c).isSome = isScalar c := by
  have hsurrogate : (Str.isHigh c || Str.isLow c) = true ↔ 0xD800 ≤ c ∧ c ≤ 0xDFFF := by
    simp only [Str.isHigh, Str.isLow, Bool.or_eq_true, decide_eq_true_eq]
    omega
  have hscalar : isScalar c = true ↔ c < 0x110000 ∧ ¬ (Str.isHigh c || Str.isLow c) = true := by
    simp [isScalar, and_assoc]
  rw [Bool.eq_iff_iff, hscalar]
  simp only [encodePoint, hsurrogate]
  split_ifs with h1 h2 h3 h4 h5
  all_goals
    simp only [Option.isSome_some, Option.isSome_none, Bool.false_eq_true, true_iff, false_iff]
    omega

theorem encodeUtf8_isSome (s : Str) : (encodeUtf8 s).isSome = s.all isScalar := by
  induction s with
  | nil => rfl
  | cons c s ih =>
    rw [encodeUtf8_cons, List.all_cons, ← encodePoint_isSome, ← ih]
    cases encodePoint c with
    | none => rfl
    | some bs => rw [Option.bind_some, Option.isSome_map, Option.isSome_some, Bool.true_and]

theorem encodeUtf8_append (s t : Str) :
    encodeUtf8 (s ++ t) = (encodeUtf8 s).bind fun bs => (encodeUtf8 t).map (bs ++ ·) := by
  induction s with
  | nil =>
    rw [List.nil_append, encodeUtf8, Option.bind_some]
    exact (Option.map_id' : _).symm
  | cons c s ih =>
    rw [List.cons_append, encodeUtf8_cons, encodeUtf8_cons, ih]
    cases encodePoint c with
    | none => rfl
    | some bs =>
      cases encodeUtf8 s with
      | none => rfl
      | some cs =>
        cases encodeUtf8 t with
        | none => rfl
        | some ds => simp

theorem encodeUtf8_flatten (texts : List Str) : encodeUtf8 texts.flatten =
    (texts.mapM encodeUtf8).map List.flatten := by
  induction texts with
  | nil => rfl
  | cons s texts ih =>
    rw [List.flatten_cons, encodeUtf8_append, ih, List.mapM_cons]
    cases encodeUtf8 s with
    | none => rfl
    | some bs =>
      cases texts.mapM encodeUtf8 with
      | none => rfl
      | some bss => rfl

/-! ## Decoding -/

theorem continued_append {lead n c : Nat} {bs : List Nat} (rest : List Nat) (hn : bs.length = n)
    (h : ∀ b ∈ bs, 128 ≤ b ∧ b < 192)
    (hvalue : bs.foldl (fun c b => c * 64 + (b - 128)) lead = c) : continued lead n (bs ++ rest) =
    some c := by
  have htake : (bs ++ rest).take n = bs := List.take_left' hn
  rw [continued, htake, if_pos ⟨hn, h⟩, hvalue]

theorem utf8Point_encodePoint {c : Nat} {bs : List Nat} (surrogates : Bool)
    (h : encodePoint c = some bs) (rest : List Nat) :
    utf8Point surrogates (bs ++ rest) = some (c, bs.length) := by
  unfold encodePoint at h
  split_ifs at h with h1 h2 hsurrogate h3 h4
  · cases h
    rw [List.singleton_append, utf8Point, if_pos h1, List.length_singleton]
  · cases h
    have hcontinued : continued (192 + c / 64 - 192) 1 ([128 + c % 64] ++ rest) = some c := by
      refine continued_append rest rfl ?_ ?_
      · simp only [List.forall_mem_singleton]
        omega
      · simp only [List.foldl_cons, List.foldl_nil]
        omega
    rw [List.cons_append, utf8Point, if_neg (by omega), if_pos (by omega), hcontinued,
      Option.bind_some, if_pos (by omega)]
    rfl
  · cases h
    have hcontinued : continued (224 + c / 4096 - 224) 2
        ([128 + c / 64 % 64, 128 + c % 64] ++ rest) = some c := by
      refine continued_append rest rfl ?_ ?_
      · simp only [List.forall_mem_cons, List.not_mem_nil, false_implies, implies_true, and_true]
        omega
      · simp only [List.foldl_cons, List.foldl_nil]
        omega
    rw [Bool.or_eq_true, not_or, Bool.not_eq_true, Bool.not_eq_true] at hsurrogate
    rw [List.cons_append, utf8Point, if_neg (by omega), if_neg (by omega), if_pos (by omega),
      hcontinued, Option.bind_some,
      if_pos ⟨by omega, by rw [hsurrogate.1, hsurrogate.2]; simp⟩]
    rfl
  · cases h
    have hcontinued : continued (240 + c / 262144 - 240) 3
        ([128 + c / 4096 % 64, 128 + c / 64 % 64, 128 + c % 64] ++ rest) = some c := by
      refine continued_append rest rfl ?_ ?_
      · simp only [List.forall_mem_cons, List.not_mem_nil, false_implies, implies_true, and_true]
        omega
      · simp only [List.foldl_cons, List.foldl_nil]
        omega
    rw [List.cons_append, utf8Point, if_neg (by omega), if_neg (by omega), if_neg (by omega),
      if_pos (by omega), hcontinued,
      Option.bind_some, if_pos (by omega)]
    rfl

theorem encodePoint_pos {c : Nat} {bs : List Nat} (h : encodePoint c = some bs) :
    0 < bs.length := by
  unfold encodePoint at h
  split_ifs at h <;> cases h <;> exact Nat.succ_pos _

theorem utf8Fuel_encodeUtf8 {s : Str} {bytes : List Nat} (surrogates : Bool)
    (h : encodeUtf8 s = some bytes) {fuel : Nat}
    (hfuel : bytes.length ≤ fuel) : utf8Fuel surrogates fuel bytes = some s := by
  induction s generalizing bytes fuel with
  | nil =>
    cases h
    cases fuel <;> rfl
  | cons c s ih =>
    rw [encodeUtf8_cons] at h
    obtain ⟨bs, hbs, hmap⟩ := Option.bind_eq_some_iff.1 h
    obtain ⟨rest, hrest, rfl⟩ := Option.map_eq_some_iff.1 hmap
    have hpos := encodePoint_pos hbs
    rw [List.length_append] at hfuel
    obtain ⟨fuel, rfl⟩ :=
      Nat.exists_eq_add_of_lt (Nat.lt_of_lt_of_le hpos ((Nat.le_add_right _ _).trans hfuel))
    have hpoint := utf8Point_encodePoint surrogates hbs rest
    have hdrop : (bs ++ rest).drop bs.length = rest := List.drop_left
    cases hcons : bs ++ rest with
    | nil =>
      rw [List.append_eq_nil_iff.1 hcons |>.1] at hpos
      cases hpos
    | cons b more =>
      rw [hcons] at hpoint hdrop
      rw [Nat.zero_add, utf8Fuel, hpoint, Option.bind_some]
      · dsimp only
        rw [hdrop, ih hrest (by omega), Option.map_some]
      · exact List.cons_ne_nil b more

theorem decodeUtf8_encodeUtf8 {s : Str} {bytes : List Nat} (surrogates : Bool)
    (h : encodeUtf8 s = some bytes) :
    decodeUtf8 surrogates bytes = some s := utf8Fuel_encodeUtf8 surrogates h le_rfl

theorem encodeUtf8_inj {s t : Str} {bytes : List Nat} (hs : encodeUtf8 s = some bytes)
    (ht : encodeUtf8 t = some bytes) : s = t :=
  Option.some.inj ((decodeUtf8_encodeUtf8 false hs).symm.trans (decodeUtf8_encodeUtf8 false ht))

end Bytes

/-! ## The decoder of a browser -/

namespace Utf8

theorem feed_cons {s s' : State} {b : Nat} {out : Str} (h : step s b = (s', out)) (bs : List Nat) :
    feed s (b :: bs) = ((feed s' bs).1, out ++ (feed s' bs).2) := by
  rw [feed, h]

theorem step_last {point lower upper b : Nat} (h : lower ≤ b ∧ b ≤ upper) :
    step ⟨point, 1, lower, upper⟩ b = ({}, [point * 64 + b % 64]) := by
  rw [step, if_neg Nat.one_ne_zero, if_pos h]
  rfl

theorem step_next {point n lower upper b : Nat} (h : lower ≤ b ∧ b ≤ upper) :
    step ⟨point, n + 2, lower, upper⟩ b = (⟨point * 64 + b % 64, n + 1, 0x80, 0xBF⟩, []) := by
  rw [step, if_neg (Nat.succ_ne_zero _), if_pos h]
  rfl

/-- A byte that goes on with a character and is no special second one. -/
theorem continues (c : Nat) : 0x80 ≤ 128 + c % 64 ∧ 128 + c % 64 ≤ 0xBF := by omega

/-- The bytes of a code point are read as it. -/
theorem feed_encodePoint {c : Nat} {bs : List Nat} (h : Bytes.encodePoint c = some bs)
    (rest : List Nat) :
    feed {} (bs ++ rest) = ((feed {} rest).1, c :: (feed {} rest).2) := by
  unfold Bytes.encodePoint at h
  split_ifs at h with h1 h2 hsurrogate h3 h4
  · cases h
    exact feed_cons (step_ascii h1) rest
  · cases h
    have hlead : step {} (192 + c / 64) = (⟨c / 64, 1, 0x80, 0xBF⟩, []) := by
      rw [step, if_pos rfl, lead, if_neg (by omega), if_pos (by omega)]
      have hbits : (192 + c / 64) % 32 = c / 64 := by omega
      rw [hbits]
    have hpoint : c / 64 * 64 + (128 + c % 64) % 64 = c := by omega
    rw [List.cons_append, feed_cons hlead, List.cons_append, List.nil_append,
      feed_cons (step_last (continues c)), hpoint]
    rfl
  · cases h
    simp only [Str.isHigh, Str.isLow, Bool.or_eq_true, decide_eq_true_eq, not_or,
      not_and_or] at hsurrogate
    have hlead : step {} (224 + c / 4096) =
        (⟨c / 4096, 2, if 224 + c / 4096 = 0xE0 then 0xA0 else 0x80, if 224 + c / 4096 = 0xED then
        0x9F else 0xBF⟩, []) := by
      rw [step, if_pos rfl, lead, if_neg (by omega), if_neg (by omega), if_pos (by omega)]
      have hbits : (224 + c / 4096) % 16 = c / 4096 := by omega
      rw [hbits]
    -- no shorter encoding, and no surrogate
    have hsecond : (if 224 + c / 4096 = 0xE0 then 0xA0 else 0x80) ≤ 128 + c / 64 % 64 ∧
        128 + c / 64 % 64 ≤ if 224 + c / 4096 = 0xED then 0x9F else 0xBF := by
      constructor <;> split_ifs <;> omega
    have hpoint : (c / 4096 * 64 + (128 + c / 64 % 64) % 64) * 64 + (128 + c % 64) % 64 = c := by
      omega
    rw [List.cons_append, feed_cons hlead, List.cons_append, feed_cons (step_next hsecond),
      List.cons_append, List.nil_append,
      feed_cons (step_last (continues c)), hpoint]
    rfl
  · cases h
    have hlead : step {} (240 + c / 262144) =
        (⟨c / 262144, 3, if 240 + c / 262144 = 0xF0 then 0x90 else 0x80, if 240 + c / 262144 =
        0xF4 then 0x8F else 0xBF⟩, []) := by
      rw [step, if_pos rfl, lead, if_neg (by omega), if_neg (by omega), if_neg (by omega),
        if_pos (by omega)]
      have hbits : (240 + c / 262144) % 8 = c / 262144 := by omega
      rw [hbits]
    -- no shorter encoding, and no more than U+10FFFF
    have hsecond : (if 240 + c / 262144 = 0xF0 then 0x90 else 0x80) ≤ 128 + c / 4096 % 64 ∧
        128 + c / 4096 % 64 ≤ if 240 + c / 262144 = 0xF4 then 0x8F else 0xBF := by
      constructor <;> split_ifs <;> omega
    have hpoint :
        ((c / 262144 * 64 + (128 + c / 4096 % 64) % 64) * 64 + (128 + c / 64 % 64) % 64) * 64 +
        (128 + c % 64) % 64 = c := by
      omega
    rw [List.cons_append, feed_cons hlead, List.cons_append, feed_cons (step_next hsecond),
      List.cons_append,
      feed_cons (step_next (continues (c / 64))), List.cons_append, List.nil_append,
      feed_cons (step_last (continues c)), hpoint]
    rfl

theorem feed_encodeUtf8 {s : Str} {bs : List Nat} (h : Bytes.encodeUtf8 s = some bs) :
    feed {} bs = ({}, s) := by
  induction s generalizing bs with
  | nil =>
    cases h
    rfl
  | cons c s ih =>
    rw [Bytes.encodeUtf8_cons] at h
    obtain ⟨cs, hc, hrest⟩ := Option.bind_eq_some_iff.1 h
    obtain ⟨ds, hs, rfl⟩ := Option.map_eq_some_iff.1 hrest
    rw [feed_encodePoint hc, ih hs]

end Utf8

namespace TextDecoder

theorem decode_encodeUtf8 {s : Str} {bs : List Nat} (h : Bytes.encodeUtf8 s = some bs) :
    decode bs = Str.units (emit false s).2 := by
  rw [decode, Utf8.feed_encodeUtf8 h]
  simp [Utf8.finish]

theorem emit_of_head {s : Str} (h : s.head? ≠ some 0xFEFF) : (emit false s).2 = s := by
  cases s with
  | nil => rfl
  | cons c s =>
    have hc : c ≠ 0xFEFF := fun hc => h (congrArg some hc)
    rw [emit, if_neg fun hmark => hc hmark.2]

/-- Pieces that are texts of their own, of which no later one begins with a byte order mark, are
decoded one by one. -/
theorem decode_flatten {texts : List Str} {pieces : List (List Nat)}
    (h : texts.mapM Bytes.encodeUtf8 = some pieces)
    (hmark : ∀ t ∈ texts.tail, t.head? ≠ some 0xFEFF) : (pieces.map decode).flatten =
    decode pieces.flatten := by
  have hwhole : Bytes.encodeUtf8 texts.flatten = some pieces.flatten := by
    rw [Bytes.encodeUtf8_flatten, h, Option.map_some]
  rw [decode_encodeUtf8 hwhole]
  have hlater : ∀ {texts : List Str} {pieces : List (List Nat)}, texts.mapM Bytes.encodeUtf8 =
    some pieces →
      (∀ t ∈ texts, t.head? ≠ some 0xFEFF) →
        (pieces.map decode).flatten = Str.units texts.flatten ∧
        texts.flatten.head? ≠ some 0xFEFF := by
    intro texts
    induction texts with
    | nil =>
      intro pieces h _
      cases h
      exact ⟨rfl, nofun⟩
    | cons t texts ih =>
      intro pieces h hheads
      rw [List.mapM_cons] at h
      obtain ⟨piece, hpiece, h⟩ := Option.bind_eq_some_iff.1 h
      obtain ⟨rest, hrest, h⟩ := Option.bind_eq_some_iff.1 h
      cases h
      obtain ⟨ht, htexts⟩ := List.forall_mem_cons.1 hheads
      obtain ⟨hdecoded, hhead⟩ := ih hrest htexts
      constructor
      · rw [List.map_cons, List.flatten_cons, hdecoded, decode_encodeUtf8 hpiece, emit_of_head ht,
          List.flatten_cons,
          Str.units_append]
      · cases t with
        | nil => exact hhead
        | cons c t => exact ht
  cases texts with
  | nil =>
    cases h
    rfl
  | cons t texts =>
    rw [List.mapM_cons] at h
    obtain ⟨piece, hpiece, h⟩ := Option.bind_eq_some_iff.1 h
    obtain ⟨rest, hrest, h⟩ := Option.bind_eq_some_iff.1 h
    cases h
    obtain ⟨hdecoded, hhead⟩ := hlater hrest hmark
    rw [List.map_cons, List.flatten_cons, hdecoded, decode_encodeUtf8 hpiece, List.flatten_cons]
    cases t with
    | nil =>
      rw [List.nil_append, emit_of_head hhead]
      rfl
    | cons c t =>
      rw [← Str.units_append, List.cons_append, emit, emit]
      split_ifs <;> rfl

end TextDecoder
