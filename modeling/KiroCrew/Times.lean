import KiroCrew.Control
import KiroCrew.Lib.Calendar

/-!
# Stored times compare as times

`_iso` and `_timestamp` print a `datetime` of any year; two printed times compare as the times do
unless they fall in one second and one of them has no fraction (`compares_iff`), since `isoformat`
leaves a zero fraction out and `.` is less than `Z`. `fromisoformat` reads back what was printed
(`fromisoformat_isoformat`).
-/

namespace KiroCrew

open Instant (digits)

/-- A `datetime` in UTC: the microseconds since the start of the year 1, up to the end of the year
9999. -/
structure DateTime where
  micros : Nat
  inRange : micros < 315537897600 * 1000000
deriving DecidableEq, Repr

namespace DateTime

instance : LT DateTime := ⟨fun a b => a.micros < b.micros⟩
instance (a b : DateTime) : Decidable (a < b) := inferInstanceAs (Decidable (a.micros < b.micros))

/-- The date and the time of day of a second. -/
def whole (s : Nat) : List Char :=
  let (y, m, d) := Calendar.date (s / 86400 + 306)
  digits 4 y ++ '-' :: digits 2 m ++ '-' :: digits 2 d ++ 'T' :: digits 2 (s / 3600 % 24) ++
    ':' :: digits 2 (s / 60 % 60) ++ ':' :: digits 2 (s % 60)

def fraction (us : Nat) : List Char := if us = 0 then [] else '.' :: digits 6 us

/-- `value.isoformat()` -/
def isoformat (t : DateTime) : List Char :=
  whole (t.micros / 1000000) ++ fraction (t.micros % 1000000) ++ "+00:00".toList

/-- `value.isoformat().replace("+00:00", "Z")`, where the offset is the last thing printed. -/
def iso (t : DateTime) : List Char :=
  whole (t.micros / 1000000) ++ fraction (t.micros % 1000000) ++ ['Z']

end DateTime

/-- Before the year 10000. -/
def Instant.Dated (t : Instant) : Prop := t.micros < 253402300800 * 1000000

def Instant.dateTime (t : Instant) (h : t.Dated) : DateTime where
  micros := t.micros + 62135596800 * 1000000
  inRange := by
    unfold Instant.Dated at h
    omega

namespace DateTime

/-! ## Digits -/

theorem length_digits (w n : Nat) : (digits w n).length = w := by
  induction w generalizing n with
  | zero => rfl
  | succ w ih => rw [Instant.digits, List.length_append, ih, List.length_singleton]

theorem digit_lt : ∀ k < 10, ∀ k' < 10, (Char.ofNat (48 + k) < Char.ofNat (48 + k') ↔ k < k') := by
  decide

variable {w n n' s s' us us' : Nat} {r r' : List Char} {c : Char}

theorem digits_lt_iff (h : n < 10 ^ w) (h' : n' < 10 ^ w) : digits w n < digits w n' ↔ n < n' := by
  induction w generalizing n n' with
  | zero =>
    rw [Nat.pow_zero, Nat.lt_one_iff] at h h'
    subst h h'
    simp [Instant.digits]
  | succ w ih =>
    rw [Nat.pow_succ] at h h'
    have hdiv : n / 10 < 10 ^ w := by omega
    have hdiv' : n' / 10 < 10 ^ w := by omega
    have heq : digits w (n / 10) = digits w (n' / 10) ↔ n / 10 = n' / 10 := by
      refine ⟨fun heq => ?_, fun heq => heq ▸ rfl⟩
      have hnot := (ih hdiv hdiv').not.1 (heq ▸ lt_irrefl _)
      have hnot' := (ih hdiv' hdiv).not.1 (heq ▸ lt_irrefl _)
      omega
    rw [Instant.digits, Instant.digits, List.append_lt_append_iff
      (by rw [length_digits, length_digits]), ih hdiv hdiv', heq,
      List.cons_lt_cons_iff, digit_lt _ (Nat.mod_lt _ (by decide)) _ (Nat.mod_lt _ (by decide))]
    simp only [List.not_lt_nil, and_false, or_false]
    omega

theorem field_lt (h : n < 10 ^ w) (h' : n' < 10 ^ w) (hlt : n < n' ∨ n = n' ∧ r < r') :
    digits w n ++ c :: r < digits w n' ++ c :: r' := by
  rw [List.append_lt_append_iff (by rw [length_digits, length_digits])]
  rcases hlt with hlt | ⟨rfl, hlt⟩
  · exact Or.inl ((digits_lt_iff h h').2 hlt)
  · exact Or.inr ⟨rfl, List.cons_lt_cons_iff.2 (Or.inr ⟨rfl, hlt⟩)⟩

/-! ## The order of the texts -/

theorem whole_eq (s : Nat) : whole s = digits 4 (Calendar.date (s / 86400 + 306)).1 ++ '-' ::
    (digits 2 (Calendar.date (s / 86400 + 306)).2.1 ++ '-' ::
    (digits 2 (Calendar.date (s / 86400 + 306)).2.2 ++ 'T' ::
    (digits 2 (s / 3600 % 24) ++ ':' ::
    (digits 2 (s / 60 % 60) ++ ':' :: digits 2 (s % 60))))) := by
  simp [whole, List.append_assoc]

theorem length_whole (s : Nat) : (whole s).length = 19 := by
  simp [whole_eq, length_digits]

theorem year_lt (h : s < 315537897600) : (Calendar.date (s / 86400 + 306)).1 < 10 ^ 4 := by
  obtain ⟨year, month, d, hfalls, hdate⟩ := Calendar.date_falls (s / 86400 + 306)
  have heq := hfalls.eq
  have hpos := hfalls.pos
  have hyear : year < 10000 := by
    by_contra hge
    have hmono := Calendar.yearStart_mono (show 10000 ≤ year by omega)
    have hstart : Calendar.yearStart 10000 = 3652425 := by decide
    omega
  rw [hdate]
  unfold Calendar.calendar
  split
  · exact hyear
  · next hmonth =>
    -- January and February of the year 10000 are not reached
    by_contra hge
    obtain rfl : year = 9999 := by
      dsimp only at hge
      omega
    have hstart : Calendar.yearStart 9999 = 3652059 := by decide
    have hfirst := Calendar.monthStart_mono (show 10 ≤ month by omega)
    have hten : Calendar.monthStart 10 = 306 := by decide
    omega

theorem year_pos (days : Nat) : 1 ≤ (Calendar.date (days + 306)).1 := by
  obtain ⟨year, month, d, hfalls, hdate⟩ := Calendar.date_falls (days + 306)
  have heq := hfalls.eq
  have hin := hfalls.inYear
  have hmonth := hfalls.inMonth
  rw [hdate]
  unfold Calendar.calendar
  split
  · next hlt =>
    -- from March to December the days of the year 0 are fewer
    by_contra hzero
    obtain rfl : year = 0 := by
      dsimp only at hzero
      omega
    have hlast := Calendar.monthStart_mono (show month + 1 ≤ 10 by omega)
    have hten : Calendar.monthStart 10 = 306 := by decide
    have hstart : Calendar.yearStart 0 = 0 := by decide
    omega
  · exact Nat.succ_pos _

theorem whole_lt (h : s < s') (h' : s' < 315537897600) : whole s < whole s' := by
  have hyear := year_lt (h.trans h')
  have hyear' := year_lt h'
  have hbounds := Calendar.date_bounds (s / 86400 + 306)
  have hbounds' := Calendar.date_bounds (s' / 86400 + 306)
  rw [whole_eq, whole_eq]
  have hclock : s / 3600 % 24 < 10 ^ 2 ∧ s / 60 % 60 < 10 ^ 2 ∧ s % 60 < 10 ^ 2 := by omega
  have hclock' : s' / 3600 % 24 < 10 ^ 2 ∧ s' / 60 % 60 < 10 ^ 2 ∧ s' % 60 < 10 ^ 2 := by omega
  rcases Nat.lt_or_eq_of_le (Nat.div_le_div_right h.le : s / 86400 ≤ s' / 86400) with hday | hday
  · -- a later day
    have hdate := Calendar.date_lt (Nat.add_lt_add_right hday 306)
    generalize Calendar.date (s / 86400 + 306) = x at *
    generalize Calendar.date (s' / 86400 + 306) = x' at *
    refine field_lt hyear hyear' (hdate.imp_right fun ⟨hy, hrest⟩ => ⟨hy, ?_⟩)
    refine field_lt (by omega) (by omega) (hrest.imp_right fun ⟨hm, hd⟩ => ⟨hm, ?_⟩)
    exact field_lt (by omega) (by omega) (Or.inl hd)
  · -- later on the same day
    rw [hday] at hyear hbounds ⊢
    refine field_lt hyear hyear (Or.inr ⟨rfl, field_lt (by omega) (by omega) (Or.inr ⟨rfl, ?_⟩)⟩)
    refine field_lt (by omega) (by omega) (Or.inr ⟨rfl, ?_⟩)
    rcases Nat.lt_or_ge (s / 3600 % 24) (s' / 3600 % 24) with hhour | hhour
    · exact field_lt hclock.1 hclock'.1 (Or.inl hhour)
    · refine field_lt hclock.1 hclock'.1 (Or.inr ⟨by omega, ?_⟩)
      rcases Nat.lt_or_ge (s / 60 % 60) (s' / 60 % 60) with hminute | hminute
      · exact field_lt hclock.2.1 hclock'.2.1 (Or.inl hminute)
      · refine field_lt hclock.2.1 hclock'.2.1 (Or.inr ⟨by omega, ?_⟩)
        exact (digits_lt_iff hclock.2.2 hclock'.2.2).2 (by omega)

theorem whole_lt_iff (h : s < 315537897600) (h' : s' < 315537897600) : whole s < whole s' ↔
    s < s' := by
  refine ⟨fun hlt => ?_, fun hlt => whole_lt hlt h'⟩
  by_contra hge
  rcases Nat.lt_or_eq_of_le (Nat.le_of_not_lt hge) with hgt | rfl
  · exact lt_asymm hlt (whole_lt hgt h)
  · exact lt_irrefl _ hlt

theorem whole_inj (h : s < 315537897600) (h' : s' < 315537897600) (heq : whole s = whole s') :
    s = s' := by
  have hnot := (whole_lt_iff h h').not.1 (heq ▸ lt_irrefl _)
  have hnot' := (whole_lt_iff h' h).not.1 (heq ▸ lt_irrefl _)
  omega

/-- A fraction is before none, and `Z` ends both. -/
theorem fraction_lt_iff (h : us < 1000000) (h' : us' < 1000000) :
    fraction us ++ ['Z'] < fraction us' ++ ['Z'] ↔ us ≠ 0 ∧ (us' = 0 ∨ us < us') := by
  have hdot : '.' < 'Z' ∧ ¬ 'Z' < '.' ∧ 'Z' ≠ '.' ∧ '.' ≠ 'Z' := by decide
  unfold fraction
  by_cases hus : us = 0
  · by_cases hus' : us' = 0
    · simp [hus, hus']
    · rw [if_pos hus, if_neg hus', List.nil_append, List.cons_append, List.cons_lt_cons_iff]
      simp [hdot, hus]
  · by_cases hus' : us' = 0
    · rw [if_neg hus, if_pos hus', List.nil_append, List.cons_append, List.cons_lt_cons_iff]
      simp [hdot, hus, hus']
    · rw [if_neg hus, if_neg hus', List.cons_append, List.cons_append, List.cons_lt_cons_iff,
        List.append_lt_append_iff (by rw [length_digits, length_digits]),
        digits_lt_iff (w := 6) h h']
      simp [hus, hus']

theorem iso_lt_iff (a b : DateTime) : a.iso < b.iso ↔ a.micros / 1000000 < b.micros / 1000000 ∨
    a.micros / 1000000 = b.micros / 1000000 ∧
      (a.micros % 1000000 ≠ 0 ∧
      (b.micros % 1000000 = 0 ∨ a.micros % 1000000 < b.micros % 1000000)) := by
  have ha := a.inRange
  have hb := b.inRange
  have hsecond : a.micros / 1000000 < 315537897600 := by omega
  have hsecond' : b.micros / 1000000 < 315537897600 := by omega
  unfold iso
  rw [List.append_assoc, List.append_assoc, List.append_lt_append_iff
    (by rw [length_whole, length_whole]), whole_lt_iff hsecond hsecond',
    fraction_lt_iff (Nat.mod_lt _ (by decide)) (Nat.mod_lt _ (by decide))]
  refine or_congr_right (and_congr_left' ⟨whole_inj hsecond hsecond', fun heq => by rw [heq]⟩)

/-- Two times of one second, just one of them without a fraction. -/
def Clash (a b : DateTime) : Prop :=
  a.micros / 1000000 = b.micros / 1000000 ∧ ¬ (a.micros % 1000000 = 0 ↔ b.micros % 1000000 = 0)

instance (a b : DateTime) : Decidable (Clash a b) := inferInstanceAs (Decidable (_ ∧ _))

theorem lt_iff_iso_lt (a b : DateTime) : (a < b ↔ a.iso < b.iso) ↔ ¬ Clash a b := by
  rw [iso_lt_iff]
  show (a.micros < b.micros ↔ _) ↔ ¬ (_ ∧ _)
  omega

end DateTime

/-! ## The times of a record -/

theorem DateTime.whole_add (s : Nat) : DateTime.whole (s + 62135596800) =
    (let (y, m, d) := Instant.civil (s / 86400)
  digits 4 y ++ '-' :: digits 2 m ++ '-' :: digits 2 d ++ 'T' :: digits 2 (s / 3600 % 24) ++
    ':' :: digits 2 (s / 60 % 60) ++ ':' :: digits 2 (s % 60)) := by
  have hday : (s + 62135596800) / 86400 + 306 = s / 86400 + 719468 := by omega
  have hhour : (s + 62135596800) / 3600 % 24 = s / 3600 % 24 := by omega
  have hminute : (s + 62135596800) / 60 % 60 = s / 60 % 60 := by omega
  have hsec : (s + 62135596800) % 60 = s % 60 := by omega
  have hcivil : Calendar.date (s / 86400 + 719468) = Instant.civil (s / 86400) := rfl
  unfold DateTime.whole
  rw [hday, hhour, hminute, hsec, hcivil]

theorem Instant.iso_dateTime (t : Instant) (h : t.Dated) : (t.dateTime h).iso = t.iso := by
  have hsecond : (t.micros + 62135596800 * 1000000) / 1000000 = t.micros / 1000000 +
    62135596800 := by omega
  have hfraction : (t.micros + 62135596800 * 1000000) % 1000000 = t.micros % 1000000 := by omega
  show DateTime.whole ((t.micros + 62135596800 * 1000000) / 1000000) ++ DateTime.fraction
    ((t.micros + 62135596800 * 1000000) % 1000000) ++ ['Z'] = _
  rw [hsecond, hfraction, DateTime.whole_add]
  rfl

/-- Two times of one second, just one of them without a fraction. -/
def Instant.Clash (a b : Instant) : Prop :=
  a.epoch = b.epoch ∧ ¬ (a.micros % 1000000 = 0 ↔ b.micros % 1000000 = 0)

instance (a b : Instant) : Decidable (a.Clash b) := inferInstanceAs (Decidable (_ ∧ _))

theorem Instant.isoLt_eq_iff {a b : Instant} (ha : a.Dated) (hb : b.Dated) :
    a.isoLt b = decide (a < b) ↔ ¬ a.Clash b := by
  have hiff := DateTime.lt_iff_iso_lt (a.dateTime ha) (b.dateTime hb)
  have hlt : a.dateTime ha < b.dateTime hb ↔ a < b := Nat.add_lt_add_iff_right
  have hclash : DateTime.Clash (a.dateTime ha) (b.dateTime hb) ↔ a.Clash b := by
    show ((a.micros + 62135596800 * 1000000) / 1000000 = (b.micros + 62135596800 * 1000000) /
      1000000 ∧
      ¬ ((a.micros + 62135596800 * 1000000) % 1000000 = 0 ↔ (b.micros + 62135596800 * 1000000) %
      1000000 = 0)) ↔
      a.micros / 1000000 = b.micros / 1000000 ∧ ¬ (a.micros % 1000000 = 0 ↔ b.micros % 1000000 = 0)
    omega
  rw [iso_dateTime, iso_dateTime, hlt, hclash] at hiff
  rw [← hiff, Instant.isoLt, decide_eq_decide]
  exact Iff.comm

/-- The comparisons of times of two records of the table. -/
theorem compares_iff (a b : DateTime) :
    ((a < b ↔ a.iso < b.iso) ↔ ¬ DateTime.Clash a b) ∧
    (∀ lease now : Instant, lease.Dated → now.Dated →
      (lease.isoLt now = decide (lease < now) ↔ ¬ lease.Clash now)) ∧
    (∀ served now : Instant, served.Dated → now.Dated →
      (served.isoLt (now.subSeconds takeoverIdle) = decide (served < now.subSeconds takeoverIdle) ↔
      ¬ served.Clash (now.subSeconds takeoverIdle))) ∧
    ∀ lease now : Instant, lease.Dated → now.Dated →
        ((!lease.isoLt now) = decide (now ≤ lease) ↔ ¬ lease.Clash now) := by
  refine ⟨DateTime.lt_iff_iso_lt a b, fun lease now =>
    Instant.isoLt_eq_iff, fun served now hserved hnow => ?_, fun lease now hlease hnow => ?_⟩
  · refine Instant.isoLt_eq_iff hserved (lt_of_le_of_lt ?_ hnow)
    exact Nat.sub_le _ _
  · rw [← Instant.isoLt_eq_iff hlease hnow]
    have hle : decide (now ≤ lease) = !decide (lease < now) := by
      rw [← decide_not, decide_eq_decide]
      exact Instant.not_lt.symm
    rw [hle, Bool.not_inj_iff]

theorem compares_iff_fractions : (⟨1767225600250000⟩ : Instant).isoLt ⟨1767225600500000⟩ =
    decide ((⟨1767225600250000⟩ : Instant) < ⟨1767225600500000⟩) :=
  ((compares_iff ⟨0, by decide⟩ ⟨0, by decide⟩).2.1 _ _ (by unfold Instant.Dated; decide)
    (by unfold Instant.Dated; decide)).2 (by decide)

/-- A lease that ends with the second, and a deadline half a second later. -/
theorem whole_second_sorts_last : ¬ ∀ a b : DateTime, a < b ↔ a.iso < b.iso := by
  intro h
  have hlt :=
    (h ((Instant.ofEpoch 1767225600).dateTime (by unfold Instant.Dated Instant.ofEpoch; decide))
    ((⟨1767225600500000⟩ : Instant).dateTime (by unfold Instant.Dated; decide))).1 (by decide)
  revert hlt
  decide

/-! ## Reading -/

namespace DateTime

def isNumeral (s : List Char) : Bool := s.all fun c => decide (48 ≤ c.toNat ∧ c.toNat ≤ 57)

def readNumber (s : List Char) : Nat := s.foldl (fun n c => 10 * n + (c.toNat - 48)) 0

/-- The number in the next `w` characters. -/
def readField (w : Nat) (s : List Char) : Option (Nat × List Char) :=
  if (s.take w).length = w ∧ isNumeral (s.take w) = true then some (readNumber (s.take w), s.drop w)
    else none

def readChar (c : Char) : List Char → Option (List Char)
  | [] => none
  | x :: s => if x = c then some s else none

def readFraction : List Char → Option (Nat × List Char)
  | '.' :: s => readField 6 s
  | s => some (0, s)

/-- `datetime(y, m, d, hour, minute, second, us, UTC)` -/
def ofFields (y m d hour minute second us : Nat) : Option DateTime :=
  let days := Calendar.number (y, m, d) - 306
  if h : ((days * 24 + hour) * 60 + minute) * 60 * 1000000 + second * 1000000 + us < 315537897600 *
      1000000 then
    if Calendar.date (days + 306) = (y, m, d) ∧ 1 ≤ y ∧ hour < 24 ∧ minute < 60 ∧
      second < 60 then some ⟨_, h⟩ else none
  else none

/-- A field and the character after it. -/
def readPart (w : Nat) (c : Char) (s : List Char) : Option (Nat × List Char) :=
  (readField w s).bind fun x => (readChar c x.2).map fun s => (x.1, s)

/-- `datetime.fromisoformat`, of the texts that `isoformat` prints of times in UTC. -/
def fromisoformat (s : List Char) : Option DateTime :=
  (readPart 4 '-' s).bind fun y => (readPart 2 '-' y.2).bind fun m =>
      (readPart 2 'T' m.2).bind fun d =>
    (readPart 2 ':' d.2).bind fun hour => (readPart 2 ':' hour.2).bind fun minute =>
        (readField 2 minute.2).bind fun second =>
      (readFraction second.2).bind fun us =>
        if us.2 = "+00:00".toList then ofFields y.1 m.1 d.1 hour.1 minute.1 second.1 us.1 else none

/-- `_datetime` -/
def read (value : List Char) : Option DateTime :=
  fromisoformat (value.flatMap fun c => if c = 'Z' then "+00:00".toList else [c])

theorem readNumber_digits (h : n < 10 ^ w) : readNumber (digits w n) = n ∧
    isNumeral (digits w n) = true := by
  induction w generalizing n with
  | zero =>
    rw [Nat.pow_zero, Nat.lt_one_iff] at h
    subst h
    decide
  | succ w ih =>
    obtain ⟨hread, hnumeral⟩ := ih (n := n / 10) (by rw [Nat.pow_succ] at h; omega)
    have hdigit : ∀ k < 10, (Char.ofNat (48 + k)).toNat = 48 + k := by decide
    have hlast := hdigit (n % 10) (Nat.mod_lt _ (by decide))
    constructor
    · rw [readNumber, Instant.digits, List.foldl_append, ← readNumber, hread, List.foldl_cons,
        List.foldl_nil, hlast]
      omega
    · rw [isNumeral, Instant.digits, List.all_append, ← isNumeral, hnumeral, Bool.true_and,
        List.all_cons, List.all_nil, Bool.and_true,
        decide_eq_true_iff, hlast]
      omega

theorem readField_digits (h : n < 10 ^ w) : readField w (digits w n ++ r) = some (n, r) := by
  have hlen := length_digits w n
  obtain ⟨hread, hnumeral⟩ := readNumber_digits h
  have htake : (digits w n ++ r).take w = digits w n := by
    rw [List.take_append_of_le_length (by omega), List.take_of_length_le (by omega)]
  have hdrop : (digits w n ++ r).drop w = r := by
    rw [List.drop_append_of_le_length (by omega), List.drop_of_length_le (by omega),
      List.nil_append]
  rw [readField, htake, hdrop, hread, if_pos ⟨hlen, hnumeral⟩]

theorem readFraction_fraction (h : us < 1000000) : readFraction (fraction us ++ "+00:00".toList) =
    some (us, "+00:00".toList) := by
  unfold fraction
  split
  · next hus =>
    subst hus
    rfl
  · exact readField_digits (w := 6) h

theorem readPart_digits (h : n < 10 ^ w) : readPart w c (digits w n ++ c :: r) = some (n, r) := by
  have hchar : readChar c (c :: r) = some r := if_pos rfl
  rw [readPart, readField_digits h, Option.bind_some, hchar, Option.map_some]

theorem ofFields_date (t : DateTime) : ofFields (Calendar.date (t.micros / 1000000 / 86400 + 306)).1
    (Calendar.date (t.micros / 1000000 / 86400 + 306)).2.1
      (Calendar.date (t.micros / 1000000 / 86400 + 306)).2.2
    (t.micros / 1000000 / 3600 % 24) (t.micros / 1000000 / 60 % 60) (t.micros / 1000000 % 60)
        (t.micros % 1000000) = some t := by
  have hrange := t.inRange
  have hday : Calendar.number (Calendar.date (t.micros / 1000000 / 86400 + 306)) - 306 = t.micros /
      1000000 / 86400 := by
    rw [Calendar.number_date, Nat.add_sub_cancel]
  have hyear : 1 ≤ (Calendar.date (t.micros / 1000000 / 86400 + 306)).1 := year_pos _
  have hmicros : ((t.micros / 1000000 / 86400 * 24 + t.micros / 1000000 / 3600 % 24) * 60 +
    t.micros / 1000000 / 60 % 60) * 60 * 1000000 +
      t.micros / 1000000 % 60 * 1000000 + t.micros % 1000000 = t.micros := by
    omega
  unfold ofFields
  simp only [Prod.mk.eta, hday, hmicros, hrange, dite_true]
  rw [if_pos ⟨trivial, hyear, by omega, by omega, by omega⟩]

theorem fromisoformat_fields {y m d hour minute second us : Nat} (hy : y < 10 ^ 4) (hm : m < 10 ^ 2)
    (hd : d < 10 ^ 2) (hhour : hour < 10 ^ 2)
    (hminute : minute < 10 ^ 2) (hsecond : second < 10 ^ 2) (hus : us < 1000000) :
    fromisoformat (digits 4 y ++ '-' ::
      (digits 2 m ++ '-' :: (digits 2 d ++ 'T' ::
      (digits 2 hour ++ ':' :: (digits 2 minute ++ ':' ::
      (digits 2 second ++ (fraction us ++ "+00:00".toList))))))) =
      ofFields y m d hour minute second us := by
  rw [fromisoformat, readPart_digits hy, Option.bind_some, readPart_digits hm, Option.bind_some,
    readPart_digits hd, Option.bind_some,
    readPart_digits hhour, Option.bind_some, readPart_digits hminute, Option.bind_some,
    readField_digits hsecond, Option.bind_some,
    readFraction_fraction hus, Option.bind_some, if_pos rfl]

theorem fromisoformat_isoformat (t : DateTime) : fromisoformat t.isoformat = some t := by
  have hrange := t.inRange
  have hsecond : t.micros / 1000000 < 315537897600 := by omega
  have hbounds := Calendar.date_bounds (t.micros / 1000000 / 86400 + 306)
  unfold isoformat
  rw [whole_eq]
  simp only [List.append_assoc, List.cons_append]
  rw [fromisoformat_fields (year_lt hsecond) (by omega) (by omega) (by omega) (by omega) (by omega)
    (Nat.mod_lt _ (by decide)), ofFields_date]

theorem not_mem_digits (w n : Nat) : 'Z' ∉ digits w n := by
  induction w generalizing n with
  | zero => exact List.not_mem_nil
  | succ w ih =>
    have hdigit : ∀ k < 10, 'Z' ≠ Char.ofNat (48 + k) := by decide
    rw [Instant.digits, List.mem_append, List.mem_singleton, not_or]
    exact ⟨ih _, hdigit _ (Nat.mod_lt _ (by decide))⟩

theorem flatMap_of_not_mem {s : List Char} (h : 'Z' ∉ s) :
    (s.flatMap fun c => if c = 'Z' then "+00:00".toList else [c]) = s := by
  induction s with
  | nil => rfl
  | cons c s ih =>
    rw [List.mem_cons, not_or] at h
    rw [List.flatMap_cons, if_neg (Ne.symm h.1), ih h.2]
    rfl

/-- A stored time is read as the time it was printed from. -/
theorem read_iso (t : DateTime) : read t.iso = some t := by
  have hwhole : 'Z' ∉ whole (t.micros / 1000000) := by simp [whole_eq, not_mem_digits]
  have hfraction : 'Z' ∉ fraction (t.micros % 1000000) := by
    unfold fraction
    split
    · exact List.not_mem_nil
    · simp [not_mem_digits]
  have hoffset : ((['Z'] : List Char).flatMap fun c => if c = 'Z' then "+00:00".toList else [c]) =
    "+00:00".toList := rfl
  rw [read, iso, List.flatMap_append, List.flatMap_append, flatMap_of_not_mem hwhole,
    flatMap_of_not_mem hfraction, hoffset]
  exact fromisoformat_isoformat t

end DateTime

end KiroCrew
