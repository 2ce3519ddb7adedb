import Mathlib

/-!
# Dates and fixed-width digits

The proleptic Gregorian date of a day number (`Calendar.date`), counted from 0000-03-01 so that the
leap day ends a year. A later day has a later date (`date_lt`), and `number` gives the day number
back. Texts of one length before a rest are compared before the rests (`append_lt_append_iff`).
-/

/-- Texts of one length decide before what follows them. -/
theorem List.append_lt_append_iff {α : Type} [LinearOrder α] {l l' r r' : List α}
    (h : l.length = l'.length) :
    l ++ r < l' ++ r' ↔ l < l' ∨ l = l' ∧ r < r' := by
  induction l generalizing l' with
  | nil =>
    obtain rfl := List.length_eq_zero_iff.1 h.symm
    simp
  | cons a l ih =>
    cases l' with
    | nil => cases h
    | cons a' l' =>
      rw [List.cons_append, List.cons_append, List.cons_lt_cons_iff, List.cons_lt_cons_iff,
        ih (Nat.succ.inj h), List.cons.injEq]
      tauto

namespace Calendar

/-- The first day of the year from March. -/
def yearStart (year : Nat) : Nat := 365 * year + year / 4 - year / 100 + year / 400

/-- The days of the year before a month from March. -/
def monthStart (month : Nat) : Nat := (153 * month + 2) / 5

/-- The year of a day within its 400 years. -/
def yearOfEra (doe : Nat) : Nat := (doe - doe / 1460 + doe / 36524 - doe / 146096) / 365

/-- The month of a day of the year. -/
def monthOf (doy : Nat) : Nat := (5 * doy + 2) / 153

/-- Year, month and day. -/
def date (z : Nat) : Nat × Nat × Nat :=
  let yoe := yearOfEra (z % 146097)
  let doy := z % 146097 - (365 * yoe + yoe / 4 - yoe / 100)
  let mp := monthOf doy
  let m := if mp < 10 then mp + 3 else mp - 9
  (yoe + z / 146097 * 400 + (if m ≤ 2 then 1 else 0), m, doy - monthStart mp + 1)

/-- The day number of a date. -/
def number (x : Nat × Nat × Nat) : Nat :=
  let year := if x.2.1 ≤ 2 then x.1 - 1 else x.1
  let month := if x.2.1 ≤ 2 then x.2.1 + 9 else x.2.1 - 3
  yearStart year + monthStart month + x.2.2 - 1

/-- The year and month of the calendar from those counted from March. -/
def calendar (year month d : Nat) : Nat × Nat × Nat :=
  if month < 10 then (year, month + 3, d) else (year + 1, month - 9, d)

/-- The day is the `d`th of the month of the year, both counted from March. -/
structure Falls (z year month d : Nat) : Prop where
  eq : z + 1 = yearStart year + monthStart month + d
  pos : 0 < d
  inYear : z < yearStart (year + 1)
  inMonth : monthStart month + d ≤ monthStart (month + 1)
  month : month < 12

variable {z z' year year' month month' d d' : Nat}

theorem yearOfEra_bounds {doe : Nat} (h : doe < 146097) :
    yearStart (yearOfEra doe) ≤ doe ∧ doe < yearStart (yearOfEra doe + 1) ∧
    yearOfEra doe < 400 := by
  unfold yearStart
  by_cases hlast : doe = 146096
  · subst hlast
    decide
  -- century, leap cycle and year of the day
  obtain ⟨e, r, hr, rfl, he⟩ : ∃ e r, r < 36524 ∧ doe = 36524 * e + r ∧ e < 4 :=
    ⟨doe / 36524, doe % 36524, by omega, by omega, by omega⟩
  obtain ⟨q, t, ht, rfl, hq⟩ : ∃ q t, t < 1461 ∧ r = 1461 * q + t ∧ q < 25 :=
    ⟨r / 1461, r % 1461, by omega, by omega, by omega⟩
  obtain ⟨u, hu, hut⟩ : ∃ u, u < 4 ∧ (365 * u ≤ t ∧ (t < 365 * (u + 1) ∨ u = 3)) := by
    by_cases h3 : t = 1460
    · exact ⟨3, by omega, by omega, by omega⟩
    · exact ⟨t / 365, by omega, by omega, by omega⟩
  have hyear : yearOfEra (36524 * e + (1461 * q + t)) = 100 * e + 4 * q + u := by
    unfold yearOfEra
    interval_cases e <;> interval_cases u <;> omega
  rw [hyear]
  have h4 : (100 * e + 4 * q + u) / 4 = 25 * e + q := by omega
  have h100 : (100 * e + 4 * q + u) / 100 = e := by omega
  rw [h4, h100]
  refine ⟨by omega, ?_, by omega⟩
  by_cases hu3 : u < 3
  · have h4' : (100 * e + 4 * q + u + 1) / 4 = 25 * e + q := by omega
    have h100' : (100 * e + 4 * q + u + 1) / 100 = e := by omega
    rw [h4', h100']
    omega
  · obtain rfl : u = 3 := by omega
    by_cases hq' : q = 24
    · subst hq'
      interval_cases e <;> omega
    · have h4' : (100 * e + 4 * q + 3 + 1) / 4 = 25 * e + q + 1 := by omega
      have h100' : (100 * e + 4 * q + 3 + 1) / 100 = e := by omega
      rw [h4', h100']
      omega

theorem yearStart_add_era {yoe era : Nat} : yearStart (yoe + era * 400) = yearStart yoe + era *
    146097 := by
  unfold yearStart
  omega

theorem yearStart_lt : yearStart year + 365 ≤ yearStart (year + 1) ∧
    yearStart (year + 1) ≤ yearStart year + 366 := by
  unfold yearStart
  omega

theorem yearStart_mono (h : year ≤ year') : yearStart year ≤ yearStart year' :=
  monotone_nat_of_le_succ (fun year => by have hlen := @yearStart_lt year; omega) h

theorem monthStart_mono (h : month ≤ month') : monthStart month ≤ monthStart month' := by
  unfold monthStart
  omega

theorem monthOf_bounds {doy : Nat} (h : doy < 366) : monthStart (monthOf doy) ≤ doy ∧
    doy < monthStart (monthOf doy + 1) ∧ monthOf doy < 12 := by
  unfold monthOf monthStart
  omega

theorem date_falls (z : Nat) : ∃ year month d, Falls z year month d ∧
    date z = calendar year month d := by
  obtain ⟨hstart, hend, h400⟩ := yearOfEra_bounds (Nat.mod_lt z (by decide : 0 < 146097))
  have hlen := @yearStart_lt (yearOfEra (z % 146097))
  have hera : z = z % 146097 + z / 146097 * 146097 := by omega
  have hyear : 365 * yearOfEra (z % 146097) + yearOfEra (z % 146097) / 4 - yearOfEra (z % 146097) /
      100 = yearStart (yearOfEra (z % 146097)) := by
    unfold yearStart
    omega
  unfold date
  dsimp only
  rw [hyear]
  generalize yearOfEra (z % 146097) = yoe at *
  generalize z % 146097 = doe at *
  generalize z / 146097 = era at *
  obtain ⟨doy, rfl⟩ := Nat.exists_eq_add_of_le hstart
  rw [Nat.add_sub_cancel_left]
  obtain ⟨hfirst, hlast, htwelve⟩ := @monthOf_bounds doy (by omega)
  generalize monthOf doy = mp at *
  refine ⟨yoe + era * 400, mp, doy - monthStart mp + 1, ⟨?_, Nat.succ_pos _, ?_, by omega, htwelve⟩,
    ?_⟩
  · rw [yearStart_add_era]
    omega
  · rw [Nat.add_right_comm, yearStart_add_era]
    omega
  · unfold calendar
    by_cases hmp : mp < 10
    · rw [if_pos hmp, if_pos hmp, if_neg (by omega)]
      rfl
    · rw [if_neg hmp, if_neg hmp, if_pos (by omega)]

/-- An earlier day falls in an earlier year or month, or earlier in the month. -/
theorem Falls.lt (h : Falls z year month d) (h' : Falls z' year' month' d') (hlt : z < z') :
    year < year' ∨ year = year' ∧ (month < month' ∨ month = month' ∧ d < d') := by
  have heq := h.eq
  have heq' := h'.eq
  have hyear : year ≤ year' := by
    by_contra hgt
    have hmono := yearStart_mono (show year' + 1 ≤ year by omega)
    have hin := h'.inYear
    have hpos := h.pos
    omega
  rcases Nat.lt_or_eq_of_le hyear with hyear | rfl
  · exact Or.inl hyear
  · refine Or.inr ⟨rfl, ?_⟩
    have hmonth : month ≤ month' := by
      by_contra hgt
      have hmono := monthStart_mono (show month' + 1 ≤ month by omega)
      have hin := h'.inMonth
      have hpos := h.pos
      omega
    rcases Nat.lt_or_eq_of_le hmonth with hmonth | rfl
    · exact Or.inl hmonth
    · exact Or.inr ⟨rfl, by omega⟩

theorem date_lt (h : z < z') : (date z).1 < (date z').1 ∨ (date z).1 = (date z').1 ∧
    ((date z).2.1 < (date z').2.1 ∨ (date z).2.1 = (date z').2.1 ∧
    (date z).2.2 < (date z').2.2) := by
  obtain ⟨year, month, d, hfalls, hdate⟩ := date_falls z
  obtain ⟨year', month', d', hfalls', hdate'⟩ := date_falls z'
  have hmonth := hfalls.month
  have hmonth' := hfalls'.month
  have hlt := hfalls.lt hfalls' h
  rw [hdate, hdate']
  unfold calendar
  split <;> split <;> dsimp only <;> omega

theorem date_bounds (z : Nat) : 1 ≤ (date z).2.1 ∧ (date z).2.1 ≤ 12 ∧ 1 ≤ (date z).2.2 ∧
    (date z).2.2 ≤ 31 := by
  obtain ⟨year, month, d, hfalls, hdate⟩ := date_falls z
  have hmonth := hfalls.month
  have hpos := hfalls.pos
  have hin := hfalls.inMonth
  unfold monthStart at hin
  rw [hdate]
  unfold calendar
  split <;> dsimp only <;> omega

theorem number_date (z : Nat) : number (date z) = z := by
  obtain ⟨year, month, d, hfalls, hdate⟩ := date_falls z
  have heq := hfalls.eq
  have hmonth := hfalls.month
  rw [hdate]
  unfold calendar number
  by_cases hmp : month < 10
  · rw [if_pos hmp]
    simp only [show ¬ month + 3 ≤ 2 by omega, if_false, Nat.add_sub_cancel]
    omega
  · rw [if_neg hmp]
    simp only [show month - 9 ≤ 2 by omega, if_true, Nat.add_sub_cancel, show month - 9 + 9 =
      month by omega]
    omega

end Calendar
