import Mathlib

/-!
# Instants as the broker and the control plane print them

Both sides store `datetime` values in the record as ISO strings (`_iso`, `_timestamp`) and compare
them as strings. An instant is kept here as microseconds since the epoch; `Instant.iso` prints it
and `Instant.isoLt` is the comparison of the printed strings, which is the one the conditions use.
-/

namespace KiroCrew

/-- A UTC instant in microseconds since the epoch (`datetime.now(UTC)`). -/
structure Instant where
  micros : Nat
deriving DecidableEq, Repr

namespace Instant

/-- `int(value.timestamp())` -/
def epoch (t : Instant) : Nat := t.micros / 1000000

/-- `datetime.fromtimestamp(seconds, UTC)` -/
def ofEpoch (seconds : Nat) : Instant := ⟨seconds * 1000000⟩

/-- `t + timedelta(seconds=s)` -/
def addSeconds (t : Instant) (s : Nat) : Instant := ⟨t.micros + s * 1000000⟩

/-- `t - timedelta(seconds=s)` -/
def subSeconds (t : Instant) (s : Nat) : Instant := ⟨t.micros - s * 1000000⟩

instance : LT Instant := ⟨fun a b => a.micros < b.micros⟩
instance : LE Instant := ⟨fun a b => a.micros ≤ b.micros⟩
instance (a b : Instant) : Decidable (a < b) := inferInstanceAs (Decidable (a.micros < b.micros))
instance (a b : Instant) : Decidable (a ≤ b) := inferInstanceAs (Decidable (a.micros ≤ b.micros))

theorem lt_of_lt_of_le {a b c : Instant} (h : a < b) (h' : b ≤ c) : a < c := Nat.lt_of_lt_of_le h h'

theorem lt_of_le_of_lt {a b c : Instant} (h : a ≤ b) (h' : b < c) : a < c := Nat.lt_of_le_of_lt h h'

theorem le_of_lt {a b : Instant} (h : a < b) : a ≤ b := Nat.le_of_lt h

theorem not_lt {a b : Instant} : ¬ a < b ↔ b ≤ a := Nat.not_lt

theorem not_subSeconds_lt {a b : Instant} {s : Nat} (h : a.addSeconds s < b) :
    ¬ b.subSeconds s < a := by
  have h : a.micros + s * 1000000 < b.micros := h
  rw [not_lt]
  show a.micros ≤ b.micros - s * 1000000
  omega

/-- `n` in decimal, the last `width` digits. -/
def digits : (width n : Nat) → List Char
  | 0, _ => []
  | w + 1, n => digits w (n / 10) ++ [Char.ofNat (48 + n % 10)]

/-- The proleptic Gregorian date of a day number counted from 1970-01-01. -/
def civil (days : Nat) : Nat × Nat × Nat :=
  let z := days + 719468
  let era := z / 146097
  let doe := z % 146097
  let yoe := (doe - doe / 1460 + doe / 36524 - doe / 146096) / 365
  let doy := doe - (365 * yoe + yoe / 4 - yoe / 100)
  let mp := (5 * doy + 2) / 153
  let d := doy - (153 * mp + 2) / 5 + 1
  let m := if mp < 10 then mp + 3 else mp - 9
  (yoe + era * 400 + (if m ≤ 2 then 1 else 0), m, d)

/-- `value.isoformat().replace("+00:00", "Z")`: the fraction is left out when it is zero. -/
def iso (t : Instant) : List Char :=
  let s := t.epoch
  let us := t.micros % 1000000
  let (y, m, d) := civil (s / 86400)
  digits 4 y ++ '-' :: digits 2 m ++ '-' :: digits 2 d ++ 'T' :: digits 2 (s / 3600 % 24) ++
    ':' :: digits 2 (s / 60 % 60) ++ ':' :: digits 2 (s % 60) ++
    (if us = 0 then [] else '.' :: digits 6 us) ++ ['Z']

/-- The comparison of two stored times: the printed strings, as DynamoDB and Python compare them. -/
def isoLt (a b : Instant) : Bool := decide (a.iso < b.iso)

example : (ofEpoch 1709210096).iso = "2024-02-29T12:34:56Z".toList := by decide

end Instant

end KiroCrew
