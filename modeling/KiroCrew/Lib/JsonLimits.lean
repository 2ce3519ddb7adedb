import KiroCrew.Lib.Json

/-!
# The limits of a JSON parser

An interpreter may limit the digits of an integer and how deeply arrays and objects lie within one
another. A parser goes from left to right, so it raises for what it meets first: `scanValue` goes as
far as the parser would, `exceeded` is the limit that it runs into in a text, if any. Where there is
no limit nothing is exceeded (`exceeded_unlimited`).
-/

namespace Json

/-- What a parser takes; `none` is no limit. -/
structure Limits where
  /-- the digits of an integer, its sign apart -/
  digits : Option Nat := none
  /-- arrays and objects within one another -/
  nesting : Option Nat := none
deriving DecidableEq, Repr

inductive Limit
  | digits | nesting
deriving DecidableEq, Repr

/-- How a scan fails. -/
inductive ScanError
  | malformed
  | limit (limit : Limit)
deriving DecidableEq, Repr

def passes (limit : Option Nat) (n : Nat) : Bool := limit.all (n ≤ ·)

/-- What is left after a value that ended there; of an integer the digits must be within the
limit. -/
def scanScalar (limits : Limits) (s : Str) : Except ScanError Str :=
  match scalar s with
  | some (.int _, r) =>
    if passes limits.digits (s.length - r.length - if s.head? = some 45 then 1 else 0) then .ok r
    else .error (.limit .digits)
  | some (_, r) => .ok r
  | none => .error .malformed

mutual

/-- What is left after one value; `depth` arrays and objects are open. -/
def scanValue (limits : Limits) : Nat → Nat → Str → Except ScanError Str
  | 0, _, _ => .error .malformed
  | fuel + 1, depth, s =>
    match s with
    | [] => .error .malformed
    | c :: rest =>
      if c = 34 then
        match string rest with
        | some (_, r) => .ok r
        | none => .error .malformed
      else if c = 91 ∨ c = 123 then
        if passes limits.nesting (depth + 1) then
          match skip rest with
          | [] => .error .malformed
          | d :: r =>
            if d = c + 2 then .ok r
            else if c = 91 then scanItems limits fuel (depth + 1) (d :: r)
            else scanFields limits fuel (depth + 1) (d :: r)
        else .error (.limit .nesting)
      else scanScalar limits s

def scanItems (limits : Limits) : Nat → Nat → Str → Except ScanError Str
  | 0, _, _ => .error .malformed
  | fuel + 1, depth, s =>
    match scanValue limits fuel depth s with
    | .error e => .error e
    | .ok r =>
      match skip r with
      | [] => .error .malformed
      | c :: r =>
        if c = 93 then .ok r
        else if c = 44 then scanItems limits fuel depth (skip r)
        else .error .malformed

def scanFields (limits : Limits) : Nat → Nat → Str → Except ScanError Str
  | 0, _, _ => .error .malformed
  | fuel + 1, depth, s =>
    match s with
    | [] => .error .malformed
    | q :: s =>
      if q = 34 then
        match string s with
        | none => .error .malformed
        | some (_, r) =>
          match skip r with
          | [] => .error .malformed
          | colon :: r =>
            if colon = 58 then
              match scanValue limits fuel depth (skip r) with
              | .error e => .error e
              | .ok r =>
                match skip r with
                | [] => .error .malformed
                | c :: r =>
                  if c = 125 then .ok r
                  else if c = 44 then scanFields limits fuel depth (skip r)
                  else .error .malformed
            else .error .malformed
      else .error .malformed

end

/-- The limit that the parser runs into before it is through or finds the text malformed. -/
def exceeded (limits : Limits) (s : Str) : Option Limit :=
  -- an open bracket takes two rounds
  match scanValue limits (2 * s.length + 2) 0 (skip s) with
  | .error (.limit limit) => some limit
  | _ => none

theorem scan_unlimited (fuel : Nat) :
    (∀ {depth s e}, scanValue {} fuel depth s = .error e → e = .malformed) ∧
    (∀ {depth s e}, scanItems {} fuel depth s = .error e → e = .malformed) ∧
    ∀ {depth s e}, scanFields {} fuel depth s = .error e → e = .malformed := by
  induction fuel with
  | zero => simp [scanValue, scanItems, scanFields]
  | succ fuel ih =>
    obtain ⟨ihvalue, ihitems, ihfields⟩ := ih
    refine ⟨?_, ?_, ?_⟩
    · intro depth s e h
      unfold scanValue at h
      have hpasses : ∀ n, passes ({} : Limits).nesting n = true := fun _ => rfl
      split at h
      · exact (Except.error.inj h).symm
      · simp only [scanScalar, hpasses, if_true] at h
        repeat' split at h
        all_goals first
          | exact (Except.error.inj h).symm
          | exact ihitems h
          | exact ihfields h
          | cases h
    · intro depth s e h
      unfold scanItems at h
      split at h
      · next hvalue =>
        rw [← Except.error.inj h]
        exact ihvalue hvalue
      · repeat' split at h
        all_goals first
          | exact (Except.error.inj h).symm
          | exact ihitems h
          | cases h
    · intro depth s e h
      unfold scanFields at h
      split at h
      · exact (Except.error.inj h).symm
      · repeat' split at h
        all_goals first
          | exact (Except.error.inj h).symm
          | exact ihfields h
          | (next hvalue => exact (Except.error.inj h) ▸ ihvalue hvalue)
          | cases h

@[simp] theorem exceeded_unlimited (s : Str) : exceeded {} s = none := by
  unfold exceeded
  split
  · next hscan => cases (scan_unlimited _).1 hscan
  · rfl

-- the third bracket is too many, also where the text is never closed
example : exceeded { nesting := some 2 } (Str.ofString "[[[") = some .nesting := by decide +kernel

example : exceeded { digits := some 3 } (Str.ofString "[-123, 1.2345, 1234, \x7d") =
    some .digits := by
  decide +kernel

end Json
