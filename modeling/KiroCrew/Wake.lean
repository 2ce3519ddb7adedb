import KiroCrew.Dispatch

/-!
# Every published schedule is woken again

A record that stays as it is is woken by every tick later than 6 hours and 20 minutes after the last
of its times, and by none while its init lease or its start lease is live (`wakes_unless_held`). The
three grace periods leave no gap: a hold ends after `staleHoldSeconds`, and the two branches for a
due time that is over both end in `recovery`.
-/

namespace KiroCrew.Waker

/-- The attributes of the projection: strings as they are stored, numbers without a fraction. -/
structure Attributes where
  state : List Char := []
  updatedAt : Option Str := none
  nextDueAt : Option ℤ := none
  nextDueJob : String := ""
  restoreSeconds : Option ℤ := none
  leaseExpiresAt : Option Str := none
  initExpiresAt : Option ℤ := none

/-- `value.replace("Z", "+00:00")` -/
def replaceZ (value : Str) : Str :=
  value.flatMap fun c => if c = 90 then Str.ofString "+00:00" else [c]

/-- `_iso_epoch`, with the timestamp of `datetime.fromisoformat` where it parses. -/
def isoEpoch (fromisoformat : Str → Option ℚ) : Option Str → Option ℚ
  | none | some [] => none
  | some value => fromisoformat (replaceZ value)

def Attributes.schedule (a : Attributes) (fromisoformat : Str → Option ℚ) : Schedule where
  state := a.state
  updatedAt := isoEpoch fromisoformat a.updatedAt
  nextDueAt := a.nextDueAt
  nextDueJob := a.nextDueJob
  restoreSeconds := a.restoreSeconds
  leaseExpiresAt := isoEpoch fromisoformat a.leaseExpiresAt
  initExpiresAt := a.initExpiresAt

theorem wakeLead_bounds (restoreSeconds : Option ℤ) : 90 ≤ wakeLead restoreSeconds ∧
    wakeLead restoreSeconds ≤ 600 := by
  rcases restoreSeconds with _ | seconds
  · decide
  · simp only [wakeLead]
    omega

namespace Schedule

variable {item : Schedule} {now : ℚ}

/-- Its init lease or its start lease is live. -/
def Live (item : Schedule) (now : ℚ) : Prop :=
  (∃ initUntil ∈ item.initExpiresAt, now < initUntil) ∨ ∃ lease ∈ item.leaseExpiresAt, now < lease

/-- Every time the record has is more than `seconds` ago. -/
structure Past (item : Schedule) (seconds now : ℚ) : Prop where
  due : ∀ dueAt ∈ item.nextDueAt, dueAt + seconds < now
  updated : ∀ updated ∈ item.updatedAt, updated + seconds < now
  lease : ∀ lease ∈ item.leaseExpiresAt, lease + seconds < now
  init : ∀ initUntil ∈ item.initExpiresAt, initUntil + seconds < now

theorem held_of_live (hstate : item.state ≠ SandboxState.stopped.value.toList) (h : item.Live now) :
    item.held now = true := by
  rw [held, if_neg hstate]
  rcases h with ⟨initUntil, hinit, hlt⟩ | ⟨lease, hlease, hlt⟩
  · have hany : item.initExpiresAt.any (fun initUntil => now < initUntil) = true := by
      rw [Option.mem_def.1 hinit]
      simpa using hlt
    rw [if_pos hany]
  · split
    · rfl
    · rw [Option.mem_def.1 hlease]
      simpa using hlt

theorem not_live_of_past {seconds : ℚ} (h0 : 0 ≤ seconds) (h : item.Past seconds now) :
    ¬ item.Live now := by
  rintro (⟨initUntil, hinit, hlt⟩ | ⟨lease, hlease, hlt⟩)
  · linarith [h.init initUntil hinit]
  · linarith [h.lease lease hlease]

theorem held_of_past {seconds : ℚ} (hstale : staleHoldSeconds ≤ seconds)
    (h : item.Past seconds now) : item.held now = false := by
  have hlive := not_live_of_past (le_trans (by norm_num [staleHoldSeconds]) hstale) h
  simp only [Live, not_or, not_exists, not_and] at hlive
  rw [held]
  split
  · rfl
  · rw [if_neg ?_]
    · cases hl : item.leaseExpiresAt with
      | some lease => simpa using hlive.2 lease hl
      | none =>
        cases hu : item.updatedAt with
        | none => rfl
        | some updated =>
          have hupdated := h.updated updated hu
          simp only [Option.any_some, decide_eq_false_iff_not, not_lt]
          linarith
    · cases hi : item.initExpiresAt with
      | none => simp
      | some initUntil => simpa using hlive.1 initUntil hi

theorem idle_of_past {seconds : ℚ} (hlegacy : legacyWakeSeconds ≤ seconds)
    (h : item.Past seconds now) :
    (item.updatedAt.map fun updated => now - updated).all (legacyWakeSeconds ≤ ·) = true := by
  cases hu : item.updatedAt with
  | none => rfl
  | some updated =>
    have hupdated := h.updated updated hu
    simp only [Option.map_some, Option.all_some, decide_eq_true_eq]
    linarith

/-- Both branches for an occurrence that is over come out of it. -/
theorem recovery_wake {dueAt : ℤ} {heldFor : Option ℚ} (hstale : legacyWakeSeconds < now - dueAt)
    (hidle : heldFor.all (legacyWakeSeconds ≤ ·) = true) (plan : Plan) (reason : Reason) :
    (recovery now dueAt heldFor plan reason).wake = true := by
  rw [recovery, if_pos ⟨hstale, hidle⟩]

theorem plan_of_held (h : item.held now = true) : (item.plan now).wake = false := by
  rw [plan, if_pos h]

theorem plan_of_past (hdue : item.nextDueAt ≠ some 0)
    (h : item.Past (legacyWakeSeconds + staleHoldSeconds) now) :
    (item.plan now).wake = true := by
  have hidle := idle_of_past (by norm_num [staleHoldSeconds]) h
  rw [plan, if_neg (by simp [held_of_past (by norm_num [legacyWakeSeconds]) h])]
  cases hd : item.nextDueAt with
  | none =>
    show (if _ then _ else _ : Plan).wake = true
    rw [if_pos hidle]
  | some dueAt =>
    have hover : legacyWakeSeconds + staleHoldSeconds < now - dueAt := by linarith [h.due dueAt hd]
    have hstale : legacyWakeSeconds < now - dueAt := lt_trans (by norm_num [staleHoldSeconds]) hover
    have hlead : (90 : ℚ) ≤ wakeLead item.restoreSeconds := by
      exact_mod_cast (wakeLead_bounds item.restoreSeconds).1
    have hlate : ¬ now < dueAt - wakeLead item.restoreSeconds := by
      norm_num [legacyWakeSeconds] at hstale
      linarith
    simp only
    rw [if_neg (fun h0 => hdue (by rw [hd, h0])), if_neg hlate]
    split
    · exact recovery_wake hstale hidle _ _
    · split
      · exact recovery_wake hstale hidle _ _
      · rfl

end Schedule

/-- The plan says wake once every time of the record is more than 6 hours and 20 minutes ago, and
does not while a lease is live. -/
theorem wakes_unless_held (fromisoformat : Str → Option ℚ) (a : Attributes) (now : ℚ) :
    (a.nextDueAt ≠ some 0 → (a.schedule fromisoformat).Past (6 * 3600 + 20 * 60) now →
      (wakePlan now (.found (a.schedule fromisoformat))).wake = true) ∧
    (a.state ≠ SandboxState.stopped.value.toList → (a.schedule fromisoformat).Live now →
      (wakePlan now (.found (a.schedule fromisoformat))).wake = false) := by
  constructor
  · intro hdue hpast
    refine Schedule.plan_of_past hdue ?_
    norm_num [legacyWakeSeconds, staleHoldSeconds] at hpast ⊢
    exact hpast
  · intro hstate hlive
    exact Schedule.plan_of_held (Schedule.held_of_live hstate hlive)

/-- A start whose container died: woken 7 hours later, left alone while its lease lives. -/
theorem wakes_unless_held_starting :
    let a : Attributes :=
    { state := "STARTING".toList, leaseExpiresAt := some (Str.ofString "lease"),
      nextDueAt := some 1800000000 }
    (wakePlan 1800025200 (.found (a.schedule fun _ => some 1800000120))).wake = true ∧
      (wakePlan 1800000060 (.found (a.schedule fun _ => some 1800000120))).wake = false := by
  intro a
  constructor
  · refine (wakes_unless_held (fun _ => some 1800000120) a 1800025200).1 (by decide)
      ⟨?_, ?_, ?_, ?_⟩
    · rintro _ ⟨⟩
      norm_num
    · rintro _ ⟨⟩
    · rintro _ ⟨⟩
      norm_num
    · rintro _ ⟨⟩
  · exact (wakes_unless_held (fun _ => some 1800000120) a 1800000060).2 (by decide)
      (.inr ⟨1800000120, rfl, by norm_num⟩)

end KiroCrew.Waker
