import KiroCrew.Runtime

/-!
# Stop safely: after a failure, and after it succeeded

A failed `sandbox.prepare_stop` sets `readiness.read_only`, and in an initialized process nothing
resets it (`readOnly_run`): every later request that passes the readiness gate is refused, whatever
failed and although the error was marked retryable. Only a WebSocket that had passed the gate before
gets through, and the gateway is left stopped when the failure was the receipt's
(`stop_retry_iff`).

A final checkpoint leaves the gateway stopped, but nothing keeps a later checkpoint that is not
final from pausing and resuming it (`frozen_gateway_resumed`). The freeze lasts as long as every
attempt that pauses is final and does not fail before it completes (`frozen_run`).
-/

namespace KiroCrew.Runtime

variable {r r' r'' : Runtime} {e : Event} {id i : Nat} {a b : Attempt}

/-! ## A failed stop -/

/-- No event of an initialized process clears `read_only`. -/
theorem readOnly_step (h : r.readOnly = true) (he : r.step e = some r') : r'.readOnly = true := by
  cases step_change he with
  | enqueued _ hput => rw [hput]; exact h
  | moved _ _ _ _ _ hr | paused _ _ _ _ hr | released _ _ _ _ _ hr | cancelled _ _ _ _ hr
  | restarted _ _ _ hr =>
    rw [hr]; exact h
  | raised _ _ _ _ hr => rw [hr, h]; rfl
  | exited | same => exact h

theorem readOnly_run {C : Runtime → Event → Prop} (h : r.readOnly = true)
    (hrun : Machine.Reaches step C r r') :
    r'.readOnly = true :=
  hrun.invariant (I := fun r => r.readOnly = true) (fun _ _ _ hs _ he => readOnly_step hs he) h

/-- The failing event of a `prepare_stop` whose caller is still there. -/
structure StopFails (r : Runtime) (id : Nat) (a : Attempt) (e : Event) : Prop where
  attempt : r.attempts id = some a
  origin : a.origin = .prepareStop
  attached : a.detached = false
  event : e = .fail id ∨ e = .lose id

/-- After a failure the gateway is not left stopped and a later request reaches `_commit_checkpoint`
exactly when the request comes over a WebSocket that had passed the gate, and the failure resumed
the gateway or found it running. -/
theorem stop_retry_iff {channel : Channel} (hf : StopFails r id a e) (he : r.step e = some r')
    (hrun : Machine.Reaches step Machine.Any r' r'') :
    (r'.gateway ≠ .stopped ∧ r''.admits channel = true) ↔
      channel = .socket ∧ (a.paused = true ∨ r.gateway ≠ .stopped) := by
  have hraised : r'.gateway = (if a.paused then r.gateway.resume.getD r.gateway else r.gateway) ∧
      r'.readOnly = true := by
    have hfields : r'.gateway = (r.raised id a).gateway ∧
        r'.readOnly = (r.raised id a).readOnly := by
      rcases hf.event with rfl | rfl
      · simp only [Runtime.step, hf.attempt, Option.bind_some] at he
        split at he
        · simp at he
        · obtain rfl := Option.some.inj he
          exact ⟨rfl, rfl⟩
      · simp only [Runtime.step, hf.attempt, Option.bind_some] at he
        split at he
        · obtain rfl := Option.some.inj he
          exact ⟨rfl, rfl⟩
        · simp at he
    refine ⟨hfields.1, ?_⟩
    rw [hfields.2]
    simp [raised, hf.origin, hf.attached]
  obtain ⟨hgateway, hreadOnly⟩ := hraised
  have hlater : r''.readOnly = true := readOnly_run hreadOnly hrun
  have hadmits : r''.admits channel = true ↔ channel = .socket := by
    cases channel <;> simp [admits, healthy, hlater]
  have hstopped : r'.gateway ≠ .stopped ↔ a.paused = true ∨ r.gateway ≠ .stopped := by
    rw [hgateway]
    cases a.paused with
    | true => simp [Gateway.resume_ne_stopped]
    | false => simp
  rw [hadmits, hstopped]
  exact and_comm

/-- A `prepare_stop` whose uploads fail. -/
def uploadFails : List Event :=
  .prepareStop 0 .invocation :: List.replicate 6 (.advance 0)

def uploading : Runtime := (Machine.runAlong step Machine.Any init uploadFails).get (by decide)

def uploadFailed : Runtime := (uploading.step (.fail 0)).get (by decide)

theorem stop_retry_upload : (uploadFailed.gateway ≠ .stopped ∧ uploadFailed.admits .socket = true) ↔
    Channel.socket = .socket ∧ ((⟨.prepareStop, .chunks, false⟩ : Attempt).paused = true ∨
    uploading.gateway ≠ .stopped) :=
  have hf : StopFails uploading 0 ⟨.prepareStop, .chunks, false⟩ (.fail 0) :=
    ⟨by decide, rfl, rfl, .inl rfl⟩
  stop_retry_iff hf (Option.some_get _).symm .refl

/-- An upload fails once; the retried stop is refused by the readiness gate. -/
theorem stop_retry_refused :
    ¬ ∀ (r r' r'' : Runtime) (id : Nat) (a : Attempt) (e : Event) (channel : Channel),
    r.Reachable → StopFails r id a e → r.step e = some r' →
    Machine.Reaches step Machine.Any r' r'' →
    r'.gateway ≠ .stopped ∧ r''.admits channel = true := by
  intro h
  have hretry :=
    h uploading uploadFailed uploadFailed 0 ⟨.prepareStop, .chunks, false⟩ (.fail 0) .invocation
    (.of_isSome _) ⟨by decide, rfl, rfl, .inl rfl⟩ (Option.some_get _).symm .refl
  revert hretry
  decide

/-! ## The freeze -/

/-- The gateway does not run, and only final checkpoints hold it paused. -/
structure Frozen (r : Runtime) : Prop where
  inv : Inv r
  gateway : r.gateway ≠ .running
  final : ∀ i b, r.attempts i = some b → b.paused = true → b.origin.final = true

/-- No checkpoint that is not final pauses, no paused checkpoint fails, no dead gateway is
restarted. -/
def keepsFrozen (r : Runtime) : Event → Bool
  | .advance id => (r.attempts id).all fun a => a.stage ≠ .pause || a.origin.final
  | .fail id | .lose id => (r.attempts id).all fun a => !a.paused
  | .ensureGateway started => r.gateway ≠ .exited || !started
  | _ => true

/-- An attempt that moves on without pausing is paused afterwards only if it was before. -/
theorem paused_of_next {s : Stage} (hnext : a.stage.next a.origin.final = some s)
    (hpause : a.stage ≠ .pause)
    (h : ({ a with stage := s } : Attempt).paused = true) : a.paused = true := by
  obtain ⟨origin, stage, detached⟩ := a
  cases stage <;> simp_all [Stage.next, Attempt.paused] <;> subst hnext <;> simp_all

theorem Frozen.update {a' : Option Attempt} (h : Frozen r) (hinv : Inv r')
    (hgateway : r'.gateway ≠ .running)
    (hattempts : r'.attempts = Function.update r.attempts id a')
    (hnew : ∀ b, a' = some b → b.paused = true → b.origin.final = true) : Frozen r' := by
  refine ⟨hinv, hgateway, fun i b hb hp => ?_⟩
  rw [hattempts, Function.update_apply] at hb
  split at hb
  · exact hnew b hb hp
  · exact h.final i b hb hp

theorem Frozen.step (h : Frozen r) (hC : r.keepsFrozen e = true) (he : r.step e = some r') :
    Frozen r' := by
  have hinv : Inv r' := h.inv.step he
  cases step_change he with
  | enqueued _ hput =>
    refine h.update hinv (by rw [hput]; exact h.gateway) (by rw [hput]; rfl) ?_
    rintro b ⟨⟩ hp
    simp [Attempt.paused] at hp
  | @moved id a next _ ha hnot hnext hattempts hgateway =>
    refine h.update hinv (by rw [hgateway]; exact h.gateway) hattempts fun b hb hp => ?_
    obtain ⟨s, hs, rfl⟩ := Option.map_eq_some_iff.1 hb
    exact h.final id a ha (paused_of_next (hnext s hs) hnot.1 hp)
  | @paused id a _ ha hstage hattempts hgateway =>
    refine h.update hinv (by rw [hgateway]; simp) hattempts ?_
    rintro b ⟨⟩ -
    simpa [keepsFrozen, ha, hstage] using hC
  | @released id a g _ ha hstage hattempts =>
    -- the attempt would be paused and not final
    have hfinal := h.final id a ha (by simp [Attempt.paused, hstage])
    rw [h.inv id a ha hstage] at hfinal
    simp at hfinal
  | @raised _ id a _ hev ha hattempts hgateway =>
    have hpaused : a.paused = false := by
      rcases hev with rfl | rfl <;> simpa [keepsFrozen, ha] using hC
    exact h.update hinv (by rw [hgateway, hpaused]; exact h.gateway) hattempts (by simp)
  | @cancelled id a a' _ ha hdetached hattempts hgateway =>
    refine h.update hinv (by rw [hgateway]; exact h.gateway) hattempts fun b hb hp => ?_
    obtain rfl := hdetached b hb
    exact h.final id a ha hp
  | exited => exact ⟨hinv, by simp, h.final⟩
  | @restarted _ started hexited hattempts hgateway =>
    have hnot : started = false := by simpa [keepsFrozen, hexited] using hC
    refine ⟨hinv, by rw [hgateway, hnot]; simp, fun i b hb => h.final i b (hattempts ▸ hb)⟩
  | same => exact h

/-- From the pause of a final checkpoint on, the gateway does not run again in any run whose events
keep it frozen, provided no other checkpoint is in the middle of its own pause. -/
theorem frozen_run (hr : r.Reachable) (ha : r.attempts id = some a) (hstage : a.stage = .pause)
    (hfinal : a.origin.final = true)
    (hothers : ∀ i b, r.attempts i = some b → b.paused = true → b.origin.final = true)
    (he : r.step (.advance id) = some r')
    (hrun : Machine.Reaches step (fun r e => r.keepsFrozen e = true) r' r'') :
        r''.gateway ≠ .running := by
  have hinv : Inv r' := hr.inv.step he
  have hfrozen : Frozen r' := by
    simp only [Runtime.step, ha, Option.bind_some, advanced, hstage] at he
    obtain ⟨g, hg, rfl⟩ := Option.map_eq_some_iff.1 he
    refine ⟨hinv, by rw [Gateway.pause_eq_some hg]; simp, fun i b hb hp => ?_⟩
    simp only [put_attempts] at hb
    split at hb
    · obtain rfl := Option.some.inj hb
      exact hfinal
    · exact hothers i b hb hp
  exact (hrun.invariant (fun _ _ _ hs hC he => hs.step hC he) hfrozen).gateway

/-- A final checkpoint up to its pause. -/
def beforePause : Runtime :=
  (Machine.runAlong step Machine.Any init
    (.prepareStop 0 .invocation :: List.replicate 3 (.advance 0))).get (by decide)

def afterPause : Runtime := (beforePause.step (.advance 0)).get (by decide)

/-- The rest of it, with the receipt accepted. -/
def stopped : Runtime :=
  (Machine.runAlong step (fun r e => r.keepsFrozen e = true) afterPause
    (List.replicate 8 (.advance 0))).get (by decide)

theorem frozen_run_stopped : stopped.gateway ≠ .running :=
  have hr : beforePause.Reachable := .of_isSome _
  have ha : beforePause.attempts 0 = some ⟨.prepareStop, .pause, false⟩ := by decide
  frozen_run hr ha rfl rfl
    (by
      intro i b hb _
      by_cases hi : i = 0
      · subst hi
        obtain rfl : ⟨.prepareStop, .pause, false⟩ = b := Option.some.inj hb
        rfl
      · have hnone : beforePause.attempts i = none := by
          have hattempts : beforePause.attempts = Function.update
            (Function.update (Function.update (Function.update
              (fun _ => none) 0 (some ⟨.prepareStop, .lock, false⟩)) 0
                (some ⟨.prepareStop, .publish, false⟩))
              0 (some ⟨.prepareStop, .number, false⟩)) 0 (some ⟨.prepareStop, .pause, false⟩) := rfl
          simp [hattempts, hi]
        rw [hnone] at hb
        simp at hb)
    (Option.some_get _).symm (.of_isSome _)

/-- The final checkpoint before its receipt, after it, and after a periodic checkpoint. -/
def receiptNext : Runtime :=
  (Machine.runAlong step Machine.Any afterPause (List.replicate 7 (.advance 0))).get (by decide)

def receiptAccepted : Runtime := (receiptNext.step (.advance 0)).get (by decide)

def resumed : Runtime :=
  (Machine.runAlong step Machine.Any receiptAccepted
    (.periodic 1 :: List.replicate 7 (.advance 1))).get (by decide)

/-- A periodic checkpoint after the accepted final one pauses and resumes the gateway. -/
theorem frozen_gateway_resumed : ¬ ∀ (r r' r'' : Runtime) (id : Nat) (a : Attempt), r.Reachable →
    r.attempts id = some a → a.stage = .receipt → a.origin.final = true → r.gateway ≠ .running →
    r.step (.advance id) = some r' → Machine.Reaches step Machine.Any r' r'' →
        r''.gateway ≠ .running := by
  intro h
  have hpause : Machine.Reaches step Machine.Any init beforePause := .of_isSome _
  have hreceipt : Machine.Reaches step Machine.Any init receiptNext :=
    (hpause.tail (e := .advance 0) trivial (Option.some_get _).symm).trans (.of_isSome _)
  exact h receiptNext receiptAccepted resumed 0 ⟨.prepareStop, .receipt, false⟩ hreceipt
    (by decide) rfl rfl
    (by decide) (Option.some_get _).symm (.of_isSome _) (by decide)

end KiroCrew.Runtime
