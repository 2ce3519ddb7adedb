import KiroCrew.Lineage

/-!
# The receipts of a holder that nobody disturbs

A container advances `base_generation` when the response of a receipt arrives; the record's pointer
advances when the receipt's transaction is applied. As long as every applied receipt was answered
the pointer is not past the base, and the container's next receipt satisfies the broker's condition.
After one applied receipt whose response is lost (the signing fails after the transaction, the
connection breaks) the pointer is past the base, the base can only advance through a receipt, and
every further receipt of the container is refused (`receiptAllowed_iff`).
-/

namespace KiroCrew

namespace World

variable {w w' w₀ : World} {e : Event} {H : InstanceId}

/-- No claim or receipt of another container is applied and the record keeps its session. -/
def undisturbed (H : InstanceId) (w : World) : Event → Bool
  | .acquire B now _ => decide (B = H) || !w.applies (w.claimCall B) now
  | .receipt B final hints now _ =>
    match (w.containers B).phase with
    | .committed g digest => decide (B = H) || !w.applies (w.receiptCall B g digest final hints) now
    | _ => true
  | .other e => (w.sys.step e).all fun sys =>
    sys.item.runtimeSessionId = w.sys.item.runtimeSessionId
  | _ => true


/-- The generation of the running checkpoint, until its receipt is sent. -/
def generation? : Phase → Option Nat
  | .numbered g | .uploaded g _ | .checked g _ | .committed g _ => some g
  | _ => none

/-- `H` holds the record, and its base says where the pointer is. -/
structure Holds (H : InstanceId) (w : World) : Prop where
  holder : w.sys.item.holderInstance = some H
  session : w.sys.item.runtimeSessionId = (w.containers H).session
  ready : (w.containers H).phase.ready = true
  answered : (w.containers H).lost = false →
    ∀ p, w.sys.item.lastCheckpointGeneration = some p → p ≤ (w.containers H).base
  unanswered : (w.containers H).lost = true →
    ∃ p, w.sys.item.lastCheckpointGeneration = some p ∧ (w.containers H).base < p
  fresh : ∀ g, generation? (w.containers H).phase = some g →
    ∀ p, w.sys.item.lastCheckpointGeneration = some p → p < g

/-- The broker's condition on a receipt of the holder, in a state that takes the receipt. -/
theorem Holds.receiptAllowed_iff (h : Holds H w) {g : Nat} {digest : Digest} {final : Bool}
    {hints : ScheduleHints}
    (hphase : (w.containers H).phase = .committed g digest)
    (hstate : (w.receiptRequest H g digest final hints).stateOk w.sys.item) :
    receiptAllowed w.sys.item (w.containers H).session (w.receiptRequest H g digest final hints) ↔
      (w.containers H).lost = false := by
  constructor
  · intro hallowed
    by_contra hlost
    obtain ⟨p, hp, hbase⟩ := h.unanswered (by simpa using hlost)
    have hfresh : p < g := h.fresh g (by rw [hphase]; rfl) p hp
    have hptr := hallowed.2.2.2
    simp only [ReceiptRequest.pointerOk, hp, ReceiptRequest.advance, receiptRequest] at hptr
    rcases hptr with hle | ⟨heq, -⟩
    · omega
    · omega
  · intro hlost
    refine ⟨h.session, .inr (.inr h.holder), hstate, ?_⟩
    cases hp : w.sys.item.lastCheckpointGeneration with
    | none => simp [ReceiptRequest.pointerOk, hp]
    | some p =>
      have hle : p ≤ (w.containers H).base := h.answered hlost p hp
      simp only [ReceiptRequest.pointerOk, hp]
      exact .inl hle

/-- `Holds` is kept where the holder, the session and the pointer stay and `H` only moves on. -/
theorem Holds.frame (h : Holds H w)
    (hholder : w'.sys.item.holderInstance = w.sys.item.holderInstance)
    (hsession : w'.sys.item.runtimeSessionId = w.sys.item.runtimeSessionId)
    (hpointer : w'.sys.item.lastCheckpointGeneration = w.sys.item.lastCheckpointGeneration)
    (hself : (w'.containers H).session = (w.containers H).session)
    (hbase : (w'.containers H).base = (w.containers H).base)
    (hlost : (w'.containers H).lost = (w.containers H).lost)
    (hready : (w'.containers H).phase.ready = true)
    (hfresh : ∀ g, generation? (w'.containers H).phase = some g →
      ∀ p, w.sys.item.lastCheckpointGeneration = some p → p < g) : Holds H w' where
  holder := hholder.trans h.holder
  session := by rw [hsession, hself]; exact h.session
  ready := hready
  answered := by rw [hlost, hpointer, hbase]; exact h.answered
  unanswered := by rw [hlost, hpointer, hbase]; exact h.unanswered
  fresh := by rw [hpointer]; exact hfresh

/-- The frame for an event of another container or of the control plane. -/
theorem Holds.frame_other (h : Holds H w)
    (hholder : w'.sys.item.holderInstance = w.sys.item.holderInstance)
    (hsession : w'.sys.item.runtimeSessionId = w.sys.item.runtimeSessionId)
    (hpointer : w'.sys.item.lastCheckpointGeneration = w.sys.item.lastCheckpointGeneration)
    (hself : w'.containers H = w.containers H) : Holds H w' :=
  h.frame hholder hsession hpointer (by rw [hself]) (by rw [hself]) (by rw [hself])
    (by rw [hself]; exact h.ready)
    (by rw [hself]; exact h.fresh)

theorem send_session (w : World) (c : BrokerCall) (now : Instant) :
    (w.send c now).sys.item.runtimeSessionId = w.sys.item.runtimeSessionId := by
  cases ha : w.applies c now with
  | true => exact System.write_runtimeSessionId (send_write ha)
  | false => rw [send_of_not_applies ha]

/-- A holder that nobody disturbs keeps `Holds`, or is gone. -/
theorem Holds.step (hinv : w.Inv) (h : Holds H w) (hC : w.undisturbed H e = true)
    (he : w.step e = some w') :
    Holds H w' ∨ (w'.containers H).phase = .exited := by
  have hready := h.ready
  cases step_change he with
  | @other e sys hplain hs =>
    refine .inl (h.frame_other (plain_holder hinv.sys hplain hs) ?_
      (plain_pointer hinv.sys hplain hs) rfl)
    simpa [undisturbed, hs] using hC
  | @read A session hphase =>
    have hA : H ≠ A := by rintro rfl; simp [hphase, Phase.ready] at hready
    exact .inl (h.frame_other rfl rfl rfl (by simp [hA]))
  | @acquire A now answered expected phase hold hphase hclaimed =>
    have hA : H ≠ A := by rintro rfl; simp [hold, Phase.ready] at hready
    have happ : w.applies (w.claimCall A) now = false := by
      simpa [undisturbed, hA.symm] using hC
    rw [send_of_not_applies happ]
    exact .inl (h.frame_other rfl rfl rfl (by simp [goto, hA]))
  | @restored A fallback expected hphase =>
    have hA : H ≠ A := by rintro rfl; simp [hphase, Phase.ready] at hready
    exact .inl (h.frame_other rfl rfl rfl (by simp [hA]))
  | @markReady A outcome now answered phase hold hphase =>
    have hA : H ≠ A := by rintro rfl; simp [hold, Phase.ready] at hready
    exact .inl (h.frame_other (send_holder hinv.sys (by simp [readyCall])) (send_session w _ now)
      (send_pointer hinv.sys (by simp [readyCall])) (by simp [goto, hA]))
  | @number A hphase =>
    by_cases hA : H = A
    · subst hA
      refine .inl (h.frame rfl rfl rfl (by simp [goto]) (by simp [goto]) (by simp [goto])
        (by simp [goto, Phase.ready])
        fun g hg p hp => ?_)
      -- the pointer names a commit, and the new number is past every commit
      obtain ⟨c, hc, rfl⟩ := hinv.pointer p hp
      simp only [goto, set_containers, if_true, generation?, Option.some.injEq] at hg
      exact hg ▸ Objects.commit_lt_nextGeneration hc
    · exact .inl (h.frame_other rfl rfl rfl (by simp [goto, hA]))
  | @uploaded A g digest objects hphase hput =>
    by_cases hA : H = A
    · subst hA
      refine .inl (h.frame rfl rfl rfl (by simp [goto]) (by simp [goto]) (by simp [goto])
        (by simp [goto, Phase.ready])
        fun n hn => h.fresh n ?_)
      rw [hphase]
      simpa [goto, generation?] using hn
    · exact .inl (h.frame_other rfl rfl rfl (by simp [goto, hA]))
  | @checked A g digest hphase hchecks =>
    by_cases hA : H = A
    · subst hA
      refine .inl (h.frame rfl rfl rfl (by simp [goto]) (by simp [goto]) (by simp [goto])
        (by simp [goto, Phase.ready])
        fun n hn => h.fresh n ?_)
      rw [hphase]
      simpa [goto, generation?] using hn
    · exact .inl (h.frame_other rfl rfl rfl (by simp [goto, hA]))
  | @committed A g digest committedAt objects hphase hput =>
    by_cases hA : H = A
    · subst hA
      refine .inl (h.frame rfl rfl rfl (by simp) (by simp) (by simp) (by simp [Phase.ready])
        fun n hn => h.fresh n ?_)
      rw [hphase]
      simpa [generation?] using hn
    · exact .inl (h.frame_other rfl rfl rfl (by simp [hA]))
  | @accepted A g digest final hints now answered hphase happlies =>
    have hA : A = H := by simpa [undisturbed, hphase, happlies] using hC
    subst hA
    obtain ⟨hvalid, hallowed, hpointer⟩ := receipt_of_applies happlies
    have hbase : (w.containers A).base < g := by
      simp only [ReceiptRequest.valid, receiptRequest, Bool.and_eq_true, Option.all_some] at hvalid
      exact of_decide_eq_true hvalid.1.1.1.2
    have hlost : (w.containers A).lost = false :=
      (h.receiptAllowed_iff hphase hallowed.2.2.1).1 hallowed
    refine .inl ⟨?_, ?_, by simp [Phase.ready], fun hl p hp => ?_, fun hl => ⟨g, hpointer, ?_⟩, ?_⟩
    · exact (send_holder hinv.sys (by simp [receiptCall])).trans h.holder
    · simpa using (send_session w _ now).trans h.session
    · simp only [set_containers, if_true, hlost, Bool.false_or, Bool.not_eq_false'] at hl
      simp only [set_sys, hpointer, Option.some.injEq] at hp
      simp [hl, hp]
    · simp only [set_containers, if_true, hlost, Bool.false_or, Bool.not_eq_true'] at hl
      simpa [hl] using hbase
    · simp [generation?]
  | @ended e A phase hphase =>
    by_cases hA : H = A
    · subst hA
      rcases hphase with ⟨-, hnot, -⟩ | rfl | ⟨rfl, -⟩
      · simp [hnot] at hready
      · exact .inr (by simp [goto])
      · exact .inl (h.frame rfl rfl rfl (by simp [goto]) (by simp [goto]) (by simp [goto])
          (by simp [goto, Phase.ready]) (by simp [goto, generation?]))
    · exact .inl (h.frame_other rfl rfl rfl (by simp [goto, hA]))
  | same => exact .inl h

theorem exited_step (h : (w.containers H).phase = .exited) (he : w.step e = some w') :
    (w'.containers H).phase = .exited := by
  have hne : ∀ A, (w.containers A).phase ≠ .exited → H ≠ A := by rintro A hA rfl; exact hA h
  cases step_change he with
  | other => exact h
  | @read A _ hphase => simpa [hne A (by simp [hphase])] using h
  | @acquire A _ _ _ _ hold => simpa [goto, hne A (by simp [hold])] using h
  | @restored A _ _ hphase => simpa [hne A (by simp [hphase])] using h
  | @markReady A _ _ _ _ hold => simpa [goto, hne A (by simp [hold])] using h
  | @number A hphase => simpa [goto, hne A (by simp [hphase])] using h
  | @uploaded A _ _ _ hphase => simpa [goto, hne A (by simp [hphase])] using h
  | @checked A _ _ hphase => simpa [goto, hne A (by simp [hphase])] using h
  | @committed A _ _ _ _ hphase => simpa [hne A (by simp [hphase])] using h
  | @accepted A _ _ _ _ _ _ hphase => simpa [hne A (by simp [hphase])] using h
  | @ended e A phase hphase =>
    by_cases hA : H = A
    · subst hA
      rcases hphase with ⟨rfl, -, hnot⟩ | rfl | ⟨rfl, hnot⟩
      · exact absurd h hnot
      · simp [goto]
      · simp [h, Phase.ready] at hnot
    · simpa [goto, hA] using h
  | same => exact h

/-- A container whose `markReady` was applied and answered holds the record with a base that covers
the pointer. -/
theorem Holds.of_markReady (hinv : w.Inv) {outcome : String} {now : Instant}
    (he : w.step (.markReady H outcome now true) = some w')
    (hserving : (w'.containers H).phase = .serving) :
    Holds H w' := by
  simp only [World.step] at he
  split at he
  · next hphase =>
    obtain rfl := Option.some.inj he
    have happ : w.applies (w.readyCall H outcome) now = true := by
      by_contra hne
      simp [goto, hne] at hserving
    obtain ⟨hsession, hown, hcore, -⟩ := markReady_eq_some (send_write happ)
    have hptr : (w.send (w.readyCall H outcome) now).sys.item.lastCheckpointGeneration =
        w.sys.item.lastCheckpointGeneration := send_pointer hinv.sys (by simp [readyCall])
    refine ⟨(System.core_eq hcore).2.2.2, ?_, by rw [hserving]; rfl, fun _ p hp =>
      ?_, fun hl => ?_, ?_⟩
    · simpa [goto, readyCall] using (send_session w _ now).trans hsession
    · simpa [goto] using hinv.base H hphase hown p (hptr ▸ hp)
    · simp [goto, hinv.lost H hphase] at hl
    · rw [hserving]; simp [generation?]
  · simp at he

/-- From its `markReady` on, as long as nobody disturbs it, a container's next receipt satisfies the
broker's condition exactly when every receipt of it that was applied was also answered. -/
theorem unfenced_receipt_allowed_iff {outcome : String} {now : Instant} {g : Nat} {digest : Digest}
    {final : Bool}
    {hints : ScheduleHints} (hr : w₀.Reachable)
    (he : w₀.step (.markReady H outcome now true) = some w)
    (hserving : (w.containers H).phase = .serving)
    (hrun : Machine.Reaches step (fun w e => w.undisturbed H e = true) w w')
    (hphase : (w'.containers H).phase = .committed g digest)
    (hstate : w'.sys.item.state = .ready ∨ w'.sys.item.state = .stopping ∧ final = true) :
    receiptAllowed w'.sys.item (w'.containers H).session
      (w'.receiptRequest H g digest final hints) ↔
      (w'.containers H).lost = false := by
  have hinv : w.Inv := hr.inv.step he
  have hend : w'.Inv ∧ (Holds H w' ∨ (w'.containers H).phase = .exited) :=
    hrun.invariant (I := fun w => w.Inv ∧ (Holds H w ∨ (w.containers H).phase = .exited))
      (fun _ _ _ hs hC he => ⟨hs.1.step he, hs.2.elim (fun h => h.step hs.1 hC he) fun h =>
        .inr (exited_step h he)⟩)
      ⟨hinv, .inl (.of_markReady hr.inv he hserving)⟩
  rcases hend.2 with h | h
  · refine h.receiptAllowed_iff hphase ?_
    unfold ReceiptRequest.stateOk receiptRequest
    rcases hstate with hs | ⟨hs, rfl⟩
    · cases final <;> simp [hs]
    · simp [hs]
  · rw [hphase] at h
    simp at h

/-- Container 10 of a new sandbox has restored. -/
def startRun : List Event :=
  [.other .read, .other (.acquireStart (newRecord "sub" "box" ⟨0⟩ "1" ⟨0⟩) ⟨7⟩ 90 false
    ⟨1⟩ ⟨1000000⟩),
    .readRecord ⟨10⟩ ⟨1⟩, .acquire ⟨10⟩ ⟨2000000⟩ true, .restore ⟨10⟩ false]

def startedWorld : World := (Machine.runAlong step Machine.Any newWorld startRun).get (by decide)

def readyEvent : Event := .markReady ⟨10⟩ "INITIALIZED" ⟨3000000⟩ true

def readyWorld : World := (startedWorld.step readyEvent).get (by decide)

theorem startedWorld_reachable : startedWorld.Reachable :=
  ⟨"sub", "box", ⟨0⟩, "1", ⟨0⟩, .of_isSome _⟩

/-- Two checkpoints of container 10; the response of the first receipt arrives or not. -/
def twoCheckpoints (answered : Bool) : List Event :=
  [.number ⟨10⟩, .putManifest ⟨10⟩ (digestOf 'a'), .check ⟨10⟩, .putCommit ⟨10⟩ ⟨4000000⟩,
    .receipt ⟨10⟩ false {} ⟨5000000⟩ answered,
    .number ⟨10⟩, .putManifest ⟨10⟩ (digestOf 'b'), .check ⟨10⟩, .putCommit ⟨10⟩ ⟨6000000⟩]

def secondCommit (answered : Bool) : Option World :=
  Machine.runAlong step (fun w e => w.undisturbed ⟨10⟩ e = true) readyWorld
    (twoCheckpoints answered)

def answeredWorld : World := (secondCommit true).get (by decide)

def lostWorld : World := (secondCommit false).get (by decide)

theorem unfenced_receipt_allowed_answered :
    receiptAllowed answeredWorld.sys.item (answeredWorld.containers ⟨10⟩).session
      (answeredWorld.receiptRequest ⟨10⟩ 2 (digestOf 'b') true {}) ↔
          (answeredWorld.containers ⟨10⟩).lost = false :=
  unfenced_receipt_allowed_iff startedWorld_reachable (Option.some_get _).symm (by decide)
    (.of_isSome _) (by decide) (.inl (by decide))

/-- After one applied receipt whose response was lost the next receipt is refused. -/
theorem receipt_refused_after_lost_response :
    ¬ ∀ (w₀ w w' : World) (H : InstanceId) (outcome : String)
    (now : Instant) (g : Nat) (digest : Digest) (final : Bool) (hints : ScheduleHints),
    w₀.Reachable →
    w₀.step (.markReady H outcome now true) = some w → (w.containers H).phase = .serving →
    Machine.Reaches step (fun w e => w.undisturbed H e = true) w w' →
    (w'.containers H).phase = .committed g digest →
    (w'.sys.item.state = .ready ∨ w'.sys.item.state = .stopping ∧ final = true) →
    receiptAllowed w'.sys.item (w'.containers H).session
        (w'.receiptRequest H g digest final hints) := by
  intro h
  have hallowed :=
    h startedWorld readyWorld lostWorld ⟨10⟩ "INITIALIZED" ⟨3000000⟩ 2 (digestOf 'b') true {}
    startedWorld_reachable (Option.some_get _).symm (by decide) (.of_isSome _) (by decide)
      (.inl (by decide))
  revert hallowed
  decide

end World

end KiroCrew
