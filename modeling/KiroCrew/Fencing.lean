import KiroCrew.SystemInv

/-!
# Fencing

Two consequences of `step_change` for whole runs. An instance whose claim was replaced by another
instance's (`Fenced`) has no broker call left that is applied, until it claims again
(`fenced_call_refused`). A session that the record no longer names, or that was stopped (`Retired`),
has none either, except for the initialization heartbeat: its condition is ownership alone, so it is
applied again when the same instance has claimed initialization under the new session
(`retired_call_refused`).
-/

namespace KiroCrew

/-- `A` makes this call and names itself where the operation takes an instance. -/
def BrokerOp.sentBy (A : InstanceId) : BrokerOp → Prop
  | .acquireInit _ => False
  | .heartbeatInit owner _ => owner = A
  | .heartbeatLease holder _ => holder = some A
  | .healReady => True
  | .markReady owner _ => owner = A
  | .markError owner _ => owner = some A
  | .checkpointReceipt r _ => r.holderInstance = some A

namespace System

/-- The event is a claim of `A` and it is applied. -/
def Claims (A : InstanceId) (s : System) : Event → Prop
  | .call c _ now => c.op = .acquireInit A ∧ c.write s.item now ≠ none
  | _ => False

instance (A : InstanceId) (s : System) : (e : Event) → Decidable (Claims A s e)
  | .call c _ now => inferInstanceAs (Decidable (c.op = .acquireInit A ∧ c.write s.item now ≠ none))
  | .read | .acquireStart .. | .stop .. | .transition .. | .requestDeletion ..
  | .recordWakeSubject .. =>
    .isFalse id

variable {s s' s₁ s₂ s₃ : System} {e : Event} {A B : InstanceId} {S : SessionId}

/-! ## Instances -/

/-- Another instance holds the record. -/
def Fenced (A : InstanceId) (s : System) : Prop :=
  ∃ B, s.item.holderInstance = some B ∧ B ≠ A

theorem Fenced.ne (h : Fenced A s) : s.item.holderInstance ≠ some A := by
  obtain ⟨B, hB, hne⟩ := h
  rw [hB]
  exact fun heq => hne (Option.some.inj heq)

theorem Fenced.not_owner (h : Fenced A s) (hi : ItemInv s.item) : s.item.initOwner ≠ some A :=
  fun ho => h.ne (hi.owner A ho).1

theorem Fenced.of_holder (h : Fenced A s) (hh : s'.item.holderInstance = s.item.holderInstance) :
    Fenced A s' := by
  obtain ⟨B, hB, hne⟩ := h
  exact ⟨B, hh.trans hB, hne⟩

/-- The holder changes only with a claim: `markReady` names the owner, which is the holder
already. -/
theorem write_holderInstance {item item' : Item} {c : BrokerCall} {now : Instant}
    (hi : ItemInv item)
    (hw : c.write item now = some item') :
    item'.holderInstance = item.holderInstance ∨
      ∃ B, c.op = .acquireInit B ∧ item'.holderInstance = some B := by
  obtain ⟨session, op⟩ := c
  have he : BrokerCall.Effect item item' session op := BrokerCall.write_effect hw
  cases he with
  | @acquireInit owner _ _ hc => exact .inr ⟨owner, rfl, (core_eq hc).2.2.2⟩
  | heartbeatInit _ hc | heartbeatLease _ hc | healReady _ _ hc | markError _ hc =>
    exact .inl (core_eq hc).2.2.2
  | @markReady owner _ _ howns hc =>
    left
    rw [(core_eq hc).2.2.2]
    exact (hi.owner owner howns).1.symm
  | checkpointReceipt _ _ hu => rw [hu]; exact .inl rfl

theorem step_holder (hinv : Inv s) (he : s.step e = some s') :
    s'.item.holderInstance = s.item.holderInstance ∨
      ∃ B, Claims B s e ∧ s'.item.holderInstance = some B := by
  cases step_change hinv.reads he with
  | same hc | rotate _ hc | stopped _ hc | deletion _ hc => exact .inl (core_eq hc).2.2.2
  | @call c _ now hev hw =>
    rcases write_holderInstance hinv.item hw with hh | ⟨B, hop, hh⟩
    · exact .inl hh
    · subst hev
      exact .inr ⟨B, ⟨hop, by rw [hw]; simp⟩, hh⟩

theorem Fenced.step (h : Fenced A s) (hinv : Inv s) (hC : ¬ Claims A s e)
    (he : s.step e = some s') :
    Fenced A s' := by
  rcases step_holder hinv he with hh | ⟨B, hc, hh⟩
  · exact h.of_holder hh
  · refine ⟨B, hh, fun hBA => ?_⟩
    subst hBA
    exact hC hc

/-- No call of a fenced instance is applied under the session of its own last claim. -/
theorem Fenced.refused (h : Fenced A s) (hinv : Inv s) {c : BrokerCall} (hsent : c.op.sentBy A)
    (hclaim : s.claimed A = some c.session) (now : Instant) : c.write s.item now = none := by
  by_contra hne
  obtain ⟨item', hw⟩ := Option.ne_none_iff_exists'.1 hne
  obtain ⟨session, op⟩ := c
  have he : BrokerCall.Effect s.item item' session op := BrokerCall.write_effect hw
  cases he with
  | acquireInit => exact hsent
  | heartbeatInit ho => exact h.not_owner hinv.item (by rw [ho]; exact congrArg some hsent)
  | heartbeatLease ha =>
    obtain ⟨B, hB, -⟩ := id h
    rcases ha.2 with hh | hh | hh
    · rw [hh] at hsent; simp [BrokerOp.sentBy] at hsent
    · rw [hB] at hh; simp at hh
    · exact h.ne (hh.trans hsent)
  | healReady hse hst => exact hinv.started A (by rw [hclaim, hse]) hst
  | markReady _ ho => exact h.not_owner hinv.item (by rw [ho]; exact congrArg some hsent)
  | markError ha =>
    obtain ⟨-, ho⟩ := ha
    rw [show _ = some A from hsent] at ho
    exact h.not_owner hinv.item ho
  | @checkpointReceipt r _ _ _ ha =>
    have hr : r.holderInstance = some A := hsent
    obtain ⟨B, hB, -⟩ := id h
    rcases ha.2.1 with hh | hh | hh
    · rw [hr] at hh; simp at hh
    · rw [hB] at hh; simp at hh
    · exact h.ne (hh.trans hr)

/-- Once a claim of `B` is applied, no call of `A` is, until a claim of `A` is applied again. -/
theorem fenced_call_refused (hAB : A ≠ B) (hr : Reachable s) (hB : Claims B s e)
    (he : s.step e = some s₁)
    (hrun : Machine.Reaches System.step (fun s e => ¬ Claims A s e) s₁ s₂) {c : BrokerCall}
    (hsent : c.op.sentBy A)
    (hclaim : s₂.claimed A = some c.session) (now : Instant) : c.write s₂.item now = none := by
  have hinv₁ : Inv s₁ := hr.inv.step he
  have hfenced : Fenced A s₁ := by
    cases e with
    | call c subjectHash now =>
      obtain ⟨hop, hw⟩ := hB
      obtain ⟨item', hw⟩ := Option.ne_none_iff_exists'.1 hw
      rw [System.step, hw] at he
      obtain rfl := Option.some.inj he
      obtain ⟨session, op⟩ := c
      subst hop
      refine ⟨B, ?_, hAB.symm⟩
      rw [applied_item]
      exact (core_eq (acquireInit_eq_some hw).2.1).2.2.2
    | read | acquireStart | stop | transition | requestDeletion | recordWakeSubject => exact hB.elim
  have hend : Fenced A s₂ ∧ Inv s₂ :=
    hrun.invariant (I := fun s => Fenced A s ∧ Inv s)
      (fun _ _ _ hs hC he => ⟨hs.1.step hs.2 hC he, hs.2.step he⟩) ⟨hfenced, hinv₁⟩
  exact hend.1.refused hend.2 hsent hclaim now

/-- A new sandbox whose first start is claimed by instance 10 at second 2. -/
def firstClaim : List Event :=
  [.read,
    .acquireStart (newRecord "sub" "box" ⟨0⟩ "1" ⟨0⟩) ⟨7⟩ 90 false ⟨1⟩ ⟨1000000⟩,
    .call ⟨⟨1⟩, .acquireInit ⟨10⟩⟩ "sub" ⟨2000000⟩]

def newSystem : System := init "sub" "box" ⟨0⟩ "1" ⟨0⟩

def claimedSystem : System :=
  (Machine.runAlong System.step Machine.Any newSystem firstClaim).get (by decide)

theorem claimedSystem_reachable : Reachable claimedSystem :=
  ⟨"sub", "box", ⟨0⟩, "1", ⟨0⟩, .of_isSome _⟩

/-- Instance 11 claims after the initialization lease of instance 10 has run out. -/
def secondClaim : Event := .call ⟨⟨1⟩, .acquireInit ⟨11⟩⟩ "sub" ⟨100000000⟩

/-- The `markReady` of a container whose initialization was taken over. -/
theorem fenced_call_refused_takeover :
    (BrokerCall.mk ⟨1⟩ (.markReady ⟨10⟩ "SUCCESS")).write
      ((claimedSystem.step secondClaim).get (by decide)).item ⟨101000000⟩ = none :=
  fenced_call_refused (A := ⟨10⟩) (B := ⟨11⟩) (e := secondClaim)
    (c := ⟨⟨1⟩, .markReady ⟨10⟩ "SUCCESS"⟩) (by decide) claimedSystem_reachable (by decide)
    (Option.some_get _).symm .refl rfl (by decide) ⟨101000000⟩

/-! ## Sessions -/

/-- The record has left `S`: it names another session, or it is stopped and nobody holds a lease. -/
structure Retired (S : SessionId) (s : System) : Prop where
  known : S ∈ s.sessions
  gone : s.item.runtimeSessionId ≠ S ∨ s.item.state = .stopped ∧ s.item.leaseOwner = none

theorem stopped_refuses {item : Item} (hi : ItemInv item) (hs : item.state = .stopped)
    (hl : item.leaseOwner = none)
    (c : BrokerCall) (now : Instant) : c.write item now = none := by
  by_contra hne
  obtain ⟨item', hw⟩ := Option.ne_none_iff_exists'.1 hne
  obtain ⟨session, op⟩ := c
  have he : BrokerCall.Effect item item' session op := BrokerCall.write_effect hw
  cases he with
  | acquireInit ha =>
    rcases ha.2.1 with (h | h) | h
    · simp [hs] at h
    · simp [hs] at h
    · simp [hs] at h
  | heartbeatInit ho => exact hi.not_stopped ho hs
  | heartbeatLease ha => have h := ha.1; rw [hl] at h; simp at h
  | healReady _ h => simp [hs] at h
  | markReady _ ho => exact hi.not_stopped ho hs
  | markError ha =>
    obtain ⟨o, -, ho⟩ := ha.ne_stopped hs
    exact hi.not_stopped ho hs
  | checkpointReceipt _ ha => rcases ha.live with h | h | h | h <;> simp [hs] at h

/-- A step that moves the record to another session, or to `STOPPED`, retires every known
session. -/
theorem Retired.of_step (hinv : Inv s) (hS : S ∈ s.sessions) (he : s.step e = some s')
    (hmove : s'.item.runtimeSessionId ≠ s.item.runtimeSessionId ∨
      s.item.state ≠ .stopped ∧ s'.item.state = .stopped) : Retired S s' := by
  cases step_change hinv.reads he with
  | same hc =>
    obtain ⟨hst, hse, -, -⟩ := core_eq hc
    rcases hmove with h | ⟨h, h'⟩
    · exact absurd hse h
    · exact absurd (hst.symm.trans h') h
  | @call c _ now _ hw =>
    -- a broker write neither changes the session nor stops the record
    rcases hmove with h | ⟨h, h'⟩
    · exact absurd (write_runtimeSessionId hw) h
    · obtain ⟨session, op⟩ := c
      have heff : BrokerCall.Effect s.item s'.item session op := BrokerCall.write_effect hw
      cases heff with
      | acquireInit _ hc | healReady _ _ hc | markReady _ _ hc | markError _ hc =>
        have := (core_eq hc).1; rw [h'] at this; simp at this
      | heartbeatInit _ hc | heartbeatLease _ hc => exact absurd ((core_eq hc).1.symm.trans h') h
      | checkpointReceipt _ _ hu =>
        rw [hu] at h'
        simp only [ReceiptRequest.update] at h'
        split at h'
        · simp at h'
        · exact absurd h' h
  | rotate hf hc _ _ hs =>
    obtain ⟨-, hse, -, -⟩ := core_eq hc
    refine ⟨by rw [hs]; exact List.mem_cons_of_mem _ hS, .inl fun heq => hf ?_⟩
    simp only [hse] at heq
    rw [heq]; exact hS
  | stopped _ hc _ _ hs => exact ⟨by rw [hs]; exact hS, .inr ⟨(core_eq hc).1, (core_eq hc).2.2.1⟩⟩
  | deletion hst hc =>
    rcases hmove with h | ⟨h, -⟩
    · exact absurd (core_eq hc).2.1 h
    · exact absurd hst h

theorem Retired.step (h : Retired S s) (hinv : Inv s) (he : s.step e = some s') : Retired S s' := by
  cases step_change hinv.reads he with
  | same hc _ _ hs =>
    obtain ⟨hst, hse, hl, -⟩ := core_eq hc
    refine ⟨hs _ h.known, ?_⟩
    rw [hse, hst, hl]
    exact h.gone
  | call _ hw hs =>
    refine ⟨by rw [hs]; exact h.known, ?_⟩
    rcases h.gone with hne | ⟨hst, hl⟩
    · rw [write_runtimeSessionId hw]; exact .inl hne
    · rw [stopped_refuses hinv.item hst hl] at hw; simp at hw
  | rotate hf hc _ _ hs =>
    obtain ⟨-, hse, -, -⟩ := core_eq hc
    refine ⟨by rw [hs]; exact List.mem_cons_of_mem _ h.known, .inl fun heq => hf ?_⟩
    simp only [hse] at heq
    rw [heq]; exact h.known
  | stopped _ hc _ _ hs =>
    exact ⟨by rw [hs]; exact h.known, .inr ⟨(core_eq hc).1, (core_eq hc).2.2.1⟩⟩
  | deletion _ hc _ _ hs =>
    obtain ⟨hst, hse, hl, -⟩ := core_eq hc
    refine ⟨by rw [hs]; exact h.known, ?_⟩
    rw [hse, hst, hl]
    exact h.gone

theorem Retired.run {C : System → Event → Prop} (h : Retired S s) (hinv : Inv s)
    (hrun : Machine.Reaches System.step C s s') : Retired S s' ∧ Inv s' :=
  hrun.invariant (I := fun s => Retired S s ∧ Inv s)
    (fun _ _ _ hs _ he => ⟨hs.1.step hs.2 he, hs.2.step he⟩) ⟨h, hinv⟩

/-- Under a retired session only an initialization heartbeat of the present owner is applied. -/
theorem Retired.write_eq_none_iff (h : Retired S s) (hinv : Inv s) (op : BrokerOp) (now : Instant) :
    (BrokerCall.mk S op).write s.item now = none ↔
      ∀ owner progress, op = .heartbeatInit owner progress → s.item.initOwner ≠ some owner := by
  rcases h.gone with hne | ⟨hst, hl⟩
  · constructor
    · rintro hw owner progress rfl howns
      simp [BrokerCall.write, heartbeatInit, howns] at hw
    · intro hhb
      by_contra hw
      obtain ⟨item', hw⟩ := Option.ne_none_iff_exists'.1 hw
      have heff : BrokerCall.Effect s.item item' S op := BrokerCall.write_effect hw
      cases heff with
      | acquireInit ha => exact hne ha.1
      | heartbeatInit ho => exact hhb _ _ rfl ho
      | heartbeatLease ha => exact hne (hinv.item.lease S ha.1).symm
      | healReady hse | markReady hse => exact hne hse
      | markError ha => exact hne ha.1
      | checkpointReceipt _ ha => exact hne ha.1
  · -- a stopped record has no owner, and refuses every call
    simp only [stopped_refuses hinv.item hst hl, true_iff]
    exact fun owner _ _ howns => hinv.item.not_stopped howns hst

/-- Without a claim of `A` the initialization does not become `A`'s. -/
theorem not_owner_step (hinv : Inv s) (hA : s.item.initOwner ≠ some A) (hC : ¬ Claims A s e)
    (he : s.step e = some s') : s'.item.initOwner ≠ some A := by
  cases step_change hinv.reads he with
  | same _ hi => rw [hi]; exact hA
  | @call c _ now hev hw =>
    obtain ⟨session, op⟩ := c
    have heff : BrokerCall.Effect s.item s'.item session op := BrokerCall.write_effect hw
    cases heff with
    | @acquireInit owner _ _ _ hi =>
      rw [hi]
      rintro heq
      obtain rfl := Option.some.inj heq
      subst hev
      exact hC ⟨rfl, by rw [hw]; simp⟩
    | heartbeatInit _ _ hi | heartbeatLease _ _ hi | healReady _ _ _ hi => rw [hi]; exact hA
    | markReady _ _ _ hi | markError _ _ hi => rw [hi]; simp
    | checkpointReceipt _ _ hu => rw [hu]; exact hA
  | rotate _ _ hi | stopped _ _ hi | deletion _ _ hi => rw [hi]; simp

/-- The step that retires a session leaves the initialization without an owner. -/
theorem initOwner_of_move (hinv : Inv s) (he : s.step e = some s')
    (hmove : s'.item.runtimeSessionId ≠ s.item.runtimeSessionId ∨
      s.item.state ≠ .stopped ∧ s'.item.state = .stopped) : s'.item.initOwner = none := by
  cases step_change hinv.reads he with
  | same hc =>
    obtain ⟨hst, hse, -, -⟩ := core_eq hc
    rcases hmove with h | ⟨h, h'⟩
    · exact absurd hse h
    · exact absurd (hst.symm.trans h') h
  | call _ hw =>
    rcases hmove with h | ⟨-, h⟩
    · exact absurd (write_runtimeSessionId hw) h
    · cases ho : s'.item.initOwner with
      | none => rfl
      | some A => exact absurd h ((hinv.item.write hw).not_stopped ho)
  | rotate _ _ hi | stopped _ _ hi | deletion _ _ hi => exact hi

/-- A call authorized for `S` before the record leaves `S` is refused afterwards, in every run,
unless it is an initialization heartbeat and its instance owns the initialization again, which takes
an applied claim of that instance in between. -/
theorem retired_call_refused {op : BrokerOp} {t : Instant} (hr : Reachable s)
    (hauth : authorize s.item S t = true) (hrun₁ : Machine.Reaches System.step Machine.Any s s₁)
    (he : s₁.step e = some s₂)
    (hmove : s₂.item.runtimeSessionId ≠ s₁.item.runtimeSessionId ∨
      s₁.item.state ≠ .stopped ∧ s₂.item.state = .stopped)
    (hrun₂ : Machine.Reaches System.step Machine.Any s₂ s₃) (now : Instant) :
    ((BrokerCall.mk S op).write s₃.item now = none ↔
      ∀ owner progress, op = .heartbeatInit owner progress → s₃.item.initOwner ≠ some owner) ∧
    ∀ A, Machine.Reaches System.step (fun s e => ¬ Claims A s e) s₂ s₃ →
        s₃.item.initOwner ≠ some A := by
  have hinv₁ : Inv s₁ := (hr.trans hrun₁).inv
  have hS : S ∈ s₁.sessions := by
    have hsub : ∀ i ∈ s.sessions, i ∈ s₁.sessions := (hrun₁.invariant
      (I := fun s₁ => (∀ i ∈ s.sessions, i ∈ s₁.sessions) ∧ Inv s₁)
      (fun s₁ e s₂ hs _ he => ⟨fun i hi => (step_change hs.2.reads he).sessions_mono i (hs.1 i hi),
        hs.2.step he⟩)
      ⟨fun _ h => h, hr.inv⟩).1
    have hSid : s.item.runtimeSessionId = S := by
      simp only [authorize, Bool.and_eq_true, decide_eq_true_eq] at hauth
      exact hauth.1
    exact hsub S (hSid ▸ hr.inv.session)
  have hret : Retired S s₂ := .of_step hinv₁ hS he hmove
  have hinv₂ : Inv s₂ := hinv₁.step he
  obtain ⟨hret₃, hinv₃⟩ := hret.run hinv₂ hrun₂
  refine ⟨hret₃.write_eq_none_iff hinv₃ op now, fun A hrunA => ?_⟩
  have hnone : s₂.item.initOwner ≠ some A := by
    rw [initOwner_of_move hinv₁ he hmove]; simp
  exact (hrunA.invariant (I := fun s => s.item.initOwner ≠ some A ∧ Inv s)
    (fun _ _ _ hs hC he => ⟨not_owner_step hs.2 hs.1 hC he, hs.2.step he⟩) ⟨hnone, hinv₂⟩).1

/-- A control start reads the record of `claimedSystem` … -/
def readSystem : System := (claimedSystem.step .read).get (by decide)

/-- … and rotates it to session 2 when the lease and the initialization of instance 10 have run
out. -/
def rotation : Event := .acquireStart claimedSystem.item.record ⟨7⟩ 90 true ⟨2⟩ ⟨100000000⟩

def rotatedSystem : System := (readSystem.step rotation).get (by decide)

/-- The `markReady` that instance 10 sent under session 1, and its heartbeat as long as it has not
claimed again. -/
theorem retired_call_refused_rotation :
    ((BrokerCall.mk ⟨1⟩ (.markReady ⟨10⟩ "SUCCESS")).write rotatedSystem.item ⟨101000000⟩ = none ↔
      ∀ owner progress, BrokerOp.markReady ⟨10⟩ "SUCCESS" = .heartbeatInit owner progress →
        rotatedSystem.item.initOwner ≠ some owner) ∧
    ∀ A, Machine.Reaches System.step (fun s e => ¬ Claims A s e) rotatedSystem rotatedSystem →
      rotatedSystem.item.initOwner ≠ some A :=
  retired_call_refused (s := claimedSystem) (S := ⟨1⟩) (t := ⟨3000000⟩) (e := rotation)
    claimedSystem_reachable (by decide) (.single trivial (e := .read) rfl) (Option.some_get _).symm
      (by decide) .refl
    ⟨101000000⟩

/-- Instance 10 claims again, under session 2. -/
def reclaimedSystem : System :=
  (rotatedSystem.step (.call ⟨⟨2⟩, .acquireInit ⟨10⟩⟩ "sub" ⟨101000000⟩)).get (by decide)

/-- The initialization heartbeat that instance 10 sent under session 1 is applied under session
2. -/
theorem stale_heartbeatInit_applied :
    ¬ ∀ (s s₁ s₂ s₃ : System) (e : Event) (S : SessionId) (op : BrokerOp)
    (t now : Instant), Reachable s → authorize s.item S t = true →
    Machine.Reaches System.step Machine.Any s s₁ →
    s₁.step e = some s₂ →
    (s₂.item.runtimeSessionId ≠ s₁.item.runtimeSessionId ∨
      s₁.item.state ≠ .stopped ∧ s₂.item.state = .stopped) →
    Machine.Reaches System.step Machine.Any s₂ s₃ →
        (BrokerCall.mk S op).write s₃.item now = none := by
  intro h
  have hrefused := h claimedSystem readSystem rotatedSystem reclaimedSystem rotation ⟨1⟩
    (.heartbeatInit ⟨10⟩ none) ⟨3000000⟩ ⟨102000000⟩ claimedSystem_reachable (by decide)
    (.single trivial (e := .read) rfl) (Option.some_get _).symm (by decide)
    (.single trivial (Option.some_get _).symm)
  revert hrefused
  decide

end System

end KiroCrew
