import KiroCrew.Fencing

/-!
# Updates under a full-record put

A control request decides on a copy of the record and puts the whole record back under the version
it read. The version protects what moves it. The two heartbeats and the wake subject are written
without moving it, so they can happen between the read and a put that succeeds (`step_versioned`),
and the put then writes back what the copy holds of `lastServedAt`, `initExpiresAt`,
`restoreProgress` and `wakeSubject`, and a start may rotate a record whose lease it did not see
renewed. `put_keeps_updates_iff` says exactly when neither happens.
-/

namespace KiroCrew

inductive Attribute
  | ownerHash | sandboxId | runtimeSessionId | state | stateVersion | kiroAuthMode | kiroCrewVersion
  | createdAt | updatedAt | leaseOwner | leaseExpiresAt | activeRequestId | lastCheckpointGeneration
  | lastCheckpointManifestDigest | initOwner | initExpiresAt | lastRestore | deletionState
  | lastInitializationFailure | lastInitializationFailureDetail | lastInitializationFailureException
  | nextDueAt | nextDueJob | restoreSeconds | holderInstance | lastServedAt | wakeSubject
  | restoreProgress
deriving DecidableEq, Repr

inductive AttributeValue
  | text (value : String)
  | number (value : Nat)
  | time (value : Instant)
  | session (value : SessionId)
  | container (value : InstanceId)
  | state (value : SandboxState)
  | digest (value : Digest)
deriving DecidableEq, Repr

/-- The stored value of an attribute; `none` when the item does not have it. -/
def Item.value (item : Item) : Attribute → Option AttributeValue
  | .ownerHash => some (.text item.ownerHash)
  | .sandboxId => some (.text item.sandboxId)
  | .runtimeSessionId => some (.session item.runtimeSessionId)
  | .state => some (.state item.state)
  | .stateVersion => some (.number item.stateVersion)
  | .kiroAuthMode => some (.text item.kiroAuthMode)
  | .kiroCrewVersion => some (.text item.kiroCrewVersion)
  | .createdAt => some (.time item.createdAt)
  | .updatedAt => some (.time item.updatedAt)
  | .leaseOwner => item.leaseOwner.map .session
  | .leaseExpiresAt => item.leaseExpiresAt.map .time
  | .activeRequestId => item.activeRequestId.map .text
  | .lastCheckpointGeneration => item.lastCheckpointGeneration.map .number
  | .lastCheckpointManifestDigest => item.lastCheckpointManifestDigest.map .digest
  | .initOwner => item.initOwner.map .container
  | .initExpiresAt => item.initExpiresAt.map .number
  | .lastRestore => item.lastRestore.map .text
  | .deletionState => item.deletionState.map .text
  | .lastInitializationFailure => item.lastInitializationFailure.map .text
  | .lastInitializationFailureDetail => item.lastInitializationFailureDetail.map .text
  | .lastInitializationFailureException => item.lastInitializationFailureException.map .text
  | .nextDueAt => item.nextDueAt.map .number
  | .nextDueJob => item.nextDueJob.map .text
  | .restoreSeconds => item.restoreSeconds.map .number
  | .holderInstance => item.holderInstance.map .container
  | .lastServedAt => item.lastServedAt.map .time
  | .wakeSubject => item.wakeSubject.map .text
  | .restoreProgress => item.restoreProgress.map .text

/-- The item less the attributes that are written while the version stays. -/
def Item.versioned (item : Item) : Item :=
  { item with
    leaseExpiresAt := none
    updatedAt := ⟨0⟩
    lastServedAt := none
    initExpiresAt := none
    restoreProgress := none
    wakeSubject := none }

@[simp] theorem Item.versioned_stateVersion (item : Item) : item.versioned.stateVersion =
    item.stateVersion := rfl

/-- The attributes that are written without moving the version. -/
def Attribute.unversioned : List Attribute :=
  [.leaseExpiresAt, .updatedAt, .lastServedAt, .initExpiresAt, .restoreProgress, .wakeSubject]

theorem Item.value_versioned (item : Item) {a : Attribute} (ha : a ∉ Attribute.unversioned) :
    item.versioned.value a = item.value a := by
  cases a <;> first | rfl | exact absurd (by decide) ha

theorem Item.value_eq {item item' : Item} (h : item'.versioned = item.versioned) {a : Attribute}
    (ha : a ∉ Attribute.unversioned) : item'.value a = item.value a := by
  rw [← item'.value_versioned ha, h, item.value_versioned ha]

/-! ## Puts of control requests -/

/-- The attributes a request names in `replace`. -/
def Event.replaced : Event → List Attribute
  | .acquireStart .. =>
    [.state, .stateVersion, .runtimeSessionId, .leaseOwner, .leaseExpiresAt,
      .activeRequestId, .updatedAt]
  | .transition .. =>
    [.state, .stateVersion, .leaseOwner, .leaseExpiresAt, .activeRequestId, .updatedAt]
  | .requestDeletion .. => [.stateVersion, .deletionState, .updatedAt]
  | .call .. | .read | .stop .. | .recordWakeSubject .. => []

namespace System

variable {s s' s₀ s₁ : System} {e : Event} {record updated : SandboxRecord} {t : Instant}

theorem decision_value (hd : e.decision = some (record, updated)) {a : Attribute}
    (ha : a ∉ e.replaced) :
    updated.item.value a = record.item.value a := by
  cases e with
  | call | read | stop | recordWakeSubject => simp [Event.decision] at hd
  | acquireStart r leaseOwner ttl confirmedInactive rotated now =>
    simp only [Event.decision] at hd
    split at hd
    · next u hu =>
      obtain ⟨rfl, rfl⟩ := Prod.mk.inj (Option.some.inj hd)
      obtain rfl := acquireStart_rotate hu
      cases a <;> first | rfl | simp [Event.replaced] at ha
    · simp at hd
    · simp at hd
  | transition pending r now =>
    obtain ⟨u, hu, heq⟩ := Option.map_eq_some_iff.1 hd
    obtain ⟨rfl, rfl⟩ := Prod.mk.inj heq
    obtain ⟨-, -, -, rfl⟩ := transition_eq_some hu
    cases a <;> first | rfl | simp [Event.replaced] at ha
  | requestDeletion r now =>
    obtain ⟨u, hu, heq⟩ := Option.map_eq_some_iff.1 hd
    obtain ⟨rfl, rfl⟩ := Prod.mk.inj heq
    obtain ⟨-, rfl⟩ := requestDeletion_eq_some hu
    cases a <;> first | rfl | simp [Event.replaced] at ha

/-! ## Between the read and the put -/

theorem write_versioned_eq {item item' : Item} {c : BrokerCall} {now : Instant}
    (hw : c.write item now = some item') :
    item.stateVersion < item'.stateVersion ∨ item'.versioned = item.versioned ∧
      (item.leaseOwner = none → item'.leaseExpiresAt = item.leaseExpiresAt) := by
  have hv := BrokerCall.write_versioned hw
  obtain ⟨session, op⟩ := c
  cases op with
  | acquireInit owner => exact .inl (by have := (acquireInit_eq_some hw).2.2.2; omega)
  | healReady => exact .inl (by have := (healReady_eq_some hw).2.2.2.2; omega)
  | markReady owner outcome => exact .inl (by have := (markReady_eq_some hw).2.2.2.2; omega)
  | markError owner d => exact .inl (by have := (markError_eq_some hw).2.2.2; omega)
  | checkpointReceipt r commit =>
    obtain ⟨⟨i, c⟩, hc, rfl⟩ := Option.map_eq_some_iff.1 hw
    obtain ⟨-, -, rfl, -⟩ := checkpointReceipt_eq_some hc
    exact .inl (Nat.lt_succ_self _)
  | heartbeatInit owner progress =>
    simp only [BrokerCall.write, KiroCrew.heartbeatInit] at hw
    split at hw
    · obtain rfl := Option.some.inj hw
      exact .inr ⟨rfl, fun _ => rfl⟩
    · simp at hw
  | heartbeatLease holder served =>
    have hallowed := (heartbeatLease_eq_some hw).1.1
    simp only [BrokerCall.write, KiroCrew.heartbeatLease] at hw
    split at hw
    · simp at hw
    · split at hw
      · obtain rfl := Option.some.inj hw
        exact .inr ⟨rfl, fun h => by rw [h] at hallowed; simp at hallowed⟩
      · simp at hw

theorem step_versioned (h : s.step e = some s') :
    s.item.stateVersion < s'.item.stateVersion ∨ s'.item.versioned = s.item.versioned ∧
      (s.item.leaseOwner = none → s'.item.leaseExpiresAt = s.item.leaseExpiresAt) := by
  rcases step_item h with hi | ⟨c, subjectHash, now, -, hw⟩ | ⟨record, updated, hd, hv,
    hi⟩ | ⟨sealed, -, hi⟩
  · exact .inr ⟨by rw [hi], fun _ => by rw [hi]⟩
  · exact write_versioned_eq hw
  · have := decision_version hd
    exact .inl (by rw [hi, SandboxRecord.item_stateVersion]; omega)
  · exact .inr ⟨by rw [hi]; rfl, fun _ => by rw [hi]⟩

/-- Nothing the version protects was written since `read`, if the version is the same. -/
structure Since (read item : Item) : Prop where
  le : read.stateVersion ≤ item.stateVersion
  versioned : item.stateVersion = read.stateVersion → item.versioned = read.versioned
  lease : item.stateVersion = read.stateVersion → read.leaseOwner = none →
    item.leaseExpiresAt = read.leaseExpiresAt

theorem Since.refl (item : Item) : Since item item := ⟨Nat.le_refl _, fun _ => rfl, fun _ _ => rfl⟩

theorem Since.step {read : Item} (h : Since read s.item) (he : s.step e = some s') :
    Since read s'.item := by
  have hle := h.le
  rcases step_versioned he with hlt | ⟨hv, hl⟩
  · exact ⟨by omega, fun heq => by omega, fun heq => by omega⟩
  · have hsame : s'.item.versioned.stateVersion = s.item.versioned.stateVersion := by rw [hv]
    simp only [Item.versioned_stateVersion] at hsame
    refine ⟨by omega, fun heq => ?_, fun heq hn => ?_⟩
    · rw [hv, h.versioned (by omega)]
    · have hver := h.versioned (by omega)
      have hown : s.item.versioned.leaseOwner = none := by rw [hver]; exact hn
      rw [hl hown, h.lease (by omega) hn]

theorem Since.run {C : System → Event → Prop} (h : Machine.Reaches System.step C s s') :
    Since s.item s'.item :=
  h.relation (R := fun s s' => Since s.item s'.item) (fun s => .refl s.item) fun _ _ _ _ h _ he =>
    h.step he

theorem step_stopped (hreads : ∀ r ∈ s.reads, Agrees r s.item) (h : s.item.state = .stopped →
    s.item.leaseOwner = none)
    (he : s.step e = some s') (hs : s'.item.state = .stopped) : s'.item.leaseOwner = none := by
  cases step_change hreads he with
  | same hc =>
    obtain ⟨hst, -, hl, -⟩ := core_eq hc
    exact hl.trans (h (hst.symm.trans hs))
  | @call c _ now _ hw =>
    obtain ⟨session, op⟩ := c
    have heff : BrokerCall.Effect s.item s'.item session op := BrokerCall.write_effect hw
    cases heff with
    | acquireInit _ hc | healReady _ _ hc | markReady _ _ hc | markError _ hc =>
      have := (core_eq hc).1
      rw [hs] at this; simp at this
    | heartbeatInit _ hc | heartbeatLease _ hc =>
      obtain ⟨hst, -, hl, -⟩ := core_eq hc
      exact hl.trans (h (hst.symm.trans hs))
    | checkpointReceipt _ hallowed hu =>
      rw [hu] at hs ⊢
      simp only [ReceiptRequest.update] at hs ⊢
      split at hs
      · simp at hs
      · exact h hs
  | rotate _ hc =>
    have := (core_eq hc).1
    rw [hs] at this; simp at this
  | stopped _ hc => exact (core_eq hc).2.2.1
  | deletion hst hc => exact (core_eq hc).2.2.1.trans (h hst)

theorem Reachable.stopped_unowned (h : Reachable s) : s.item.state = .stopped →
    s.item.leaseOwner = none := by
  obtain ⟨ownerHash, sandboxId, session, version, now, hr⟩ := h
  exact (hr.invariant (I := fun s => (s.item.state = .stopped → s.item.leaseOwner = none) ∧ Inv s)
    (fun _ _ _ hs _ he => ⟨step_stopped hs.2.reads hs.1 he, hs.2.step he⟩)
    ⟨fun _ => rfl, .init ownerHash sandboxId session version now⟩).1

/-! ## The put -/

/-- No attribute that was written since the read, and that the request does not itself set, is back
at the value that was read. -/
def KeepsUpdates (e : Event) (read item item' : Item) : Prop :=
  ∀ a, a ∉ e.replaced → item.value a ≠ read.value a → item'.value a ≠ read.value a

def Leased (item : Item) (t : Instant) : Prop :=
  (∃ expires, item.leaseExpiresAt = some expires ∧ t < expires) ∨
    ∃ expires, item.initExpiresAt = some expires ∧ t < Instant.ofEpoch expires

/-- A start puts a rotated record no earlier than it took `now`. -/
def Event.startedBy (t : Instant) : Event → Prop
  | .acquireStart _ _ _ _ _ now => now ≤ t
  | .call .. | .read | .stop .. | .transition .. | .requestDeletion .. | .recordWakeSubject .. =>
    True

def Event.isStart : Event → Bool
  | .acquireStart .. => true
  | .call .. | .read | .stop .. | .transition .. | .requestDeletion .. | .recordWakeSubject .. =>
    false

/-- What the heartbeats and the wake subject left alone since the copy was read. -/
structure Undisturbed (e : Event) (record : SandboxRecord) (item : Item) (t : Instant) : Prop where
  lastServedAt : item.lastServedAt = record.wakeHints.lastServedAt
  initExpiresAt : item.initExpiresAt.map Instant.ofEpoch = record.initExpiresAt
  restoreProgress : item.restoreProgress = record.wakeHints.restoreProgress
  wakeSubject : item.wakeSubject = record.wakeHints.wakeSubject
  /-- For a start: the lease is the one that was read, or has run out. -/
  lease : Event.isStart e = true → item.leaseExpiresAt = record.leaseExpiresAt ∨
    ∀ expires, item.leaseExpiresAt = some expires → ¬ t < expires

theorem Instant.ofEpoch_injective : Function.Injective Instant.ofEpoch := by
  intro m n h
  simp only [Instant.ofEpoch, Instant.mk.injEq] at h
  omega

theorem record_item_value (item : Item) {a : Attribute} (ha : a ∈ Attribute.unversioned) :
    item.record.item.value a = item.value a := by
  rw [Item.record_item]
  cases a <;> first | rfl | simp [Attribute.unversioned] at ha

theorem decision_leases {leaseOwner rotated : SessionId} {ttl : Nat} {confirmedInactive : Bool}
    {now : Instant}
    (hd : (Event.acquireStart record leaseOwner ttl confirmedInactive rotated now).decision =
    some (s₀.item.record, updated)) :
    (∀ expires, s₀.item.leaseExpiresAt = some expires → ¬ now < expires) ∧
      ∀ expires, s₀.item.initExpiresAt = some expires → ¬ now < Instant.ofEpoch expires := by
  simp only [Event.decision] at hd
  split at hd
  · next u hu =>
    obtain ⟨rfl, -⟩ := Prod.mk.inj (Option.some.inj hd)
    unfold acquireStart at hu
    simp only at hu
    split at hu
    · simp at hu
    · next hlease =>
      split at hu
      · simp at hu
      · next hinit =>
        refine ⟨fun expires h hlt => hlease ?_, fun expires h hlt => hinit ?_⟩
        · simp [Item.record, h, hlt]
        · exact s₀.item.initLeaseActive_iff.2 ⟨expires, h, hlt⟩
  · simp at hd
  · simp at hd

/-- A put is applied on a copy read at `s₀`. Every update made in between survives it and no live
lease is rotated, if and only if the heartbeats and the wake subject have left alone what the put
carries over from its copy, and a start finds the lease it read, or one that has run out. -/
theorem put_keeps_updates_iff (hr : Reachable s₀) (hread : s₀.step .read = some s₁)
    (hrun : Machine.Reaches System.step Machine.Any s₁ s)
    (hd : e.decision = some (s₀.item.record, updated))
    (hv : s.item.stateVersion = s₀.item.stateVersion) (he : s.step e = some s')
      (ht : Event.startedBy t e) :
    (KeepsUpdates e s₀.item s.item s'.item ∧ (Event.isStart e = true → ¬ Leased s.item t)) ↔
      Undisturbed e s₀.item.record s.item t := by
  have hsince : Since s₀.item s.item :=
    Since.run ((Machine.Reaches.single (C := Machine.Any) trivial hread).trans hrun)
  have hitem : s'.item = updated.item := step_put hd hv he
  have hcarried : ∀ a ∈ Attribute.unversioned, a ∉ e.replaced →
      s'.item.value a = s₀.item.value a := by
    intro a ha hn
    rw [hitem, decision_value hd hn, record_item_value _ ha]
  constructor
  · rintro ⟨hkeeps, hlease⟩
    have hsame : ∀ a ∈ Attribute.unversioned, a ∉ e.replaced →
        s.item.value a = s₀.item.value a := by
      intro a ha hn
      by_contra hne
      exact hkeeps a hn hne (hcarried a ha hn)
    have hfour : ∀ a ∈ [Attribute.lastServedAt, .initExpiresAt, .restoreProgress, .wakeSubject],
        s.item.value a = s₀.item.value a := by
      intro a ha
      refine hsame a (by revert a; decide) ?_
      cases e <;> revert a <;> simp [Event.replaced]
    refine ⟨?_, ?_, ?_, ?_, fun hs => .inr fun expires hex hlt =>
      hlease hs (.inl ⟨expires, hex, hlt⟩)⟩
    · exact Option.map_injective (fun _ _ => AttributeValue.time.inj)
        (hfour .lastServedAt (by simp))
    · exact congrArg (Option.map Instant.ofEpoch)
        (Option.map_injective (fun _ _ => AttributeValue.number.inj)
          (hfour .initExpiresAt (by simp)))
    · exact Option.map_injective (fun _ _ => AttributeValue.text.inj)
        (hfour .restoreProgress (by simp))
    · exact Option.map_injective (fun _ _ => AttributeValue.text.inj) (hfour .wakeSubject (by simp))
  · intro hu
    have hinit : s.item.initExpiresAt = s₀.item.initExpiresAt :=
      Option.map_injective Instant.ofEpoch_injective hu.initExpiresAt
    refine ⟨fun a hn hne => ?_, fun hs hleased => ?_⟩
    · exfalso
      apply hne
      by_cases ha : a ∈ Attribute.unversioned
      · simp only [Attribute.unversioned, List.mem_cons, List.not_mem_nil, or_false] at ha
        rcases ha with rfl | rfl | rfl | rfl | rfl | rfl
        · -- only a deletion carries the lease over, and a stopped record takes no heartbeat
          cases e with
          | call | read | stop | recordWakeSubject => simp [Event.decision] at hd
          | acquireStart | transition => simp [Event.replaced] at hn
          | requestDeletion record now =>
            obtain ⟨u, hdel, heq⟩ := Option.map_eq_some_iff.1 hd
            obtain ⟨rfl, -⟩ := Prod.mk.inj heq
            have hunowned := hr.stopped_unowned (requestDeletion_eq_some hdel).1
            exact congrArg (Option.map AttributeValue.time) (hsince.lease hv hunowned)
        · cases e with
          | call | read | stop | recordWakeSubject => simp [Event.decision] at hd
          | acquireStart | transition | requestDeletion => simp [Event.replaced] at hn
        · exact congrArg (Option.map AttributeValue.time) hu.lastServedAt
        · exact congrArg (Option.map AttributeValue.number) hinit
        · exact congrArg (Option.map AttributeValue.text) hu.restoreProgress
        · exact congrArg (Option.map AttributeValue.text) hu.wakeSubject
      · exact Item.value_eq (hsince.versioned hv) ha
    · cases e with
      | call | read | stop | transition | requestDeletion | recordWakeSubject =>
        simp [Event.isStart] at hs
      | acquireStart record leaseOwner ttl confirmedInactive rotated now =>
        have ht : now ≤ t := ht
        obtain ⟨hstart, hinitrun⟩ := decision_leases hd
        rcases hleased with ⟨expires, hex, hlt⟩ | ⟨expires, hex, hlt⟩
        · rcases hu.lease rfl with hlease | hlease
          · exact hstart expires (hlease.symm.trans hex) (Nat.lt_of_le_of_lt ht hlt)
          · exact hlease expires hex hlt
        · rw [hinit] at hex
          exact hinitrun expires hex (Nat.lt_of_le_of_lt ht hlt)

/-! ## A start that missed a heartbeat -/

/-- Instance 10 is marked ready at second 3; its lease runs to second 93. -/
def readiedSystem : System :=
  (claimedSystem.step (.call ⟨⟨1⟩, .markReady ⟨10⟩ "success"⟩ "sub" ⟨3000000⟩)).get (by decide)

theorem step_readiedSystem :
    claimedSystem.step (.call ⟨⟨1⟩, .markReady ⟨10⟩ "success"⟩ "sub" ⟨3000000⟩) =
      some readiedSystem :=
  (Option.some_get _).symm

theorem readiedSystem_reachable : Reachable readiedSystem :=
  claimedSystem_reachable.step step_readiedSystem

def readiedRead : System := (readiedSystem.step .read).get (by decide)

/-- At second 92 the lease is renewed to second 182. -/
def renewedSystem : System :=
  (readiedRead.step (.call ⟨⟨1⟩, .heartbeatLease (some ⟨10⟩) (some 91)⟩ "sub" ⟨92000000⟩)).get
    (by decide)

def lateStart : Event := .acquireStart readiedSystem.item.record ⟨1⟩ 90 false ⟨2⟩ ⟨95000000⟩

/-- Without the heartbeat the start rotates a record nobody holds. -/
theorem put_keeps_updates_quiet :
    KeepsUpdates lateStart readiedSystem.item readiedRead.item
      ((readiedRead.step lateStart).get (by decide +kernel)).item ∧
      (Event.isStart lateStart = true → ¬ Leased readiedRead.item ⟨95000000⟩) :=
  (put_keeps_updates_iff (e := lateStart) readiedSystem_reachable (Option.some_get _).symm .refl
    (Option.some_get (by decide +kernel)).symm (by decide) (Option.some_get _).symm
      (Nat.le_refl _)).2
    ⟨rfl, rfl, rfl, rfl, fun _ => .inl rfl⟩

/-- With it, the start takes the sandbox from a live holder and brings `lastServedAt` back to second
3. -/
theorem renewed_lease_rotated :
    ¬ ∀ (s₀ s₁ s s' : System) (e : Event) (updated : SandboxRecord) (t : Instant),
    Reachable s₀ → s₀.step .read = some s₁ → Machine.Reaches System.step Machine.Any s₁ s →
    e.decision = some (s₀.item.record, updated) → s.item.stateVersion = s₀.item.stateVersion →
    s.step e = some s' → Event.startedBy t e →
    KeepsUpdates e s₀.item s.item s'.item ∧ (Event.isStart e = true → ¬ Leased s.item t) := by
  intro h
  have hkeeps :=
    (h readiedSystem readiedRead renewedSystem _ lateStart _ ⟨95000000⟩ readiedSystem_reachable
    (Option.some_get _).symm (.single trivial (Option.some_get _).symm)
    (Option.some_get (by decide +kernel)).symm (by decide)
      (Option.some_get (by decide +kernel)).symm
    (Nat.le_refl _)).2 rfl
  exact hkeeps (.inl ⟨⟨182000000⟩, by decide, by decide⟩)

end System

end KiroCrew
