import KiroCrew.Steps

/-!
# What one event can do to the record

`Core` is the part of the record that changes only together with `stateVersion`. Every broker write
either moves the version or keeps the core (`BrokerCall.write_versioned`), so a control-plane copy
that still carries the current version agrees with the record on the core (`Inv.reads`), and a
full-record put based on it cannot revert the core. `step_change` lists, from this, all that one
event can do to the record; every later invariant is derived from it.
-/

namespace KiroCrew

/-- The attributes that change only together with `stateVersion`. -/
structure Core where
  state : SandboxState
  runtimeSessionId : SessionId
  leaseOwner : Option SessionId
  holderInstance : Option InstanceId
  lastCheckpointGeneration : Option Nat
  deletionState : Option String
deriving DecidableEq, Repr

def Item.core (item : Item) : Core :=
  ⟨item.state, item.runtimeSessionId, item.leaseOwner, item.holderInstance,
    item.lastCheckpointGeneration,
    item.deletionState⟩

def SandboxRecord.core (record : SandboxRecord) : Core :=
  ⟨record.state, record.runtimeSessionId, record.leaseOwner, record.wakeHints.holderInstance,
    record.lastCheckpointGeneration, record.deletionState⟩

@[simp] theorem Item.record_core (item : Item) : item.record.core = item.core := rfl
@[simp] theorem SandboxRecord.item_core (record : SandboxRecord) : record.item.core = record.core :=
  rfl
@[simp] theorem SandboxRecord.item_initOwner (record : SandboxRecord) :
    record.item.initOwner = none := rfl
@[simp] theorem SandboxRecord.item_stateVersion (record : SandboxRecord) :
    record.item.stateVersion = record.stateVersion := rfl

variable {item item' : Item} {session : SessionId} {now : Instant}

/-! ## The writes of the broker -/

theorem acquireInit_eq_some {owner : InstanceId}
    (h : acquireInit item session owner now = some item') :
    acquireInitAllowed item session owner now ∧ item'.core = { item.core with
      state := .restoring, holderInstance := some owner } ∧
      item'.initOwner = some owner ∧ item'.stateVersion = item.stateVersion + 1 := by
  unfold acquireInit at h
  split at h
  · next ha =>
    obtain rfl := Option.some.inj h
    exact ⟨ha, rfl, rfl, rfl⟩
  · simp at h

theorem heartbeatInit_eq_some {owner : InstanceId} {progress : Option RestoreProgress}
    (h : heartbeatInit item owner progress now = some item') :
    item.initOwner = some owner ∧ item'.core = item.core ∧ item'.initOwner = item.initOwner ∧
      item'.stateVersion = item.stateVersion := by
  unfold heartbeatInit at h
  split at h
  · next ha =>
    obtain rfl := Option.some.inj h
    exact ⟨ha, rfl, rfl, rfl⟩
  · simp at h

theorem heartbeatLease_eq_some {holder : Option InstanceId} {served : Option Nat}
    (h : heartbeatLease item session holder served now = some item') :
    heartbeatLeaseAllowed item session holder ∧ item'.core = item.core ∧
      item'.initOwner = item.initOwner ∧ item'.stateVersion = item.stateVersion := by
  unfold heartbeatLease at h
  split at h
  · simp at h
  split at h
  · next ha =>
    obtain rfl := Option.some.inj h
    exact ⟨ha, rfl, rfl, rfl⟩
  · simp at h

theorem healReady_eq_some (h : healReady item session now = some item') :
    item.runtimeSessionId = session ∧ item.state = .starting ∧
      item'.core = { item.core with state := .ready } ∧ item'.initOwner = item.initOwner ∧
      item'.stateVersion = item.stateVersion + 1 := by
  unfold healReady at h
  split at h
  · next ha =>
    obtain rfl := Option.some.inj h
    exact ⟨ha.1, ha.2, rfl, rfl, rfl⟩
  · simp at h

theorem markReady_eq_some {owner : InstanceId} {outcome : String}
    (h : markReady item session owner outcome now = some item') :
    item.runtimeSessionId = session ∧ item.initOwner = some owner ∧
      item'.core = { item.core with
        state := .ready, leaseOwner := some item.runtimeSessionId, holderInstance := some owner } ∧
      item'.initOwner = none ∧ item'.stateVersion = item.stateVersion + 1 := by
  unfold markReady at h
  split at h
  · next ha =>
    obtain rfl := Option.some.inj h
    exact ⟨ha.1, ha.2, by simp [Item.core, ha.1], rfl, rfl⟩
  · simp at h

theorem markError_eq_some {owner : Option InstanceId} {d : Diagnostics}
    (h : markError item session owner d now = some item') :
    markErrorAllowed item session owner ∧ item'.core = { item.core with state := .error } ∧
      item'.initOwner = none ∧ item'.stateVersion = item.stateVersion + 1 := by
  unfold markError at h
  split at h
  · next ha =>
    obtain rfl := Option.some.inj h
    exact ⟨ha, rfl, rfl, rfl⟩
  · simp at h

/-- An ownerless `markError` finds the record initializing, an owned one finds the owner. -/
theorem markErrorAllowed.ne_stopped {owner : Option InstanceId}
    (h : markErrorAllowed item session owner)
    (hs : item.state = .stopped) : ∃ o, owner = some o ∧ item.initOwner = some o := by
  obtain ⟨-, h⟩ := h
  cases owner with
  | none => rcases h with h | h <;> simp [hs] at h
  | some o => exact ⟨o, rfl, h⟩

theorem receiptAllowed.live {r : ReceiptRequest} (h : receiptAllowed item session r) :
    item.state = .ready ∨ item.state = .busy ∨ item.state = .checkpointing ∨
    item.state = .stopping := by
  have hs := h.2.2.1
  unfold ReceiptRequest.stateOk at hs
  split at hs <;> rcases hs with h | h | h <;> simp [h]

/-- What an applied broker call does, by operation. -/
inductive BrokerCall.Effect (item item' : Item) (session : SessionId) : BrokerOp → Prop
  | acquireInit {owner : InstanceId} {now : Instant}
      (allowed : acquireInitAllowed item session owner now)
      (core : item'.core = { item.core with state := .restoring, holderInstance := some owner })
      (initOwner : item'.initOwner = some owner)
        (version : item'.stateVersion = item.stateVersion + 1) :
      Effect item item' session (.acquireInit owner)
  | heartbeatInit {owner : InstanceId} {progress : Option RestoreProgress}
      (allowed : item.initOwner = some owner) (core : item'.core = item.core)
      (initOwner : item'.initOwner = item.initOwner)
        (version : item'.stateVersion = item.stateVersion) :
      Effect item item' session (.heartbeatInit owner progress)
  | heartbeatLease {holder : Option InstanceId} {served : Option Nat}
      (allowed : heartbeatLeaseAllowed item session holder) (core : item'.core = item.core)
      (initOwner : item'.initOwner = item.initOwner)
        (version : item'.stateVersion = item.stateVersion) :
      Effect item item' session (.heartbeatLease holder served)
  | healReady (hsession : item.runtimeSessionId = session) (state : item.state = .starting)
      (core : item'.core = { item.core with state := .ready })
      (initOwner : item'.initOwner = item.initOwner)
        (version : item'.stateVersion = item.stateVersion + 1) :
      Effect item item' session .healReady
  | markReady {owner : InstanceId} {outcome : String} (hsession : item.runtimeSessionId = session)
      (owns : item.initOwner = some owner)
      (core : item'.core = { item.core with
        state := .ready, leaseOwner := some item.runtimeSessionId, holderInstance := some owner })
      (initOwner : item'.initOwner = none) (version : item'.stateVersion = item.stateVersion + 1) :
      Effect item item' session (.markReady owner outcome)
  | markError {owner : Option InstanceId} {d : Diagnostics}
      (allowed : markErrorAllowed item session owner)
      (core : item'.core = { item.core with state := .error }) (initOwner : item'.initOwner = none)
      (version : item'.stateVersion = item.stateVersion + 1) :
        Effect item item' session (.markError owner d)
  | checkpointReceipt {r : ReceiptRequest} {commit : Option CommitRecord} {now : Instant}
      (valid : r.valid commit now = true) (allowed : receiptAllowed item session r)
      (update : item' = r.update item now) : Effect item item' session (.checkpointReceipt r commit)

theorem BrokerCall.write_effect {c : BrokerCall} (h : c.write item now = some item') :
    BrokerCall.Effect item item' c.session c.op := by
  obtain ⟨session, op⟩ := c
  cases op with
  | acquireInit owner =>
    obtain ⟨h1, h2, h3, h4⟩ := acquireInit_eq_some h
    exact .acquireInit h1 h2 h3 h4
  | heartbeatInit owner progress =>
    obtain ⟨h1, h2, h3, h4⟩ := heartbeatInit_eq_some h
    exact .heartbeatInit h1 h2 h3 h4
  | heartbeatLease holder served =>
    obtain ⟨h1, h2, h3, h4⟩ := heartbeatLease_eq_some h
    exact .heartbeatLease h1 h2 h3 h4
  | healReady =>
    obtain ⟨h1, h2, h3, h4, h5⟩ := healReady_eq_some h
    exact .healReady h1 h2 h3 h4 h5
  | markReady owner outcome =>
    obtain ⟨h1, h2, h3, h4, h5⟩ := markReady_eq_some h
    exact .markReady h1 h2 h3 h4 h5
  | markError owner d =>
    obtain ⟨h1, h2, h3, h4⟩ := markError_eq_some h
    exact .markError h1 h2 h3 h4
  | checkpointReceipt r commit =>
    obtain ⟨⟨i, c⟩, hc, rfl⟩ := Option.map_eq_some_iff.1 h
    obtain ⟨h1, h2, h3, -⟩ := checkpointReceipt_eq_some hc
    exact .checkpointReceipt h1 h2 h3

/-- A broker write moves the version by one or leaves version and core alone. -/
theorem BrokerCall.write_versioned {c : BrokerCall} (h : c.write item now = some item') :
    item'.stateVersion = item.stateVersion + 1 ∨
      item'.stateVersion = item.stateVersion ∧ item'.core = item.core := by
  obtain ⟨session, op⟩ := c
  have he : BrokerCall.Effect item item' session op := BrokerCall.write_effect h
  cases he with
  | acquireInit _ _ _ hv | healReady _ _ _ _ hv | markReady _ _ _ _ hv | markError _ _ _ hv =>
    exact .inl hv
  | heartbeatInit _ hc _ hv | heartbeatLease _ hc _ hv => exact .inr ⟨hv, hc⟩
  | checkpointReceipt _ _ hu => exact .inl (by rw [hu]; rfl)

namespace System

/-! ## The record under one event -/

/-- A copy with the record's version agrees with the record's core. -/
def Agrees (record : SandboxRecord) (item : Item) : Prop :=
  record.stateVersion ≤ item.stateVersion ∧
    (record.stateVersion = item.stateVersion → record.core = item.core)

/-- What one event does to the record. -/
inductive Change (s : System) (e : Event) (s' : System) : Prop
  | same (item : s'.item.core = s.item.core) (initOwner : s'.item.initOwner = s.item.initOwner)
      (version : s'.item.stateVersion = s.item.stateVersion)
        (sessions : ∀ i ∈ s.sessions, i ∈ s'.sessions)
      (claimed : s'.claimed = s.claimed)
  | call {c : BrokerCall} {subjectHash : String} {now : Instant}
      (event : e = .call c subjectHash now)
      (write : c.write s.item now = some s'.item)
      (sessions : s'.sessions = s.sessions)
      (claimed : ∀ A, s'.claimed A = if c.op = .acquireInit A then some c.session else s.claimed A)
  | rotate {rotated : SessionId} (fresh : rotated ∉ s.sessions)
      (core : s'.item.core = { s.item.core with
        state := .starting, runtimeSessionId := rotated, leaseOwner := some rotated })
      (initOwner : s'.item.initOwner = none)
        (version : s'.item.stateVersion = s.item.stateVersion + 1)
      (sessions : s'.sessions = rotated :: s.sessions) (claimed : s'.claimed = s.claimed)
  | stopped (state : s.item.state = .stopping)
      (core : s'.item.core = { s.item.core with state := .stopped, leaseOwner := none })
      (initOwner : s'.item.initOwner = none)
        (version : s'.item.stateVersion = s.item.stateVersion + 1)
      (sessions : s'.sessions = s.sessions) (claimed : s'.claimed = s.claimed)
  | deletion (state : s.item.state = .stopped)
      (core : s'.item.core = { s.item.core with deletionState := some "REQUESTED" })
      (initOwner : s'.item.initOwner = none)
        (version : s'.item.stateVersion = s.item.stateVersion + 1)
      (sessions : s'.sessions = s.sessions) (claimed : s'.claimed = s.claimed)

variable {s s' : System} {e : Event}

theorem Change.refl (s : System) (e : Event) : Change s e s := .same rfl rfl rfl (fun _ h => h) rfl

/-- A put either fails or replaces the record by a decision on a copy that agrees with it. -/
theorem put_cases (record updated : SandboxRecord) (h : Agrees record s.item) :
    s.put record updated = s ∨
      record.stateVersion = s.item.stateVersion ∧ record.core = s.item.core ∧
        s.put record updated = { s with item := updated.item } := by
  unfold put
  split
  · exact .inl rfl
  · next item hp =>
    obtain ⟨hv, rfl⟩ := putUpdated_eq_some hp
    exact .inr ⟨hv.symm, h.2 hv.symm, rfl⟩

theorem applied_claimed (c : BrokerCall) (subjectHash : String) (now : Instant) (item : Item)
    (A : InstanceId) :
    (s.applied c subjectHash now item).claimed A =
      if c.op = .acquireInit A then some c.session else s.claimed A := by
  unfold applied
  split <;> simp_all [Function.update_apply, eq_comm]

/-- Everything one event can do to the record, given that the control plane's copies agree with
it. -/
theorem step_change (hreads : ∀ r ∈ s.reads, Agrees r s.item) (h : s.step e = some s') :
    Change s e s' := by
  cases e with
  | call c subjectHash now =>
    simp only [step] at h
    split at h
    · obtain rfl := Option.some.inj h
      exact .refl s _
    · next item hw =>
      obtain rfl := Option.some.inj h
      exact .call rfl (by rw [applied_item]; exact hw) (applied_sessions ..)
        (applied_claimed c subjectHash now item)
  | read =>
    obtain rfl := Option.some.inj h
    exact .same rfl rfl rfl (fun _ h => h) rfl
  | acquireStart record leaseOwner ttl confirmedInactive rotated now =>
    simp only [step] at h
    split at h
    · next hg =>
      split at h
      · next updated hd =>
        obtain rfl := Option.some.inj h
        obtain rfl := acquireStart_rotate hd
        rcases put_cases record _ (hreads record hg.1) with hp | ⟨hv, hc, hp⟩
        · rw [hp]; exact .same rfl rfl rfl (fun _ h => List.mem_cons_of_mem _ h) rfl
        · rw [hp]
          refine .rotate hg.2 ?_ rfl (by simp [hv]) rfl rfl
          rw [SandboxRecord.item_core, ← hc]; rfl
      · obtain rfl := Option.some.inj h
        exact .refl s _
    · simp at h
  | stop record receipt subjectHash now =>
    simp only [step] at h
    split at h
    · obtain rfl := Option.some.inj h
      exact .same rfl rfl rfl (fun _ h => h) rfl
    · simp at h
  | transition pending record now =>
    simp only [step] at h
    split at h
    · next hg =>
      split at h
      · obtain rfl := Option.some.inj h
        exact .refl s _
      · next updated ht =>
        obtain rfl := Option.some.inj h
        obtain ⟨-, -, hs, rfl⟩ := transition_eq_some ht
        rcases put_cases record _ (hreads record hg.2) with hp | ⟨hv, hc, hp⟩
        · rw [hp]; exact .refl s _
        · rw [hp]
          refine .stopped (by rw [← hs]; exact (congrArg Core.state hc).symm) ?_ rfl
            (by simp [hv]) rfl rfl
          rw [SandboxRecord.item_core, ← hc]; rfl
    · simp at h
  | requestDeletion record now =>
    simp only [step] at h
    split at h
    · next hg =>
      split at h
      · obtain rfl := Option.some.inj h
        exact .refl s _
      · next updated hd =>
        obtain rfl := Option.some.inj h
        obtain ⟨hs, rfl⟩ := requestDeletion_eq_some hd
        rcases put_cases record _ (hreads record hg) with hp | ⟨hv, hc, hp⟩
        · rw [hp]; exact .refl s _
        · rw [hp]
          refine .deletion (by rw [← hs]; exact (congrArg Core.state hc).symm) ?_ rfl
            (by simp [hv]) rfl rfl
          rw [SandboxRecord.item_core, ← hc]; rfl
    · simp at h
  | recordWakeSubject sealed =>
    obtain rfl := Option.some.inj h
    exact .same rfl rfl rfl (fun _ h => h) rfl

/-- No event moves the version back, and one that keeps it keeps the core. -/
theorem Change.versioned (h : Change s e s') :
    s.item.stateVersion < s'.item.stateVersion ∨
      s'.item.stateVersion = s.item.stateVersion ∧ s'.item.core = s.item.core := by
  cases h with
  | same hc _ hv => exact .inr ⟨hv, hc⟩
  | call _ hw =>
    rcases BrokerCall.write_versioned hw with hv | h
    · exact .inl (by omega)
    · exact .inr h
  | rotate _ _ _ hv | stopped _ _ _ hv | deletion _ _ _ hv => exact .inl (by omega)

theorem Change.sessions_mono (h : Change s e s') : ∀ i ∈ s.sessions, i ∈ s'.sessions := by
  intro i hi
  cases h with
  | same _ _ _ hs => exact hs i hi
  | call _ _ hs | stopped _ _ _ _ hs | deletion _ _ _ _ hs => rw [hs]; exact hi
  | rotate _ _ _ _ hs => rw [hs]; exact List.mem_cons_of_mem _ hi

theorem Agrees.change {r : SandboxRecord} (h : Agrees r s.item) (hc : Change s e s') :
    Agrees r s'.item := by
  rcases hc.versioned with hv | ⟨hv, hcore⟩
  · exact ⟨by have := h.1; omega, fun heq => by have := h.1; omega⟩
  · exact ⟨by rw [hv]; exact h.1, fun heq => by rw [hcore]; exact h.2 (heq.trans hv)⟩

/-! ## The invariant of all runs -/

theorem core_eq {c : Core} (h : item.core = c) :
    item.state = c.state ∧ item.runtimeSessionId = c.runtimeSessionId ∧
    item.leaseOwner = c.leaseOwner ∧
      item.holderInstance = c.holderInstance := by
  subst h; exact ⟨rfl, rfl, rfl, rfl⟩

/-- What holds of every record. -/
structure ItemInv (item : Item) : Prop where
  /-- The initialization owner is the holder, and owns it while the record is `RESTORING`. -/
  owner : ∀ A, item.initOwner = some A → item.holderInstance = some A ∧ item.state = .restoring
  /-- The lease belongs to the record's own session. -/
  lease : ∀ S, item.leaseOwner = some S → S = item.runtimeSessionId

theorem ItemInv.not_stopped {A : InstanceId} (h : ItemInv item) (hA : item.initOwner = some A) :
    item.state ≠ .stopped := by
  rw [(h.owner A hA).2]
  simp

theorem ItemInv.write {c : BrokerCall} (h : ItemInv item) (hw : c.write item now = some item') :
    ItemInv item' := by
  obtain ⟨session, op⟩ := c
  have he : BrokerCall.Effect item item' session op := BrokerCall.write_effect hw
  cases he with
  | acquireInit _ hc hi _ =>
    obtain ⟨hst, hse, hl, hh⟩ := core_eq hc
    refine ⟨fun A hA => ?_, fun S hS => ?_⟩
    · rw [hi] at hA; rw [hh, hst]; exact ⟨hA, rfl⟩
    · rw [hl] at hS; rw [hse]; exact h.lease S hS
  | heartbeatInit _ hc hi _ | heartbeatLease _ hc hi _ =>
    obtain ⟨hst, hse, hl, hh⟩ := core_eq hc
    refine ⟨fun A hA => ?_, fun S hS => ?_⟩
    · rw [hi] at hA; rw [hh, hst]; exact h.owner A hA
    · rw [hl] at hS; rw [hse]; exact h.lease S hS
  | healReady _ hstarting hc hi _ =>
    obtain ⟨hst, hse, hl, hh⟩ := core_eq hc
    refine ⟨fun A hA => ?_, fun S hS => ?_⟩
    · rw [hi] at hA
      have := (h.owner A hA).2
      rw [hstarting] at this; simp at this
    · rw [hl] at hS; rw [hse]; exact h.lease S hS
  | markReady _ _ hc hi _ =>
    obtain ⟨-, hse, hl, -⟩ := core_eq hc
    refine ⟨fun A hA => by simp [hi] at hA, fun S hS => ?_⟩
    rw [hl] at hS; rw [hse]; exact (Option.some.inj hS).symm
  | markError _ hc hi _ =>
    obtain ⟨-, hse, hl, -⟩ := core_eq hc
    refine ⟨fun A hA => by simp [hi] at hA, fun S hS => ?_⟩
    rw [hl] at hS; rw [hse]; exact h.lease S hS
  | checkpointReceipt _ hallowed hu =>
    subst hu
    refine ⟨fun A hA => ?_, fun S hS => h.lease S hS⟩
    -- a record under initialization takes no receipt
    have hst := (h.owner A hA).2
    rcases hallowed.live with h | h | h | h <;> simp [hst] at h

theorem write_runtimeSessionId {c : BrokerCall} (hw : c.write item now = some item') :
    item'.runtimeSessionId = item.runtimeSessionId := by
  obtain ⟨session, op⟩ := c
  have he : BrokerCall.Effect item item' session op := BrokerCall.write_effect hw
  cases he with
  | acquireInit _ hc | heartbeatInit _ hc | heartbeatLease _ hc | healReady _ _ hc
  | markReady _ _ hc
  | markError _ hc => exact (core_eq hc).2.1
  | checkpointReceipt _ _ hu => rw [hu]; rfl

/-- No broker write puts the record back to `STARTING`, and a claim takes it out of it. -/
theorem write_starting {c : BrokerCall} (hw : c.write item now = some item')
    (hs : item'.state = .starting) :
    item.state = .starting ∧ ∀ A, c.op ≠ .acquireInit A := by
  obtain ⟨session, op⟩ := c
  have he : BrokerCall.Effect item item' session op := BrokerCall.write_effect hw
  cases he with
  | acquireInit _ hc | healReady _ _ hc | markReady _ _ hc | markError _ hc =>
    have := (core_eq hc).1; simp [hs] at this
  | heartbeatInit _ hc | heartbeatLease _ hc =>
    exact ⟨by rw [← hs]; exact (core_eq hc).1.symm, fun A => by simp⟩
  | checkpointReceipt _ _ hu =>
    refine ⟨?_, fun A => by simp⟩
    subst hu
    simp only [ReceiptRequest.update] at hs
    split at hs
    · simp at hs
    · exact hs

/-- What holds of every reachable system. -/
structure Inv (s : System) : Prop where
  reads : ∀ r ∈ s.reads, Agrees r s.item
  session : s.item.runtimeSessionId ∈ s.sessions
  claimed : ∀ A S, s.claimed A = some S → S ∈ s.sessions
  /-- A session leaves `STARTING` for good when an instance claims it. -/
  started : ∀ A, s.claimed A = some s.item.runtimeSessionId → s.item.state ≠ .starting
  item : ItemInv s.item

theorem Inv.init (ownerHash sandboxId : String) (session : SessionId) (version : String)
    (now : Instant) :
    Inv (System.init ownerHash sandboxId session version now) where
  reads := by simp [System.init]
  session := by simp [System.init, newRecord, SandboxRecord.item]
  claimed := by simp [System.init]
  started := by simp [System.init]
  item :=
    ⟨by simp [System.init, newRecord, SandboxRecord.item], by
        simp [System.init, newRecord, SandboxRecord.item]⟩

theorem Inv.step (h : Inv s) (he : s.step e = some s') : Inv s' := by
  have hchange := step_change h.reads he
  have hreads : ∀ r ∈ s'.reads, Agrees r s'.item := fun r hr =>
    (step_reads he r hr).elim (fun hr => (h.reads r hr).change hchange)
      fun hr => hr ▸ ⟨Nat.le_refl _, fun _ => rfl⟩
  cases hchange with
  | same hc hi _ hs hcl =>
    obtain ⟨hst, hse, hl, hh⟩ := core_eq hc
    exact ⟨hreads, by rw [hse]; exact hs _ h.session, fun A S hA =>
      hs _ (h.claimed A S (by rw [← hcl]; exact hA)),
      fun A hA => by rw [hst]; exact h.started A (by rw [hcl, hse] at hA; exact hA),
      ⟨fun A hA => by rw [hh, hst]; exact h.item.owner A (by rw [← hi]; exact hA),
        fun S hS => by rw [hse]; exact h.item.lease S (by rw [← hS]; exact hl.symm)⟩⟩
  | @call c _ now _ hw hs hcl =>
    have hse := write_runtimeSessionId hw
    refine ⟨hreads, by rw [hse, hs]; exact h.session, fun A S hA => ?_, fun A hA hst =>
      ?_, h.item.write hw⟩
    · rw [hcl] at hA
      split at hA
      · next hop =>
        -- an applied claim names the record's session
        obtain ⟨session, op⟩ := c
        subst hop
        have := (acquireInit_eq_some hw).1.1
        rw [hs, ← Option.some.inj hA, ← this]; exact h.session
      · rw [hs]; exact h.claimed A S hA
    · obtain ⟨hst', hop⟩ := write_starting hw hst
      rw [hcl, if_neg (hop A), hse] at hA
      exact h.started A hA hst'
  | rotate hf hc hi _ hs hcl =>
    obtain ⟨-, hse, hl, -⟩ := core_eq hc
    refine ⟨hreads, by rw [hse, hs]; exact List.mem_cons_self .., fun A S hA => ?_, fun A hA => ?_,
      ⟨fun A hA => by simp [hi] at hA, fun S hS => ?_⟩⟩
    · rw [hs]; exact List.mem_cons_of_mem _ (h.claimed A S (by rw [← hcl]; exact hA))
    · rw [hse, hcl] at hA; exact absurd (h.claimed A _ hA) hf
    · rw [hl] at hS; rw [hse]; exact (Option.some.inj hS).symm
  | stopped _ hc hi _ hs hcl =>
    obtain ⟨hst, hse, hl, -⟩ := core_eq hc
    refine ⟨hreads, by rw [hse, hs]; exact h.session, fun A S hA => by
        rw [hs]; exact h.claimed A S (by rw [← hcl]; exact hA),
      fun A _ => by rw [hst]; simp, ⟨fun A hA => by simp [hi] at hA, fun S hS => by
          simp [hl] at hS⟩⟩
  | deletion hstopped hc hi _ hs hcl =>
    obtain ⟨hst, hse, hl, -⟩ := core_eq hc
    refine ⟨hreads, by rw [hse, hs]; exact h.session, fun A S hA => by
        rw [hs]; exact h.claimed A S (by rw [← hcl]; exact hA),
      fun A _ => by rw [hst]; show s.item.state ≠ _; rw [hstopped]; decide,
      ⟨fun A hA => by simp [hi] at hA, fun S hS => ?_⟩⟩
    rw [hse]; exact h.item.lease S (by rw [← hS]; exact hl.symm)

theorem step_pointer (hreads : ∀ r ∈ s.reads, Agrees r s.item) (h : s.step e = some s') :
    s'.item.lastCheckpointGeneration = s.item.lastCheckpointGeneration ∨
      ∃ c subjectHash now r commit, e = .call c subjectHash now ∧
      c.op = .checkpointReceipt r commit ∧
        c.write s.item now = some s'.item := by
  cases step_change hreads h with
  | same hc | rotate _ hc | stopped _ hc | deletion _ hc =>
    exact .inl (congrArg Core.lastCheckpointGeneration hc)
  | @call c subjectHash now hev hw =>
    obtain ⟨session, op⟩ := c
    have he : BrokerCall.Effect s.item s'.item session op := BrokerCall.write_effect hw
    cases he with
    | acquireInit _ hc | heartbeatInit _ hc | heartbeatLease _ hc | healReady _ _ hc
    | markReady _ _ hc
    | markError _ hc => exact .inl (congrArg Core.lastCheckpointGeneration hc)
    | checkpointReceipt => exact .inr ⟨_, subjectHash, now, _, _, hev, rfl, hw⟩

theorem Reachable.inv (h : Reachable s) : Inv s := by
  obtain ⟨ownerHash, sandboxId, session, version, now, hr⟩ := h
  exact hr.invariant (fun _ _ _ hs _ he => hs.step he)
    (.init ownerHash sandboxId session version now)

theorem Reachable.trans {C : System → Event → Prop} (h : Reachable s)
    (hr : Machine.Reaches step C s s') :
    Reachable s' := by
  obtain ⟨ownerHash, sandboxId, session, version, now, h⟩ := h
  exact ⟨ownerHash, sandboxId, session, version, now, h.trans hr.any⟩

theorem Reachable.step (h : Reachable s) (he : s.step e = some s') : Reachable s' :=
  h.trans (C := Machine.Any) (.single trivial he)

end System

end KiroCrew
