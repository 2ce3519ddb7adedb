import KiroCrew.Pointer

/-!
# Starting again

The lease owner of a reachable record is absent or the record's own session (`ItemInv.lease`), and
that session is what the control plane passes as `lease_owner`. So a start never finds a foreign
owner, and when the leases and the start grace have run out it rotates the record, whatever state it
is in.
-/

namespace KiroCrew

/-- When both leases and the start grace are over and the lease owner is no stranger, a start
rotates. -/
theorem acquireStart_of_expired {record : SandboxRecord} {leaseOwner : SessionId} (ttl : Nat)
    (confirmedInactive : Bool) (rotated : SessionId) {now : Instant}
    (hlease : ∀ lease, record.leaseExpiresAt = some lease → ¬ now < lease)
    (hinit : record.initLeaseActive now = false) (hgrace : record.startInProgress now = false)
    (hown : ∀ owner, record.leaseOwner = some owner → owner = leaseOwner) :
    ∃ updated, acquireStart record leaseOwner ttl confirmedInactive rotated now =
        .rotate updated := by
  have hexpired : record.leaseExpiresAt.any (now < ·) = false := by
    cases h : record.leaseExpiresAt with
    | none => rfl
    | some lease => simpa using hlease lease h
  have hforeign : ¬ (record.leaseOwner ≠ none ∧ record.leaseOwner ≠ some leaseOwner ∧
    record.state ≠ .stopped ∧
      confirmedInactive = false) := by
    rintro ⟨hne, hother, -⟩
    obtain ⟨owner, ho⟩ := Option.ne_none_iff_exists'.1 hne
    exact hother (by rw [ho, hown owner ho])
  unfold acquireStart
  simp only [hexpired, hinit, hgrace, hforeign]
  exact ⟨_, rfl⟩

namespace System

variable {s : System} {rotated : SessionId} {now : Instant}

/-- A sandbox never locks itself: later than its lease, its initialization lease and five minutes
after its last update, a start under the session just read, with nothing written in between, puts a
starting record with a fresh session that owns the lease. -/
theorem start_rotates (hr : Reachable s) (ttl : Nat) (hfresh : rotated ∉ s.sessions)
    (hlease : ∀ lease ∈ s.item.leaseExpiresAt, lease < now)
    (hinit : ∀ expires ∈ s.item.initExpiresAt, Instant.ofEpoch expires < now)
    (hgrace : s.item.updatedAt.addSeconds startGrace < now) :
    ∃ s₁ s₂ updated, s.step .read = some s₁ ∧
      acquireStart s.item.record s.item.runtimeSessionId ttl false rotated now = .rotate updated ∧
      s₁.step (.acquireStart s.item.record s.item.runtimeSessionId ttl false rotated now) =
        some s₂ ∧
      s₂.item = updated.item ∧ updated.state = .starting ∧ updated.runtimeSessionId = rotated ∧
      updated.leaseOwner = some rotated ∧ rotated ≠ s.item.runtimeSessionId := by
  have hactive : s.item.record.initLeaseActive now = false := by
    rw [← Bool.not_eq_true, Item.initLeaseActive_iff]
    rintro ⟨expires, hexpires, hlt⟩
    exact Instant.not_lt.2 (Instant.le_of_lt (hinit expires hexpires)) hlt
  have hprogress : s.item.record.startInProgress now = false := by
    have hge := Instant.not_subSeconds_lt hgrace
    simp [SandboxRecord.startInProgress, Item.record, hge]
  obtain ⟨updated, hu⟩ := acquireStart_of_expired ttl false rotated
    (fun lease h => Instant.not_lt.2 (Instant.le_of_lt (hlease lease h))) hactive hprogress
      hr.inv.item.lease
  have hput : putUpdated s.item s.item.record updated = some updated.item := if_pos rfl
  obtain ⟨hst, hse, hown⟩ : updated.state = .starting ∧ updated.runtimeSessionId = rotated ∧
      updated.leaseOwner = some rotated := by
    rw [acquireStart_rotate hu]
    exact ⟨rfl, rfl, rfl⟩
  refine ⟨{ s with reads := s.item.record :: s.reads },
    { s with item := updated.item, reads := s.item.record :: s.reads,
             sessions := rotated :: s.sessions },
    updated, rfl, hu, ?_, rfl, hst, hse, hown, ?_⟩
  · simp [System.step, hu, hfresh, put, hput]
  · rintro rfl
    exact hfresh hr.inv.session

/-- The sandbox with one checkpoint, whose container is gone: its lease ran out at second 93. -/
theorem start_rotates_checkpointed : ∃ s₁ s₂ updated, checkpointedSystem.step .read = some s₁ ∧
    acquireStart checkpointedSystem.item.record checkpointedSystem.item.runtimeSessionId 90 false
    ⟨2⟩ ⟨400000000⟩ =
      .rotate updated ∧
    s₁.step (.acquireStart checkpointedSystem.item.record checkpointedSystem.item.runtimeSessionId
      90 false ⟨2⟩
      ⟨400000000⟩) = some s₂ ∧
    s₂.item = updated.item ∧ updated.state = .starting ∧ updated.runtimeSessionId = ⟨2⟩ ∧
    updated.leaseOwner = some ⟨2⟩ ∧ ⟨2⟩ ≠ checkpointedSystem.item.runtimeSessionId :=
  start_rotates checkpointedSystem_reachable 90 (by decide +kernel) (by decide +kernel)
    (by decide +kernel)
    (by decide +kernel)

end System

end KiroCrew
