import KiroCrew.System

/-!
# One event, by what it writes

`step_item` lists what an event can do to the item: nothing, a broker's conditional write, the put
of a control request's decision, or the write of the wake subject. `step_books` lists what it can do
to the copies, the pending stops, the catalog and the issued receipts.
-/

namespace KiroCrew

/-- The copy a request has decided on and the record it puts. -/
def Event.decision : Event → Option (SandboxRecord × SandboxRecord)
  | .acquireStart record leaseOwner ttl confirmedInactive rotated now =>
    match KiroCrew.acquireStart record leaseOwner ttl confirmedInactive rotated now with
    | .rotate updated => some (record, updated)
    | .keep _ | .leaseConflict => none
  | .transition pending record now =>
    (KiroCrew.transition record pending.record.stateVersion pending.record.leaseOwner now).map
      (record, ·)
  | .requestDeletion record now => (KiroCrew.requestDeletion record now).map (record, ·)
  | .call .. | .read | .stop .. | .recordWakeSubject .. => none

namespace System

variable {s s' : System} {e : Event} {record updated : SandboxRecord}

theorem applied_item (c : BrokerCall) (subjectHash : String) (now : Instant) (item : Item) :
    (s.applied c subjectHash now item).item = item := by
  unfold applied; split <;> rfl

theorem applied_sessions (c : BrokerCall) (subjectHash : String) (now : Instant) (item : Item) :
    (s.applied c subjectHash now item).sessions = s.sessions := by
  unfold applied; split <;> rfl

theorem applied_reads (c : BrokerCall) (subjectHash : String) (now : Instant) (item : Item) :
    (s.applied c subjectHash now item).reads = s.reads := by
  unfold applied; split <;> rfl

theorem applied_stops (c : BrokerCall) (subjectHash : String) (now : Instant) (item : Item) :
    (s.applied c subjectHash now item).stops = s.stops := by
  unfold applied; split <;> rfl

theorem put_item (record updated : SandboxRecord) : (s.put record updated).item = s.item ∨
    s.item.stateVersion = record.stateVersion ∧ (s.put record updated).item = updated.item := by
  unfold put
  split
  · exact .inl rfl
  · next item hp => exact .inr (putUpdated_eq_some hp)

theorem put_books (record updated : SandboxRecord) :
    (s.put record updated).reads = s.reads ∧ (s.put record updated).stops = s.stops ∧
      (s.put record updated).catalog = s.catalog ∧ (s.put record updated).issued = s.issued := by
  unfold put; split <;> exact ⟨rfl, rfl, rfl, rfl⟩

/-- What one event does to the item. -/
theorem step_item (h : s.step e = some s') :
    s'.item = s.item ∨
    (∃ c subjectHash now, e = .call c subjectHash now ∧ c.write s.item now = some s'.item) ∨
    (∃ record updated, e.decision = some (record, updated) ∧
      s.item.stateVersion = record.stateVersion ∧
      s'.item = updated.item) ∨
    ∃ sealed, e = .recordWakeSubject sealed ∧
        s'.item = { s.item with wakeSubject := some sealed } := by
  cases e with
  | call c subjectHash now =>
    simp only [step] at h
    split at h
    · obtain rfl := Option.some.inj h
      exact .inl rfl
    · next item hw =>
      obtain rfl := Option.some.inj h
      exact .inr (.inl ⟨c, subjectHash, now, rfl, by rw [applied_item]; exact hw⟩)
  | read =>
    obtain rfl := Option.some.inj h
    exact .inl rfl
  | acquireStart record leaseOwner ttl confirmedInactive rotated now =>
    simp only [step] at h
    split at h
    · split at h
      · next updated hd =>
        obtain rfl := Option.some.inj h
        rcases put_item record updated with hp | ⟨hv, hp⟩
        · exact .inl hp
        · exact .inr (.inr (.inl ⟨record, updated, by simp only [Event.decision, hd], hv, hp⟩))
      · obtain rfl := Option.some.inj h
        exact .inl rfl
    · simp at h
  | stop record receipt subjectHash now =>
    simp only [step] at h
    split at h
    · obtain rfl := Option.some.inj h
      exact .inl rfl
    · simp at h
  | transition pending record now =>
    simp only [step] at h
    split at h
    · split at h
      · obtain rfl := Option.some.inj h
        exact .inl rfl
      · next updated hd =>
        obtain rfl := Option.some.inj h
        rcases put_item record updated with hp | ⟨hv, hp⟩
        · exact .inl hp
        · exact .inr (.inr (.inl ⟨record,
            updated, by simp only [Event.decision, hd, Option.map_some], hv, hp⟩))
    · simp at h
  | requestDeletion record now =>
    simp only [step] at h
    split at h
    · split at h
      · obtain rfl := Option.some.inj h
        exact .inl rfl
      · next updated hd =>
        obtain rfl := Option.some.inj h
        rcases put_item record updated with hp | ⟨hv, hp⟩
        · exact .inl hp
        · exact .inr (.inr (.inl ⟨record,
            updated, by simp only [Event.decision, hd, Option.map_some], hv, hp⟩))
    · simp at h
  | recordWakeSubject sealed =>
    obtain rfl := Option.some.inj h
    exact .inr (.inr (.inr ⟨sealed, rfl, rfl⟩))

theorem step_put (hd : e.decision = some (record, updated))
    (hv : s.item.stateVersion = record.stateVersion)
    (h : s.step e = some s') : s'.item = updated.item := by
  have hput : (s.put record updated).item = updated.item := by
    simp only [put, putUpdated, if_pos hv]
  cases e with
  | call | read | stop | recordWakeSubject => simp [Event.decision] at hd
  | acquireStart r leaseOwner ttl confirmedInactive rotated now =>
    simp only [Event.decision] at hd
    split at hd
    · next u hu =>
      obtain ⟨rfl, rfl⟩ := Prod.mk.inj (Option.some.inj hd)
      simp only [step, hu] at h
      split at h
      · obtain rfl := Option.some.inj h
        exact hput
      · simp at h
    · simp at hd
    · simp at hd
  | transition pending r now =>
    obtain ⟨u, hu, heq⟩ := Option.map_eq_some_iff.1 hd
    obtain ⟨rfl, rfl⟩ := Prod.mk.inj heq
    simp only [step, hu] at h
    split at h
    · obtain rfl := Option.some.inj h
      exact hput
    · simp at h
  | requestDeletion r now =>
    obtain ⟨u, hu, heq⟩ := Option.map_eq_some_iff.1 hd
    obtain ⟨rfl, rfl⟩ := Prod.mk.inj heq
    simp only [step, hu] at h
    split at h
    · obtain rfl := Option.some.inj h
      exact hput
    · simp at h

/-- A decision is made on a copy that was read. -/
theorem decision_mem (hd : e.decision = some (record, updated))
    (he : s.step e = some s') : record ∈ s.reads := by
  cases e with
  | call | read | stop | recordWakeSubject => simp [Event.decision] at hd
  | acquireStart r leaseOwner ttl confirmedInactive rotated now =>
    simp only [Event.decision] at hd
    split at hd
    · obtain ⟨rfl, -⟩ := Prod.mk.inj (Option.some.inj hd)
      simp only [System.step] at he
      split at he
      · next hg => exact hg.1
      · simp at he
    · simp at hd
    · simp at hd
  | transition pending r now =>
    obtain ⟨u, -, heq⟩ := Option.map_eq_some_iff.1 hd
    obtain ⟨rfl, -⟩ := Prod.mk.inj heq
    simp only [System.step] at he
    split at he
    · next hg => exact hg.2
    · simp at he
  | requestDeletion r now =>
    obtain ⟨u, -, heq⟩ := Option.map_eq_some_iff.1 hd
    obtain ⟨rfl, -⟩ := Prod.mk.inj heq
    simp only [System.step] at he
    split at he
    · next hg => exact hg
    · simp at he

theorem decision_version (hd : e.decision = some (record, updated)) :
    updated.stateVersion = record.stateVersion + 1 := by
  cases e with
  | call | read | stop | recordWakeSubject => simp [Event.decision] at hd
  | acquireStart r leaseOwner ttl confirmedInactive rotated now =>
    simp only [Event.decision] at hd
    split at hd
    · next u hu =>
      obtain ⟨rfl, rfl⟩ := Prod.mk.inj (Option.some.inj hd)
      rw [acquireStart_rotate hu]
    · simp at hd
    · simp at hd
  | transition pending r now =>
    obtain ⟨u, hu, heq⟩ := Option.map_eq_some_iff.1 hd
    obtain ⟨rfl, rfl⟩ := Prod.mk.inj heq
    rw [(transition_eq_some hu).2.2.2]
  | requestDeletion r now =>
    obtain ⟨u, hu, heq⟩ := Option.map_eq_some_iff.1 hd
    obtain ⟨rfl, rfl⟩ := Prod.mk.inj heq
    rw [(requestDeletion_eq_some hu).2]

/-- What one event does to the copies, the pending stops, the catalog and the issued receipts. -/
inductive Books (s : System) (e : Event) (s' : System) : Prop
  | same (reads : s'.reads = s.reads) (stops : s'.stops = s.stops)
      (catalog : s'.catalog = s.catalog)
      (issued : s'.issued = s.issued) (event : ∀ c subjectHash now, e ≠ .call c subjectHash now)
  | call {c : BrokerCall} {subjectHash : String} {now : Instant}
      (event : e = .call c subjectHash now)
      (reads : s'.reads = s.reads) (stops : s'.stops = s.stops)
  | read (item : s'.item = s.item) (reads : s'.reads = s.item.record :: s.reads)
      (stops : s'.stops = s.stops)
      (catalog : s'.catalog = s.catalog) (issued : s'.issued = s.issued) (event : e = .read)
  | stop {record : SandboxRecord} {receipt : ReceiptClaims} {subjectHash : String} {now : Instant}
      (event : e = .stop record receipt subjectHash now) (known : record ∈ s.reads)
        (receipts : receipt ∈ s.issued)
      (verified : verifyCheckpointReceipt receipt subjectHash record now = true)
      (allowed : stopAllowed record (s.catalog receipt.generation) receipt = true)
      (reads : s'.reads = s.reads) (stops : s'.stops = ⟨record, receipt⟩ :: s.stops)
      (catalog : s'.catalog = s.catalog) (issued : s'.issued = s.issued)

theorem step_books (h : s.step e = some s') : Books s e s' := by
  cases e with
  | call c subjectHash now =>
    simp only [step] at h
    split at h <;> obtain rfl := Option.some.inj h
    · exact .call rfl rfl rfl
    · exact .call rfl (applied_reads ..) (applied_stops ..)
  | read =>
    obtain rfl := Option.some.inj h
    exact .read rfl rfl rfl rfl rfl rfl
  | acquireStart record leaseOwner ttl confirmedInactive rotated now =>
    simp only [step] at h
    split at h
    · split at h <;> obtain rfl := Option.some.inj h
      · obtain ⟨h₁, h₂, h₃, h₄⟩ := put_books (s := s) record _
        exact .same h₁ h₂ h₃ h₄ (by simp)
      · exact .same rfl rfl rfl rfl (by simp)
    · simp at h
  | stop record receipt subjectHash now =>
    simp only [step] at h
    split at h
    · next hg =>
      obtain rfl := Option.some.inj h
      exact .stop rfl hg.1 hg.2.1 hg.2.2.1 hg.2.2.2 rfl rfl rfl rfl
    · simp at h
  | transition pending record now =>
    simp only [step] at h
    split at h
    · split at h <;> obtain rfl := Option.some.inj h
      · exact .same rfl rfl rfl rfl (by simp)
      · obtain ⟨h₁, h₂, h₃, h₄⟩ := put_books (s := s) record _
        exact .same h₁ h₂ h₃ h₄ (by simp)
    · simp at h
  | requestDeletion record now =>
    simp only [step] at h
    split at h
    · split at h <;> obtain rfl := Option.some.inj h
      · exact .same rfl rfl rfl rfl (by simp)
      · obtain ⟨h₁, h₂, h₃, h₄⟩ := put_books (s := s) record _
        exact .same h₁ h₂ h₃ h₄ (by simp)
    · simp at h
  | recordWakeSubject sealed =>
    obtain rfl := Option.some.inj h
    exact .same rfl rfl rfl rfl (by simp)

theorem step_reads (h : s.step e = some s') : ∀ r ∈ s'.reads, r ∈ s.reads ∨ r = s'.item.record := by
  intro r hr
  cases step_books h with
  | same hreads | call _ hreads | stop _ _ _ _ _ hreads => rw [hreads] at hr; exact .inl hr
  | read hitem hreads =>
    rw [hreads] at hr
    rcases List.mem_cons.1 hr with rfl | hr
    · rw [hitem]; exact .inr rfl
    · exact .inl hr

theorem step_reads_mono (h : s.step e = some s') : ∀ r ∈ s.reads, r ∈ s'.reads := by
  intro r hr
  cases step_books h with
  | same hreads | call _ hreads | stop _ _ _ _ _ hreads => rw [hreads]; exact hr
  | read _ hreads => rw [hreads]; exact List.mem_cons_of_mem _ hr

end System

end KiroCrew
