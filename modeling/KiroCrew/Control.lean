import KiroCrew.Receipt

/-!
# Writes of the control plane

The control plane reads the whole record, decides on the parsed copy and puts the whole record back
under the condition that `stateVersion` is the one it read (`_put_updated`). The functions here
compute the decision and the updated record from the copy; `putUpdated` is the conditional put.
-/

namespace KiroCrew

/-- The record `get_or_create` puts for a subject that has none. -/
def newRecord (ownerHash sandboxId : String) (session : SessionId) (version : String)
    (now : Instant) :
    SandboxRecord where
  ownerHash := ownerHash
  sandboxId := sandboxId
  runtimeSessionId := session
  state := .stopped
  stateVersion := 0
  leaseOwner := none
  leaseExpiresAt := none
  activeRequestId := none
  lastCheckpointGeneration := none
  lastRestore := none
  deletionState := none
  kiroAuthMode := "device-flow"
  kiroCrewVersion := version
  createdAt := now
  updatedAt := now
  initExpiresAt := none
  wakeHints := {}

/-- What `acquire_start` decides: return the record it read, raise, or put a rotated one. -/
inductive StartDecision
  | keep (authoritative : Bool)
  | leaseConflict
  | rotate (updated : SandboxRecord)
deriving DecidableEq, Repr

/-- `acquire_start` on the record it read; `rotated` is the fresh session id. -/
def acquireStart (record : SandboxRecord) (leaseOwner : SessionId) (ttl : Nat)
    (confirmedInactive : Bool)
    (rotated : SessionId) (now : Instant) : StartDecision :=
  let authoritative := decide (record.leaseOwner = some leaseOwner)
  if record.leaseExpiresAt.any (now < ·) then .keep authoritative
  else if record.initLeaseActive now then .keep authoritative
  else if record.leaseOwner ≠ none ∧ record.leaseOwner ≠ some leaseOwner ∧ record.state ≠ .stopped ∧
      confirmedInactive = false then
    .leaseConflict
  else if record.startInProgress now ∧ confirmedInactive = false then .keep authoritative
  else .rotate { record with
    state := .starting
    stateVersion := record.stateVersion + 1
    runtimeSessionId := rotated
    leaseOwner := some rotated
    leaseExpiresAt := some (now.addSeconds ttl)
    activeRequestId := none
    updatedAt := now }

/-- `transition(STOPPED)` on the record it read; `none` is the `StateConflictError`. -/
def transition (record : SandboxRecord) (expectedVersion : Nat) (leaseOwner : Option SessionId)
    (now : Instant) : Option SandboxRecord :=
  if record.stateVersion ≠ expectedVersion ∨ record.leaseOwner ≠ leaseOwner then none
  else if record.state ≠ .stopping then none
  else some { record with
    state := .stopped
    stateVersion := record.stateVersion + 1
    leaseOwner := none
    leaseExpiresAt := none
    activeRequestId := none
    updatedAt := now }

/-- `request_deletion` on the record it read. -/
def requestDeletion (record : SandboxRecord) (now : Instant) : Option SandboxRecord :=
  if record.state ≠ .stopped then none
  else some { record with
    stateVersion := record.stateVersion + 1
    deletionState := some "REQUESTED"
    updatedAt := now }

/-- `_put_updated`: the full-record put, conditioned on the version the decision was made on. -/
def putUpdated (item : Item) (previous updated : SandboxRecord) : Option Item :=
  if item.stateVersion = previous.stateVersion then some updated.item else none

/-- `verify_checkpoint_receipt`, after the signature: the receipt is for this record and still
fresh. -/
def verifyCheckpointReceipt (receipt : ReceiptClaims) (subjectHash : String)
    (record : SandboxRecord)
    (now : Instant) : Bool :=
  receipt.sandboxId = record.sandboxId && receipt.runtimeSessionId = record.runtimeSessionId &&
    receipt.subjectHash = subjectHash && decide (0 < receipt.generation) &&
    receipt.manifestDigest.length = 64 && decide (now.epoch < receipt.exp)

/-- The check of `_stop` on the record, the catalog item and the verified receipt. -/
def stopAllowed (record : SandboxRecord) (metadata : Option CheckpointItem)
    (receipt : ReceiptClaims) : Bool :=
  record.state = .stopping && record.lastCheckpointGeneration = some receipt.generation &&
    metadata.any fun m => m.status = .committed && m.manifestDigest = receipt.manifestDigest

/-- A rotation installs the fresh session, in state `STARTING`, and owns the lease with it. -/
theorem acquireStart_rotate {record updated : SandboxRecord}
    {leaseOwner rotated : SessionId} {ttl : Nat}
    {confirmedInactive : Bool} {now : Instant}
    (h : acquireStart record leaseOwner ttl confirmedInactive rotated now = .rotate updated) :
    updated = { record with
      state := .starting, stateVersion := record.stateVersion + 1, runtimeSessionId := rotated,
      leaseOwner := some rotated, leaseExpiresAt := some (now.addSeconds ttl),
      activeRequestId := none,
      updatedAt := now } := by
  unfold acquireStart at h
  simp only at h
  split at h
  · simp at h
  split at h
  · simp at h
  split at h
  · simp at h
  split at h
  · simp at h
  · simpa using h.symm

theorem transition_eq_some {record updated : SandboxRecord} {expectedVersion : Nat}
    {leaseOwner : Option SessionId} {now : Instant}
    (h : transition record expectedVersion leaseOwner now = some updated) :
    record.stateVersion = expectedVersion ∧ record.leaseOwner = leaseOwner ∧
      record.state = .stopping ∧
      updated = { record with
        state := .stopped, stateVersion := record.stateVersion + 1, leaseOwner := none,
        leaseExpiresAt := none, activeRequestId := none, updatedAt := now } := by
  unfold transition at h
  split at h
  · simp at h
  · next hv =>
    push Not at hv
    split at h
    · simp at h
    · next hs => exact ⟨hv.1, hv.2, by simpa using hs, by simpa using h.symm⟩

theorem requestDeletion_eq_some {record updated : SandboxRecord} {now : Instant}
    (h : requestDeletion record now = some updated) :
    record.state = .stopped ∧ updated = { record with
      stateVersion := record.stateVersion + 1,
      deletionState := some "REQUESTED", updatedAt := now } := by
  unfold requestDeletion at h
  split at h
  · simp at h
  · next hs => exact ⟨by simpa using hs, by simpa using h.symm⟩

theorem putUpdated_eq_some {item item' : Item} {previous updated : SandboxRecord}
    (h : putUpdated item previous updated = some item') :
    item.stateVersion = previous.stateVersion ∧ item' = updated.item := by
  unfold putUpdated at h
  split at h
  · next hv => exact ⟨hv, by simpa using h.symm⟩
  · simp at h

end KiroCrew
