import KiroCrew.System
import KiroCrew.Times

/-!
# What a control write carries over

`acquire_start`, `transition` and `request_deletion` put back the whole record that they parsed.
Beside what they decide, a put leaves every attribute as it was (`carried_iff`) exactly when the
record has no checkpoint digest and no failure diagnostics: `_record_item` writes none of these
four.
-/

namespace KiroCrew

/-- What no control write is to change. -/
structure Carried (item item' : Item) : Prop where
  hints : item'.toWakeHints = item.toWakeHints
  ownerHash : item'.ownerHash = item.ownerHash
  sandboxId : item'.sandboxId = item.sandboxId
  kiroAuthMode : item'.kiroAuthMode = item.kiroAuthMode
  kiroCrewVersion : item'.kiroCrewVersion = item.kiroCrewVersion
  createdAt : item'.createdAt = item.createdAt
  lastCheckpointGeneration : item'.lastCheckpointGeneration = item.lastCheckpointGeneration
  lastCheckpointManifestDigest : item'.lastCheckpointManifestDigest =
    item.lastCheckpointManifestDigest
  lastRestore : item'.lastRestore = item.lastRestore
  lastInitializationFailure : item'.lastInitializationFailure = item.lastInitializationFailure
  lastInitializationFailureDetail : item'.lastInitializationFailureDetail =
    item.lastInitializationFailureDetail
  lastInitializationFailureException : item'.lastInitializationFailureException =
    item.lastInitializationFailureException

/-- The record that one of the three operations puts back. -/
inductive Rewrites (record : SandboxRecord) : SandboxRecord → Prop
  | acquireStart {leaseOwner ttl confirmedInactive rotated now updated}
      (h : KiroCrew.acquireStart record leaseOwner ttl confirmedInactive rotated now =
        .rotate updated) : Rewrites record updated
  | transition {expectedVersion leaseOwner now updated}
      (h : KiroCrew.transition record expectedVersion leaseOwner now = some updated) :
      Rewrites record updated
  | requestDeletion {now updated} (h : KiroCrew.requestDeletion record now = some updated) :
      Rewrites record updated

/-- Nothing that the mapping of the control plane does not know. -/
def Item.Mapped (item : Item) : Prop :=
  item.lastCheckpointManifestDigest = none ∧ item.lastInitializationFailure = none ∧
    item.lastInitializationFailureDetail = none ∧
    item.lastInitializationFailureException = none

variable {item : Item} {record updated : SandboxRecord}

/-- What the operations leave of the parsed record. -/
structure Rewritten (record updated : SandboxRecord) : Prop where
  hints : updated.wakeHints = record.wakeHints
  ownerHash : updated.ownerHash = record.ownerHash
  sandboxId : updated.sandboxId = record.sandboxId
  kiroAuthMode : updated.kiroAuthMode = record.kiroAuthMode
  kiroCrewVersion : updated.kiroCrewVersion = record.kiroCrewVersion
  createdAt : updated.createdAt = record.createdAt
  lastCheckpointGeneration : updated.lastCheckpointGeneration = record.lastCheckpointGeneration
  lastRestore : updated.lastRestore = record.lastRestore

theorem Rewrites.rewritten (h : Rewrites record updated) : Rewritten record updated := by
  cases h with
  | acquireStart h =>
    rw [acquireStart_rotate h]
    exact ⟨rfl, rfl, rfl, rfl, rfl, rfl, rfl, rfl⟩
  | transition h =>
    obtain ⟨-, -, -, rfl⟩ := transition_eq_some h
    exact ⟨rfl, rfl, rfl, rfl, rfl, rfl, rfl, rfl⟩
  | requestDeletion h =>
    obtain ⟨-, rfl⟩ := requestDeletion_eq_some h
    exact ⟨rfl, rfl, rfl, rfl, rfl, rfl, rfl, rfl⟩

theorem Rewrites.carried (h : Rewrites item.record updated) : Carried item updated.item ↔
    item.Mapped := by
  have hrewritten := h.rewritten
  constructor
  · intro hcarried
    exact ⟨hcarried.lastCheckpointManifestDigest.symm, hcarried.lastInitializationFailure.symm,
      hcarried.lastInitializationFailureDetail.symm,
      hcarried.lastInitializationFailureException.symm⟩
  · rintro ⟨hdigest, hfailure, hdetail, hexception⟩
    exact ⟨hrewritten.hints, hrewritten.ownerHash, hrewritten.sandboxId, hrewritten.kiroAuthMode,
      hrewritten.kiroCrewVersion,
      hrewritten.createdAt, hrewritten.lastCheckpointGeneration, hdigest.symm,
      hrewritten.lastRestore, hfailure.symm, hdetail.symm,
      hexception.symm⟩

/-- A put carries everything over exactly when the record has no attribute that the mapping does not
know; times are printed back as they were read. -/
theorem carried_iff (t : DateTime) :
    (∀ (item : Item) (updated : SandboxRecord), Rewrites item.record updated →
    (Carried item updated.item ↔ item.Mapped)) ∧
      (DateTime.read t.iso).map DateTime.iso = some t.iso :=
  ⟨fun _ _ h => h.carried, by rw [DateTime.read_iso, Option.map_some]⟩

/-- A start of session 2 whose initialization failed. -/
def failedStart : List Event :=
  let record := (newRecord "owner" "sbx" ⟨1⟩ "0.2.0" ⟨0⟩).item.record
  [.read, .acquireStart record ⟨1⟩ 90 false ⟨2⟩ ⟨1000000⟩,
    .call ⟨⟨2⟩, .acquireInit ⟨7⟩⟩ "sub" ⟨2000000⟩,
    .call ⟨⟨2⟩, .markError (some ⟨7⟩) ⟨"GatewayExitedError", "OOM", "UNKNOWN"⟩⟩ "sub" ⟨3000000⟩]

def failedSystem : System :=
  (Machine.runAlong System.step Machine.Any (System.init "owner" "sbx" ⟨1⟩ "0.2.0" ⟨0⟩)
    failedStart).get (by decide)

theorem failedSystem_reachable : failedSystem.Reachable :=
  ⟨"owner", "sbx", ⟨1⟩, "0.2.0", ⟨0⟩, .of_isSome _⟩

theorem carried_iff_created : Carried (newRecord "owner" "sbx" ⟨1⟩ "0.2.0" ⟨0⟩).item
    { (newRecord "owner" "sbx" ⟨1⟩ "0.2.0" ⟨0⟩).item.record with
      stateVersion := 1, deletionState := some "REQUESTED",
      updatedAt := ⟨5000000⟩ : SandboxRecord }.item :=
  ((carried_iff ⟨0, by decide⟩).1 _ _ (@Rewrites.requestDeletion _ ⟨5000000⟩ _ rfl)).2
    ⟨rfl, rfl, rfl, rfl⟩

/-- The next start erases why the last one failed. -/
theorem restart_erases_failure : ¬ ∀ (s : System) (updated : SandboxRecord), s.Reachable →
    Rewrites s.item.record updated →
    Carried s.item updated.item := by
  intro h
  have hcarried := h failedSystem _ failedSystem_reachable
    (@Rewrites.acquireStart _ ⟨2⟩ 90 true ⟨3⟩ ⟨200000000⟩ _ rfl)
  have hfailure := hcarried.lastInitializationFailure
  revert hfailure
  decide

end KiroCrew
