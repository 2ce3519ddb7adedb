import KiroCrew.Clock

/-!
# The sandbox record

`Item` is the `SANDBOX#…/METADATA` item of the table, one field for each attribute; an absent
attribute is `none`. `SandboxRecord` is what the control plane parses it into (`_record`) and prints
back on every full-record write (`_record_item`). The two differ: `initOwner`, the checkpoint digest
and the failure diagnostics have no place in `SandboxRecord`, so a full-record write drops them.
-/

namespace KiroCrew

/-- A runtime session id (`new_runtime_session_id`, a fresh UUID). -/
structure SessionId where
  uuid : Nat
deriving DecidableEq, Repr

/-- A container instance: the initialization owner id a runtime process draws once. -/
structure InstanceId where
  uuid : Nat
deriving DecidableEq, Repr

/-- A SHA-256 hex digest. -/
abbrev Digest := List Char

instance Digest.lawfulBEq : LawfulBEq Digest := inferInstance

inductive SandboxState
  | stopped | starting | restoring | ready | busy | checkpointing | stopping | error
deriving DecidableEq, Repr

/-- The stored spelling. -/
def SandboxState.value : SandboxState → String
  | .stopped => "STOPPED"
  | .starting => "STARTING"
  | .restoring => "RESTORING"
  | .ready => "READY"
  | .busy => "BUSY"
  | .checkpointing => "CHECKPOINTING"
  | .stopping => "STOPPING"
  | .error => "ERROR"

/-- `_LIVE_STATES` -/
def SandboxState.live : SandboxState → Bool
  | .starting | .restoring | .ready | .busy | .checkpointing | .stopping => true
  | .stopped | .error => false

/-- The attributes the broker owns and the control plane carries (`_WAKE_HINT_ATTRIBUTES`). -/
structure WakeHints where
  nextDueAt : Option Nat := none
  nextDueJob : Option String := none
  restoreSeconds : Option Nat := none
  holderInstance : Option InstanceId := none
  lastServedAt : Option Instant := none
  wakeSubject : Option String := none
  restoreProgress : Option String := none
deriving DecidableEq, Repr

/-- The sandbox item of the table. -/
structure Item extends WakeHints where
  ownerHash : String
  sandboxId : String
  runtimeSessionId : SessionId
  state : SandboxState
  stateVersion : Nat
  kiroAuthMode : String
  kiroCrewVersion : String
  createdAt : Instant
  updatedAt : Instant
  leaseOwner : Option SessionId := none
  leaseExpiresAt : Option Instant := none
  activeRequestId : Option String := none
  lastCheckpointGeneration : Option Nat := none
  lastCheckpointManifestDigest : Option Digest := none
  initOwner : Option InstanceId := none
  /-- Epoch seconds. -/
  initExpiresAt : Option Nat := none
  lastRestore : Option String := none
  deletionState : Option String := none
  lastInitializationFailure : Option String := none
  lastInitializationFailureDetail : Option String := none
  lastInitializationFailureException : Option String := none
deriving DecidableEq, Repr

/-- `SandboxRecord`: the control plane's parsed view. -/
structure SandboxRecord where
  ownerHash : String
  sandboxId : String
  runtimeSessionId : SessionId
  state : SandboxState
  stateVersion : Nat
  leaseOwner : Option SessionId
  leaseExpiresAt : Option Instant
  activeRequestId : Option String
  lastCheckpointGeneration : Option Nat
  lastRestore : Option String
  deletionState : Option String
  kiroAuthMode : String
  kiroCrewVersion : String
  createdAt : Instant
  updatedAt : Instant
  initExpiresAt : Option Instant
  wakeHints : WakeHints
deriving DecidableEq, Repr

def Item.record (item : Item) : SandboxRecord where
  ownerHash := item.ownerHash
  sandboxId := item.sandboxId
  runtimeSessionId := item.runtimeSessionId
  state := item.state
  stateVersion := item.stateVersion
  leaseOwner := item.leaseOwner
  leaseExpiresAt := item.leaseExpiresAt
  activeRequestId := item.activeRequestId
  lastCheckpointGeneration := item.lastCheckpointGeneration
  lastRestore := item.lastRestore
  deletionState := item.deletionState
  kiroAuthMode := item.kiroAuthMode
  kiroCrewVersion := item.kiroCrewVersion
  createdAt := item.createdAt
  updatedAt := item.updatedAt
  initExpiresAt := item.initExpiresAt.map Instant.ofEpoch
  wakeHints := item.toWakeHints

/-- `_record_item` -/
def SandboxRecord.item (record : SandboxRecord) : Item where
  toWakeHints := record.wakeHints
  ownerHash := record.ownerHash
  sandboxId := record.sandboxId
  runtimeSessionId := record.runtimeSessionId
  state := record.state
  stateVersion := record.stateVersion
  kiroAuthMode := record.kiroAuthMode
  kiroCrewVersion := record.kiroCrewVersion
  createdAt := record.createdAt
  updatedAt := record.updatedAt
  leaseOwner := record.leaseOwner
  leaseExpiresAt := record.leaseExpiresAt
  activeRequestId := record.activeRequestId
  lastCheckpointGeneration := record.lastCheckpointGeneration
  lastCheckpointManifestDigest := none
  initExpiresAt := record.initExpiresAt.map Instant.epoch
  lastRestore := record.lastRestore
  deletionState := record.deletionState

def SandboxRecord.initLeaseActive (record : SandboxRecord) (now : Instant) : Bool :=
  record.initExpiresAt.any fun t => now < t

theorem Item.initLeaseActive_iff (item : Item) {now : Instant} :
    item.record.initLeaseActive now = true ↔ ∃ expires, item.initExpiresAt = some expires ∧
    now < Instant.ofEpoch expires := by
  show (item.initExpiresAt.map Instant.ofEpoch).any (fun t => decide (now < t)) = true ↔ _
  cases item.initExpiresAt with
  | none => simp
  | some expires =>
    rw [Option.map_some, Option.any_some, decide_eq_true_iff]
    constructor
    · intro hlt
      exact ⟨expires, rfl, hlt⟩
    · rintro ⟨_, ⟨⟩, hlt⟩
      exact hlt

/-- `START_GRACE` in seconds. -/
def startGrace : Nat := 5 * 60

def SandboxRecord.startInProgress (record : SandboxRecord) (now : Instant) : Bool :=
  record.state = .starting && decide (now.subSeconds startGrace < record.updatedAt)

@[simp] theorem Instant.epoch_ofEpoch (n : Nat) : (Instant.ofEpoch n).epoch = n := by
  simp [Instant.ofEpoch, Instant.epoch]

/-- A full-record write of an unchanged parse keeps every attribute but the five it drops. -/
theorem Item.record_item (item : Item) :
    item.record.item = { item with
      initOwner := none
      lastCheckpointManifestDigest := none
      lastInitializationFailure := none
      lastInitializationFailureDetail := none
      lastInitializationFailureException := none } := by
  cases item
  simp [Item.record, SandboxRecord.item, Option.map_map, Function.comp_def]

end KiroCrew
