import KiroCrew.Record

/-!
# Record operations of the persistence broker

Each operation is one conditional update of the sandbox item: `…Allowed` is its condition
expression and the operation returns the updated item, or `none` when nothing is written. Times are
the broker's own `datetime.now(UTC)`; the arguments are those that passed the broker's format
checks (`_init_owner`, `_diagnostic`), which the types carry here.
-/

namespace KiroCrew

/-- `_TAKEOVER_IDLE` in seconds. -/
def takeoverIdle : Nat := 60

/-- `_authorize`: the record names the caller's session and is live, or an initialization lease
is. -/
def authorize (item : Item) (session : SessionId) (now : Instant) : Bool :=
  item.runtimeSessionId = session &&
    (item.state.live || item.initExpiresAt.any fun expires => now.epoch < expires)

/-! ## Initialization -/

/-- The condition of `_acquire_init`. -/
def acquireInitAllowed (item : Item) (session : SessionId) (owner : InstanceId) (now : Instant) :
    Prop :=
  item.runtimeSessionId = session ∧
    ((item.state = .starting ∨ item.state = .restoring) ∨
      item.state = .ready ∧
        (item.leaseExpiresAt = none ∨ item.leaseExpiresAt.any (·.isoLt now) ∨
          (item.holderInstance ≠ none ∧ item.holderInstance ≠ some owner) ∧
            item.lastServedAt.any (·.isoLt (now.subSeconds takeoverIdle)))) ∧
    (item.initOwner = none ∨ item.initOwner = some owner ∨ item.initExpiresAt.any (· < now.epoch))

instance (item : Item) (session : SessionId) (owner : InstanceId) (now : Instant) :
    Decidable (acquireInitAllowed item session owner now) :=
  inferInstanceAs (Decidable (_ ∧ _ ∧ _))

def acquireInit (item : Item) (session : SessionId) (owner : InstanceId) (now : Instant) :
    Option Item :=
  if acquireInitAllowed item session owner now then
    some { item with
      state := .restoring
      initOwner := some owner
      initExpiresAt := some (now.epoch + 90)
      holderInstance := some owner
      updatedAt := now
      stateVersion := item.stateVersion + 1
      restoreProgress := none }
  else none

def claimRejection (item : Option Item) (owner : InstanceId) (now : Instant) : String :=
  match item with
  | none => "Sandbox initialization could not be claimed."
  | some item =>
    if item.initOwner ≠ none ∧ item.initOwner ≠ some owner ∧
        item.initExpiresAt.any (now.epoch ≤ ·) then
      "Another container owns this sandbox initialization."
    else if item.state = .ready ∧ item.leaseExpiresAt.any (fun lease => !lease.isoLt now) then
      "A live container still holds this sandbox; its lease has not expired."
    else "Sandbox is not claimable from state " ++ item.state.value ++ "."

/-- The progress an initialization heartbeat may carry. -/
structure RestoreProgress where
  chunksDone : Nat
  chunksTotal : Nat
  files : Nat
deriving DecidableEq, Repr

def maxProgressCount : Nat := 100000000

/-- `_restore_progress`: the stored text, or nothing when the value is out of range. -/
def RestoreProgress.stored (p : RestoreProgress) : Option String :=
  if p.chunksDone ≤ maxProgressCount ∧ p.chunksTotal ≤ maxProgressCount ∧
    p.files ≤ maxProgressCount ∧
      p.chunksDone ≤ p.chunksTotal then
    some ("\x7b\"chunksDone\":" ++ toString p.chunksDone ++ ",\"chunksTotal\":" ++
      toString p.chunksTotal ++ ",\"files\":" ++ toString p.files ++ "\x7d")
  else none

def heartbeatInit (item : Item) (owner : InstanceId) (progress : Option RestoreProgress)
    (now : Instant) :
    Option Item :=
  if item.initOwner = some owner then
    some { item with
      initExpiresAt := some (now.epoch + 90)
      updatedAt := now
      restoreProgress := (progress.bind RestoreProgress.stored).or item.restoreProgress }
  else none

def markReady (item : Item) (session : SessionId) (owner : InstanceId) (outcome : String)
    (now : Instant) :
    Option Item :=
  if item.runtimeSessionId = session ∧ item.initOwner = some owner then
    some { item with
      state := .ready
      lastRestore := some outcome.toUpper
      updatedAt := now
      leaseOwner := some session
      leaseExpiresAt := some (now.addSeconds 90)
      holderInstance := some owner
      lastServedAt := some now
      stateVersion := item.stateVersion + 1
      initOwner := none
      initExpiresAt := none }
  else none

/-- What `markError` records about a failed initialization. -/
structure Diagnostics where
  failureType : String := "UNKNOWN"
  failureDetail : String := "UNKNOWN"
  upstreamException : String := "UNKNOWN"
deriving DecidableEq, Repr

/-- The condition of `_mark_error`: with an owner, ownership; without one, an initializing state. -/
def markErrorAllowed (item : Item) (session : SessionId) (owner : Option InstanceId) : Prop :=
  item.runtimeSessionId = session ∧
    match owner with
    | none => item.state = .starting ∨ item.state = .restoring
    | some owner => item.initOwner = some owner

instance (item : Item) (session : SessionId) : (owner : Option InstanceId) →
    Decidable (markErrorAllowed item session owner)
  | none => inferInstanceAs (Decidable (_ ∧ (_ ∨ _)))
  | some _ => inferInstanceAs (Decidable (_ ∧ _))

def markError (item : Item) (session : SessionId) (owner : Option InstanceId) (d : Diagnostics)
    (now : Instant) : Option Item :=
  if markErrorAllowed item session owner then
    some { item with
      state := .error
      lastInitializationFailure := some d.failureType
      lastInitializationFailureDetail := some d.failureDetail
      lastInitializationFailureException := some d.upstreamException
      updatedAt := now
      stateVersion := item.stateVersion + 1
      initOwner := none
      initExpiresAt := none }
  else none

/-! ## The serving holder -/

/-- `_served_at`; `none` at the outer level is the `ValueError`. -/
def servedAt (value : Option Nat) (now : Instant) : Option (Option Instant) :=
  match value with
  | none => some none
  | some seconds =>
    if seconds = 0 then none
    else some (some (if Instant.ofEpoch seconds ≤ now then Instant.ofEpoch seconds else now))

/-- The condition of `_heartbeat_lease`. -/
def heartbeatLeaseAllowed (item : Item) (session : SessionId) (holder : Option InstanceId) : Prop :=
  item.leaseOwner = some session ∧
    (holder = none ∨ item.holderInstance = none ∨ item.holderInstance = holder)

instance (item : Item) (session : SessionId) (holder : Option InstanceId) :
    Decidable (heartbeatLeaseAllowed item session holder) :=
  inferInstanceAs (Decidable (_ ∧ (_ ∨ _ ∨ _)))

def heartbeatLease (item : Item) (session : SessionId) (holder : Option InstanceId)
    (served : Option Nat)
    (now : Instant) : Option Item :=
  match servedAt served now with
  | none => none
  | some served =>
    if heartbeatLeaseAllowed item session holder then
      some { item with
        leaseExpiresAt := some (now.addSeconds 90)
        updatedAt := now
        lastServedAt := served.or item.lastServedAt }
    else none

def healReady (item : Item) (session : SessionId) (now : Instant) : Option Item :=
  if item.runtimeSessionId = session ∧ item.state = .starting then
    some { item with state := .ready, updatedAt := now, stateVersion := item.stateVersion + 1 }
  else none

end KiroCrew
