import KiroCrew.Broker

/-!
# `checkpointReceipt`

The broker checks the request against the commit object it reads from S3, then runs one transaction:
the conditional update of the sandbox item and the put of the `CHECKPOINT#g` catalog item.
`receiptAllowed` is the condition expression of the update; it has a session clause, a holder clause
when the caller names its instance, a state clause that depends on `final`, and an advance clause
that depends on whether the caller names the generation its working copy descends from.
-/

namespace KiroCrew

/-- `_DIGEST.fullmatch` -/
def isDigest (value : Digest) : Bool :=
  value.length = 64 && value.all fun c => "0123456789abcdef".toList.contains c

/-- The commit object `commits/g.json`. -/
structure CommitRecord where
  generation : Nat
  manifestDigest : Digest
  committedAt : Instant
deriving DecidableEq, Repr

inductive CheckpointStatus
  | committed | restoreFailed
deriving DecidableEq, Repr

/-- The catalog item `CHECKPOINT#g` (`CheckpointMetadata`). -/
structure CheckpointItem where
  generation : Nat
  manifestDigest : Digest
  createdAt : Instant
  status : CheckpointStatus := .committed
  schemaVersion : Nat := 1
deriving DecidableEq, Repr

/-- The claims of a signed checkpoint receipt. -/
structure ReceiptClaims where
  generation : Nat
  manifestDigest : Digest
  runtimeSessionId : SessionId
  sandboxId : String
  subjectHash : String
  iat : Nat
  exp : Nat
deriving DecidableEq, Repr

/-- The wake hints of a receipt, as the caller sent them. -/
structure ScheduleHints where
  nextDueAt : Option Int := none
  nextDueJob : List Char := []
  restoreSeconds : Option Int := none
deriving DecidableEq, Repr

/-- `_MAX_DUE_AHEAD` in seconds. -/
def maxDueAhead : Nat := 400 * 86400

/-- `_JOB_ID.fullmatch` -/
def isJobId (value : List Char) : Bool :=
  value.length ≤ 128 && value.all fun c => c.isAlphanum || "_.:-".toList.contains c

/-- `_schedule_hints` raises no `ValueError`. -/
def ScheduleHints.valid (h : ScheduleHints) (now : Instant) : Bool :=
  (h.nextDueAt.all fun due => decide (0 ≤ due ∧ due ≤ ((now.epoch + maxDueAhead : Nat) : Int)) &&
    isJobId h.nextDueJob) &&
    h.restoreSeconds.all fun s => decide (0 ≤ s ∧ s ≤ 3600)

/-- The `SET` clauses of `_schedule_hints`. -/
def ScheduleHints.set (h : ScheduleHints) (hints : WakeHints) : WakeHints :=
  { hints with
    nextDueAt := (h.nextDueAt.map Int.toNat).or hints.nextDueAt
    nextDueJob := (h.nextDueAt.map fun _ => String.ofList h.nextDueJob).or hints.nextDueJob
    restoreSeconds := (h.restoreSeconds.map Int.toNat).or hints.restoreSeconds }

/-- The body of a `checkpointReceipt` call. -/
structure ReceiptRequest where
  generation : Nat
  manifestDigest : Digest
  final : Bool := true
  baseGeneration : Option Nat := none
  holderInstance : Option InstanceId := none
  hints : ScheduleHints := {}
deriving DecidableEq, Repr

/-- The format checks on a request and the commit object it names. -/
def ReceiptRequest.valid (r : ReceiptRequest) (commit : Option CommitRecord) (now : Instant) :
    Bool :=
  decide (0 < r.generation) && r.baseGeneration.all (· < r.generation) &&
    isDigest r.manifestDigest &&
    (commit.any fun c => c.generation = r.generation && c.manifestDigest = r.manifestDigest) &&
    r.hints.valid now

/-- The holder clause, present when the caller names its instance. -/
def ReceiptRequest.holderOk (r : ReceiptRequest) (item : Item) : Prop :=
  r.holderInstance = none ∨ item.holderInstance = none ∨ item.holderInstance = r.holderInstance

def ReceiptRequest.stateOk (r : ReceiptRequest) (item : Item) : Prop :=
  if r.final then item.state = .ready ∨ item.state = .checkpointing ∨ item.state = .stopping
  else item.state = .ready ∨ item.state = .busy ∨ item.state = .checkpointing

/-- The `advance` disjunct: forward of the pointer without a base, pointer not past the base with
one. -/
def ReceiptRequest.advance (r : ReceiptRequest) (pointer : Nat) : Prop :=
  match r.baseGeneration with
  | none => pointer < r.generation
  | some base => pointer ≤ base

def ReceiptRequest.pointerOk (r : ReceiptRequest) (item : Item) : Prop :=
  match item.lastCheckpointGeneration with
  | none => True
  | some pointer => r.advance pointer ∨
      pointer = r.generation ∧ item.lastCheckpointManifestDigest = some r.manifestDigest

/-- The condition expression of the transaction's update. -/
def receiptAllowed (item : Item) (session : SessionId) (r : ReceiptRequest) : Prop :=
  item.runtimeSessionId = session ∧ r.holderOk item ∧ r.stateOk item ∧ r.pointerOk item

instance (r : ReceiptRequest) (item : Item) : Decidable (r.holderOk item) :=
  inferInstanceAs (Decidable (_ ∨ _ ∨ _))

instance (r : ReceiptRequest) (item : Item) : Decidable (r.stateOk item) :=
  inferInstanceAs (Decidable (if r.final = true then
    item.state = .ready ∨ item.state = .checkpointing ∨ item.state = .stopping
    else item.state = .ready ∨ item.state = .busy ∨ item.state = .checkpointing))

instance (r : ReceiptRequest) (pointer : Nat) : Decidable (r.advance pointer) :=
  match h : r.baseGeneration with
  | none => decidable_of_iff (pointer < r.generation) (by simp [ReceiptRequest.advance, h])
  | some base => decidable_of_iff (pointer ≤ base) (by simp [ReceiptRequest.advance, h])

instance (r : ReceiptRequest) (item : Item) : Decidable (r.pointerOk item) :=
  match h : item.lastCheckpointGeneration with
  | none => .isTrue (by simp [ReceiptRequest.pointerOk, h])
  | some pointer => decidable_of_iff
      (r.advance pointer ∨ pointer = r.generation ∧ item.lastCheckpointManifestDigest =
        some r.manifestDigest)
      (by simp [ReceiptRequest.pointerOk, h])

instance (item : Item) (session : SessionId) (r : ReceiptRequest) :
    Decidable (receiptAllowed item session r) :=
  inferInstanceAs (Decidable (_ ∧ _ ∧ _ ∧ _))

/-- The update of the sandbox item. -/
def ReceiptRequest.update (r : ReceiptRequest) (item : Item) (now : Instant) : Item :=
  { item with
    toWakeHints := r.hints.set item.toWakeHints
    state := if r.final then .stopping else item.state
    lastCheckpointGeneration := some r.generation
    lastCheckpointManifestDigest := some r.manifestDigest
    updatedAt := now
    stateVersion := item.stateVersion + 1 }

/-- `_checkpoint_receipt` up to the transaction: the updated item and the catalog item it puts. -/
def checkpointReceipt (item : Item) (session : SessionId) (r : ReceiptRequest)
    (commit : Option CommitRecord)
    (now : Instant) : Option (Item × CheckpointItem) :=
  if r.valid commit now then
    match commit with
    | none => none
    | some c =>
      if receiptAllowed item session r then
        some (r.update item now,
          { generation := r.generation, manifestDigest := r.manifestDigest,
            createdAt := c.committedAt })
      else none
  else none

/-- `_RECEIPT_TTL` in seconds. -/
def receiptTtl : Nat := 10 * 60

/-- The claims the broker signs after the transaction. -/
def ReceiptRequest.claims (r : ReceiptRequest) (session : SessionId)
    (sandboxId subjectHash : String)
    (now : Instant) : ReceiptClaims where
  generation := r.generation
  manifestDigest := r.manifestDigest
  runtimeSessionId := session
  sandboxId := sandboxId
  subjectHash := subjectHash
  iat := now.epoch
  exp := (now.addSeconds receiptTtl).epoch

@[simp] theorem ScheduleHints.set_holderInstance (h : ScheduleHints) (w : WakeHints) :
    (h.set w).holderInstance = w.holderInstance := rfl

@[simp] theorem ReceiptRequest.update_runtimeSessionId (r : ReceiptRequest) (item : Item)
    (now : Instant) :
    (r.update item now).runtimeSessionId = item.runtimeSessionId := rfl

@[simp] theorem ReceiptRequest.update_holderInstance (r : ReceiptRequest) (item : Item)
    (now : Instant) :
    (r.update item now).holderInstance = item.holderInstance := rfl

@[simp] theorem ReceiptRequest.update_initOwner (r : ReceiptRequest) (item : Item) (now : Instant) :
    (r.update item now).initOwner = item.initOwner := rfl

@[simp] theorem ReceiptRequest.update_leaseOwner (r : ReceiptRequest) (item : Item)
    (now : Instant) :
    (r.update item now).leaseOwner = item.leaseOwner := rfl

@[simp] theorem ReceiptRequest.update_stateVersion (r : ReceiptRequest) (item : Item)
    (now : Instant) :
    (r.update item now).stateVersion = item.stateVersion + 1 := rfl

@[simp] theorem ReceiptRequest.update_generation (r : ReceiptRequest) (item : Item)
    (now : Instant) :
    (r.update item now).lastCheckpointGeneration = some r.generation := rfl

/-- What an accepted receipt says: the request and its commit are well formed, the condition
held. -/
theorem checkpointReceipt_eq_some {item item' : Item} {session : SessionId} {r : ReceiptRequest}
    {commit : Option CommitRecord} {now : Instant} {c : CheckpointItem}
    (h : checkpointReceipt item session r commit now = some (item', c)) :
    r.valid commit now = true ∧ receiptAllowed item session r ∧ item' = r.update item now ∧
      c.generation = r.generation ∧ c.manifestDigest = r.manifestDigest ∧
      c.status = .committed := by
  unfold checkpointReceipt at h
  split at h
  · next hv =>
    cases commit with
    | none => simp at h
    | some k =>
      simp only at h
      split at h
      · next ha =>
        simp only [Option.some.injEq, Prod.mk.injEq] at h
        obtain ⟨rfl, rfl⟩ := h
        exact ⟨hv, ha, rfl, rfl, rfl, rfl⟩
      · simp at h
  · simp at h

/-- A well-formed request is accepted exactly when the condition expression holds. -/
theorem checkpointReceipt_isSome_iff {item : Item} {session : SessionId} {r : ReceiptRequest}
    {commit : Option CommitRecord} {now : Instant} (hv : r.valid commit now = true) :
    (checkpointReceipt item session r commit now).isSome ↔ receiptAllowed item session r := by
  cases commit with
  | none => simp [ReceiptRequest.valid] at hv
  | some c => simp [checkpointReceipt, hv]

end KiroCrew
