import KiroCrew.Control
import KiroCrew.Lib.Machine

/-!
# The record under all its writers

`System` is one sandbox record with its checkpoint catalog, the copies of the record that control
requests have read and may still act on, and the receipts the broker has issued. An event is one
atomic table operation: a broker call's conditional write, a control-plane read, one of its
conditional puts, or the targeted write of the wake subject. A control request is therefore a `read`
followed by a put of a decision made on that copy, with anything in between.

`System.claimed` is bookkeeping: the session under which each instance's claim was last applied.
-/

namespace KiroCrew

/-- A record operation of the broker, without the token. -/
inductive BrokerOp
  | acquireInit (owner : InstanceId)
  | heartbeatInit (owner : InstanceId) (progress : Option RestoreProgress)
  | heartbeatLease (holder : Option InstanceId) (served : Option Nat)
  | healReady
  | markReady (owner : InstanceId) (outcome : String)
  | markError (owner : Option InstanceId) (diagnostics : Diagnostics)
  | checkpointReceipt (request : ReceiptRequest) (commit : Option CommitRecord)
deriving DecidableEq, Repr

/-- A broker call: the session its token names, and the operation. -/
structure BrokerCall where
  session : SessionId
  op : BrokerOp
deriving DecidableEq, Repr

/-- The conditional write of a call; `none` when it is refused or rejected. -/
def BrokerCall.write (c : BrokerCall) (item : Item) (now : Instant) : Option Item :=
  match c.op with
  | .acquireInit owner => KiroCrew.acquireInit item c.session owner now
  | .heartbeatInit owner progress => KiroCrew.heartbeatInit item owner progress now
  | .heartbeatLease holder served => KiroCrew.heartbeatLease item c.session holder served now
  | .healReady => KiroCrew.healReady item c.session now
  | .markReady owner outcome => KiroCrew.markReady item c.session owner outcome now
  | .markError owner d => KiroCrew.markError item c.session owner d now
  | .checkpointReceipt r commit =>
    (KiroCrew.checkpointReceipt item c.session r commit now).map (·.1)

/-- A verified `_stop` request on its way to `transition`. -/
structure PendingStop where
  record : SandboxRecord
  receipt : ReceiptClaims
deriving DecidableEq, Repr

structure System where
  item : Item
  catalog : Nat → Option CheckpointItem := fun _ => none
  sessions : List SessionId := []
  reads : List SandboxRecord := []
  stops : List PendingStop := []
  issued : List ReceiptClaims := []
  claimed : InstanceId → Option SessionId := fun _ => none

inductive Event
  | call (c : BrokerCall) (subjectHash : String) (now : Instant)
  | read
  | acquireStart (record : SandboxRecord) (leaseOwner : SessionId) (ttl : Nat)
      (confirmedInactive : Bool)
      (rotated : SessionId) (now : Instant)
  | stop (record : SandboxRecord) (receipt : ReceiptClaims) (subjectHash : String) (now : Instant)
  | transition (pending : PendingStop) (record : SandboxRecord) (now : Instant)
  | requestDeletion (record : SandboxRecord) (now : Instant)
  | recordWakeSubject (sealed : String)
deriving DecidableEq, Repr

namespace System

/-- The bookkeeping of an applied call. -/
def applied (s : System) (c : BrokerCall) (subjectHash : String) (now : Instant) (item : Item) :
    System :=
  match c.op with
  | .acquireInit owner =>
    { s with item := item, claimed := Function.update s.claimed owner (some c.session) }
  | .checkpointReceipt r commit =>
    { s with
      item := item
      catalog := Function.update s.catalog r.generation
        ((KiroCrew.checkpointReceipt s.item c.session r commit now).map (·.2))
      issued := r.claims c.session s.item.sandboxId subjectHash now :: s.issued }
  | _ => { s with item := item }

/-- The put of a control request; a failed condition leaves the table alone. -/
def put (s : System) (previous updated : SandboxRecord) : System :=
  match putUpdated s.item previous updated with
  | none => s
  | some item => { s with item := item }

/-- One event; `none` when the event is not possible at this state. -/
def step (s : System) : Event → Option System
  | .call c subjectHash now =>
    match c.write s.item now with
    | none => some s
    | some item => some (s.applied c subjectHash now item)
  | .read => some { s with reads := s.item.record :: s.reads }
  | .acquireStart record leaseOwner ttl confirmedInactive rotated now =>
    if record ∈ s.reads ∧ rotated ∉ s.sessions then
      match KiroCrew.acquireStart record leaseOwner ttl confirmedInactive rotated now with
      | .rotate updated => some { s.put record updated with sessions := rotated :: s.sessions }
      | _ => some s
    else none
  | .stop record receipt subjectHash now =>
    if record ∈ s.reads ∧ receipt ∈ s.issued ∧
      verifyCheckpointReceipt receipt subjectHash record now = true ∧
        stopAllowed record (s.catalog receipt.generation) receipt = true then
      some { s with stops := ⟨record, receipt⟩ :: s.stops }
    else none
  | .transition pending record now =>
    if pending ∈ s.stops ∧ record ∈ s.reads then
      match KiroCrew.transition record pending.record.stateVersion
        pending.record.leaseOwner now with
      | none => some s
      | some updated => some (s.put record updated)
    else none
  | .requestDeletion record now =>
    if record ∈ s.reads then
      match KiroCrew.requestDeletion record now with
      | none => some s
      | some updated => some (s.put record updated)
    else none
  | .recordWakeSubject sealed =>
    some { s with item := { s.item with wakeSubject := some sealed } }

/-- The table after `get_or_create`. -/
def init (ownerHash sandboxId : String) (session : SessionId) (version : String) (now : Instant) :
    System where
  item := (newRecord ownerHash sandboxId session version now).item
  sessions := [session]

/-- Reached from a newly created record. -/
def Reachable (s : System) : Prop :=
  ∃ ownerHash sandboxId session version now,
    Machine.Reaches step Machine.Any (init ownerHash sandboxId session version now) s

end System

end KiroCrew
