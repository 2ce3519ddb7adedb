import KiroCrew.Fencing
import KiroCrew.Store

/-!
# Containers over the record and the bucket

`World` is one sandbox: its record under all its writers (`System`), its objects in the bucket, and
any number of runtime containers. A container reads the record, claims initialization, restores, is
marked ready and then runs checkpoints, one at a time: it takes the next generation number, puts the
manifest, checks and puts the commit, and sends the receipt. Each of these is an event of its own,
so anything can happen between two of them; after any of them the container may fail (`fail`) or die
(`crash`). `answered` says whether the response of a broker call reached the container.

`Container.head` is the generation its working copy descends from: the one it restored or last
committed. `World.parent` records that generation for each commit, `World.accepted` the generations
whose receipts the broker accepted, newest first, and `Container.lost` that a receipt was applied
and its response was not received. The program keeps none of these.
-/

namespace KiroCrew

inductive Phase
  | idle
  /-- The record was read: the generation it points to. -/
  | read (expected : Option Nat)
  /-- `acquireInit` was applied. -/
  | claimed (expected : Option Nat)
  | restored
  /-- Marked ready, no checkpoint running. -/
  | serving
  /-- `next_generation` was computed. -/
  | numbered (generation : Nat)
  | uploaded (generation : Nat) (digest : Digest)
  /-- The checks of `commit_generation` passed. -/
  | checked (generation : Nat) (digest : Digest)
  | committed (generation : Nat) (digest : Digest)
  | exited
deriving DecidableEq, Repr

/-- What a failed attempt leaves: an initialization is given up, a checkpoint is over. -/
def Phase.afterFailure : Phase → Phase
  | .idle | .read _ | .claimed _ | .restored => .idle
  | .serving | .numbered _ | .uploaded _ _ | .checked _ _ | .committed _ _ => .serving
  | .exited => .exited

structure Container where
  session : SessionId := ⟨0⟩
  phase : Phase := .idle
  /-- `base_generation` -/
  base : Nat := 0
  head : Option Nat := none
  lost : Bool := false
deriving DecidableEq, Repr

structure World where
  sys : System
  objects : Objects Unit := {}
  containers : InstanceId → Container := fun _ => {}
  parent : Nat → Option Nat := fun _ => none
  accepted : List Nat := []

namespace World

inductive Event
  /-- A write of the control plane or a broker call that is neither a claim, a `markReady` nor a
  receipt. -/
  | other (e : KiroCrew.Event)
  | readRecord (A : InstanceId) (session : SessionId)
  | acquire (A : InstanceId) (now : Instant) (answered : Bool)
  | restore (A : InstanceId) (fallback : Bool)
  | markReady (A : InstanceId) (outcome : String) (now : Instant) (answered : Bool)
  | number (A : InstanceId)
  | putManifest (A : InstanceId) (digest : Digest)
  | check (A : InstanceId)
  | putCommit (A : InstanceId) (committedAt : Instant)
  | receipt (A : InstanceId) (final : Bool) (hints : ScheduleHints) (now : Instant)
      (answered : Bool)
  | fail (A : InstanceId)
  | crash (A : InstanceId)
deriving DecidableEq, Repr

/-- The events of the record that are not one of a container's own steps. -/
def plain : KiroCrew.Event → Bool
  | .call ⟨_, .acquireInit _⟩ _ _ | .call ⟨_, .markReady _ _⟩ _ _ | .call
      ⟨_, .checkpointReceipt _ _⟩ _ _ => false
  | _ => true

/-- Update one container. -/
def set (w : World) (A : InstanceId) (c : Container) : World :=
  { w with containers := Function.update w.containers A c }

/-- Put a container into a phase. -/
def goto (w : World) (A : InstanceId) (phase : Phase) : World :=
  w.set A { w.containers A with phase := phase }

/-- The conditional write of a broker call. -/
def send (w : World) (c : BrokerCall) (now : Instant) : World :=
  match c.write w.sys.item now with
  | none => w
  | some item => { w with sys := w.sys.applied c "" now item }

/-- The call's conditional write is applied. -/
def applies (w : World) (c : BrokerCall) (now : Instant) : Bool := (c.write w.sys.item now).isSome

/-- The call of `acquire_init`. -/
def claimCall (w : World) (A : InstanceId) : BrokerCall :=
  ⟨(w.containers A).session, .acquireInit A⟩

/-- The call of `mark_ready`. -/
def readyCall (w : World) (A : InstanceId) (outcome : String) : BrokerCall :=
  ⟨(w.containers A).session, .markReady A outcome⟩

/-- The request of `LambdaBrokerClient.checkpoint_receipt`. -/
def receiptRequest (w : World) (A : InstanceId) (generation : Nat) (digest : Digest) (final : Bool)
    (hints : ScheduleHints) : ReceiptRequest where
  generation := generation
  manifestDigest := digest
  final := final
  baseGeneration := some (w.containers A).base
  holderInstance := some A
  hints := hints

def receiptCall (w : World) (A : InstanceId) (generation : Nat) (digest : Digest) (final : Bool)
    (hints : ScheduleHints) : BrokerCall :=
  ⟨(w.containers A).session,
    .checkpointReceipt (w.receiptRequest A generation digest final hints)
    (w.objects.commit? generation)⟩

/-- The generation `restore` installs: the newest, or the one before when the newest is
unreadable. -/
def installed (w : World) (fallback : Bool) : Option Nat :=
  if fallback then w.objects.newestButOne else w.objects.newest

/-- `_initialize_sync` from the listing to `base_generation`; `expected` is the pointer read
before. -/
def restored (w : World) (A : InstanceId) (expected : Option Nat) (fallback : Bool) : World :=
  match w.objects.newest with
  | none =>
    if expected = none ∧ fallback = false then
      w.set A { w.containers A with phase := .restored, base := 0, head := none, lost := false }
    else w.goto A .idle
  | some newest =>
    if expected.any (newest < ·) then w.goto A .idle
    else
      match w.installed fallback with
      | none => w.goto A .idle
      | some g => w.set A { w.containers A with
          phase := .restored
          base := newest
          head := some g
          lost := false }

/-- One event; `none` when the event is not possible at this state. -/
def step (w : World) : Event → Option World
  | .other e => if plain e then (w.sys.step e).map fun sys => { w with sys := sys } else none
  | .readRecord A session =>
    match (w.containers A).phase with
    | .idle =>
      -- `_initialize_sync` refuses when the record names another session
      if w.sys.item.runtimeSessionId = session then
        some (w.set A { w.containers A with
            session := session
            phase := .read w.sys.item.lastCheckpointGeneration })
      else some w
    | _ => none
  | .acquire A now answered =>
    match (w.containers A).phase with
    | .read expected =>
      some ((w.send (w.claimCall A) now).goto A
        (if w.applies (w.claimCall A) now && answered then .claimed expected else .idle))
    | _ => none
  | .restore A fallback =>
    match (w.containers A).phase with
    | .claimed expected => some (w.restored A expected fallback)
    | _ => none
  | .markReady A outcome now answered =>
    match (w.containers A).phase with
    | .restored =>
      some ((w.send (w.readyCall A outcome) now).goto A
        (if w.applies (w.readyCall A outcome) now && answered then .serving else .idle))
    | _ => none
  | .number A =>
    match (w.containers A).phase with
    | .serving => some (w.goto A (.numbered w.objects.nextGeneration))
    | _ => none
  | .putManifest A digest =>
    match (w.containers A).phase with
    | .numbered g =>
      match w.objects.putManifest g ⟨digest, ()⟩ with
      | none => some (w.goto A .serving)
      | some objects => some ({ w with objects := objects }.goto A (.uploaded g digest))
    | _ => none
  | .check A =>
    match (w.containers A).phase with
    | .uploaded g digest =>
      some (w.goto A (if w.objects.commitReady g digest then .checked g digest else .serving))
    | _ => none
  | .putCommit A committedAt =>
    match (w.containers A).phase with
    | .checked g digest =>
      match w.objects.putCommit ⟨g, digest, committedAt⟩ with
      | none => some (w.goto A .serving)
      | some objects =>
        some ({ w with objects := objects,
                       parent := Function.update w.parent g (w.containers A).head }.set A
          { w.containers A with phase := .committed g digest, head := some g })
    | _ => none
  | .receipt A final hints now answered =>
    match (w.containers A).phase with
    | .committed g digest =>
      let call := w.receiptCall A g digest final hints
      if w.applies call now then
        some ({ w.send call now with accepted := g :: w.accepted }.set A
          { w.containers A with
            phase := .serving
            base := if answered then g else (w.containers A).base
            lost := (w.containers A).lost || !answered })
      else some (w.goto A .serving)
    | _ => none
  | .fail A => some (w.goto A (w.containers A).phase.afterFailure)
  | .crash A => some (w.goto A .exited)

/-- A sandbox whose record was just created. -/
def init (ownerHash sandboxId : String) (session : SessionId) (version : String) (now : Instant) :
    World where
  sys := System.init ownerHash sandboxId session version now

def Reachable (w : World) : Prop :=
  ∃ ownerHash sandboxId session version now,
    Machine.Reaches step Machine.Any (init ownerHash sandboxId session version now) w

end World

end KiroCrew
