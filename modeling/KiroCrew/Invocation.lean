import KiroCrew.Transport

/-!
# Invocations of the adapter

A request reaches the adapter over HTTP (`_invocations`, answered as a list of events or streamed)
or over a WebSocket (`_websocket`), after its authorization and the session's initialization. The
idempotency window keeps one digest for a request id; a new request runs on the backend, in attempts
that each yield events and end, and a repeated one is answered from the buffer. `Execution` is one
request on the backend with its two retry loops, `Adapter` the window, the buffer and all
executions; `Adapter.step` is any order of arrivals and of what the backend does. A client that
leaves its stream, which ends the execution without an answer, is not modelled.
-/

namespace KiroCrew

open Json (Value)

/-- How a request comes and how it wants its events. -/
inductive Channel
  | list | stream | webSocket
deriving DecidableEq, Repr

/-- A request that has passed authorization and initialization; a `ping` over a WebSocket is
answered before. -/
structure Request where
  channel : Channel
  requestId : Str
  operation : Str
  /-- the payload; over a WebSocket without `lastEventId` -/
  payload : Fields
  /-- the verified token, base64url text -/
  bindingToken : Str
  /-- the event to resume after, `-1` when not given; `none` when it is no valid id -/
  lastEventId : Option ℤ
  token_safe : bindingToken.safe = true

inductive Answer
  | list (events : List RuntimeEvent)
  | error (error : RequestError)
  /-- a stream with status 200; `failure` is an exception raised after its head was sent, which
  breaks it off without an error event -/
  | stream (events : List RuntimeEvent) (failure : Option ErrorCode)
  /-- frames of a WebSocket, the last one possibly an error -/
  | frames (events : List RuntimeEvent) (failure : Option ErrorCode)

/-! ## The idempotency window -/

/-- The value that `_invocations` or `_websocket` gives to `IdempotencyWindow.check`. -/
def Request.invocation (q : Request) : Value :=
  match q.channel with
  | .webSocket =>
    .obj [(Str.ofString "operation", .str q.operation), (Str.ofString "payload", .obj q.payload),
      (Str.ofString "requestId", .str q.requestId)]
  | _ => .obj [(Str.ofString "version", .str (Str.ofString "kirocrew-agentcore.v1")),
      (Str.ofString "requestId", .str q.requestId),
      (Str.ofString "bindingToken", .str q.bindingToken),
      (Str.ofString "operation", .str q.operation), (Str.ofString "payload", .obj q.payload)]

def Request.encoded (q : Request) : Str := Json.dumps (Json.sortKeys q.invocation)

inductive IdempotencyResult
  | new | duplicate
deriving DecidableEq, Repr

/-- `IdempotencyWindow.check`; `none` is the `IDEMPOTENCY_CONFLICT`. -/
def idempotencyCheck {δ : Type} [DecidableEq δ] (sha : Str → δ) (digests : Dict Str δ)
    (q : Request) :
    Option (IdempotencyResult × Dict Str δ) :=
  match digests.get? q.requestId with
  | none => some (.new, digests.set q.requestId (sha q.encoded))
  | some existing => if existing = sha q.encoded then some (.duplicate, digests) else none

/-! ## Sending over a WebSocket -/

def framePayloadLimit : Nat := 24 * 1024

def RuntimeEvent.fits (st : EventStamps) (event : RuntimeEvent) : Bool :=
  decide ((Json.dumps (Json.sortKeys (event.envelope (st.messageId event.eventId)))).length ≤
    framePayloadLimit)

/-- The events sent one by one, up to the first that is too large. -/
def sendEvents (st : EventStamps) : List RuntimeEvent → List RuntimeEvent × Option ErrorCode
  | [] => ([], none)
  | event :: events =>
    if event.fits st then ((event :: (sendEvents st events).1), (sendEvents st events).2)
      else ([], some .frameTooLarge)

theorem sendEvents_of_fits {st : EventStamps} {events : List RuntimeEvent}
    (h : ∀ event ∈ events, event.fits st = true) :
    sendEvents st events = (events, none) := by
  induction events with
  | nil => rfl
  | cons event events ih =>
    obtain ⟨hfits, hrest⟩ := List.forall_mem_cons.1 h
    rw [sendEvents, if_pos hfits, ih hrest]

theorem fits_of_sendEvents {st : EventStamps} {events : List RuntimeEvent}
    (h : (sendEvents st events).2 = none) :
    ∀ event ∈ events, event.fits st = true := by
  induction events with
  | nil => simp
  | cons event events ih =>
    rw [sendEvents] at h
    split_ifs at h with hfits
    exact List.forall_mem_cons.2 ⟨hfits, ih h⟩

theorem sendEvents_eq_some_iff {st : EventStamps} {events : List RuntimeEvent} {code : ErrorCode} :
    (sendEvents st events).2 = some code ↔ code = .frameTooLarge ∧ ∃ event ∈ events,
    event.fits st = false := by
  induction events with
  | nil => simp [sendEvents]
  | cons event events ih =>
    rw [sendEvents]
    cases hfits : event.fits st with
    | false =>
      rw [if_neg Bool.false_ne_true]
      constructor
      · rintro ⟨⟩
        exact ⟨rfl, event, List.mem_cons_self, hfits⟩
      · rintro ⟨rfl, _⟩
        rfl
    | true =>
      rw [if_pos rfl, ih]
      constructor
      · rintro ⟨hcode, large, hmem, hlarge⟩
        exact ⟨hcode, large, List.mem_cons_of_mem _ hmem, hlarge⟩
      · rintro ⟨hcode, large, hmem, hlarge⟩
        rcases List.mem_cons.1 hmem with rfl | hmem
        · rw [hfits] at hlarge
          cases hlarge
        · exact ⟨hcode, large, hmem, hlarge⟩

/-! ## One request on the backend -/

/-- How one attempt of the backend ends: `TransientBackendError` and `AdapterRequestError` are its
exceptions. -/
inductive Ending
  | completed
  | transient
  | failed (error : RequestError)
deriving DecidableEq, Repr

/-- A request while the backend works on it, and its answer when it is done. -/
structure Execution where
  request : Request
  attempt : Nat := 0
  cursor : ℤ
  sent : List RuntimeEvent := []
  answer : Option Answer := none
  /-- what was appended, for the proofs -/
  appended : List Frame := []

/-- The error of exhausted retries. -/
def unavailable : RequestError :=
  ⟨503, .kirocrewUnavailable, .kirocrew, "The runtime backend is temporarily unavailable.", true⟩

/-- The payload of the in-band error, `_error_value` of `unavailable`. -/
def unavailablePayload (correlationId : Str) : Fields :=
  [(Str.ofString "code", .str (Str.ofString "KIROCREW_UNAVAILABLE")),
    (Str.ofString "category", .str (Str.ofString "KIROCREW")),
    (Str.ofString "message", .str (Str.ofString "The runtime backend is temporarily unavailable.")),
    (Str.ofString "retryable", .bool true), (Str.ofString "correlationId", .str correlationId)]

namespace Execution

def start (q : Request) : Execution where
  request := q
  cursor := q.lastEventId.getD (-1)

/-- An event is appended; a stream sends what is new in the buffer. -/
def emit (st : EventStamps) (b : EventBuffer) (x : Execution) (operation : Str) (payload : Fields) :
    EventBuffer × Execution :=
  let b := b.appendPayload st x.request.requestId operation payload
  let x := { x with appended := x.appended ++ (framePayloads payload).map (operation, ·) }
  match x.request.channel with
  | .stream =>
    let news := b.after x.request.requestId x.cursor
    (b, { x with
      sent := x.sent ++ news
      cursor := (news.getLast?.map fun event => (event.eventId : ℤ)).getD x.cursor })
  | _ => (b, x)

/-- The answer when `_execute` or `_stream_live` returns. -/
def finished (st : EventStamps) (b : EventBuffer) (x : Execution) : Answer :=
  match x.request.channel with
  | .stream => .stream x.sent none
  | .list => .list (b.after x.request.requestId (x.request.lastEventId.getD (-1)))
  | .webSocket =>
    match x.request.lastEventId with
    | none => .frames [] (some .invalidMessage)
    | some n =>
      let (events, failure) := sendEvents st (b.after x.request.requestId n)
      .frames events failure

/-- The answer when an error leaves `_execute` or `_stream_live`. -/
def raised (x : Execution) (error : RequestError) : Answer :=
  match x.request.channel with
  | .stream => .stream x.sent (some error.code)
  | .list => .error error
  | .webSocket => .frames [] (some error.code)

def finish (st : EventStamps) (maxAttempts : Nat) (b : EventBuffer) (x : Execution) : Ending →
    EventBuffer × Execution
  | .completed => (b, { x with answer := some (x.finished st b) })
  | .failed error => (b, { x with answer := some (x.raised error) })
  | .transient =>
    let x := { x with attempt := x.attempt + 1 }
    match x.request.channel with
    | .stream =>
      if x.request.lastEventId.getD (-1) < x.cursor ∨ x.attempt = maxAttempts then
        let (b, x) := x.emit st b (Str.ofString "error") (unavailablePayload st.correlationId)
        (b, { x with answer := some (x.finished st b) })
      else (b, x)
    | _ => if x.attempt = maxAttempts then (b, { x with answer := some (x.raised unavailable) })
        else (b, x)

end Execution

/-! ## The adapter -/

/-- The window, the buffer and what the backend was asked to do. -/
structure Adapter (δ : Type) where
  digests : Dict Str δ := []
  buffer : EventBuffer := {}
  executions : Dict Str Execution := []

namespace Adapter

variable {δ : Type} [DecidableEq δ]

/-- An error before the backend is asked. -/
def refused (q : Request) (error : RequestError) : Answer :=
  match q.channel with
  | .webSocket => .frames [] (some error.code)
  | _ => .error error

def conflict : RequestError :=
  ⟨400, .idempotencyConflict, .transport, "Request ID was reused with another payload.", false⟩

def badLastEventId : RequestError :=
  ⟨400, .invalidMessage, .transport, "Last-Event-ID is invalid.", false⟩

def noTarget : RequestError :=
  ⟨400, .invalidMessage, .transport, "Cancellation request ID is required.", false⟩

def replay (st : EventStamps) (b : EventBuffer) (q : Request) : Answer :=
  match q.channel, q.lastEventId with
  | .list, none | .stream, none => .error badLastEventId
  | .list, some n => .list (b.after q.requestId n)
  | .stream, some n => .stream (b.after q.requestId n) none
  | .webSocket, none => .frames [] (some .invalidMessage)
  | .webSocket, some n =>
    let (events, failure) := sendEvents st (b.after q.requestId n)
    .frames events failure

/-- `payload.get("requestId")` when it is a string. -/
def target (q : Request) : Option Str :=
  match Value.get q.payload (Str.ofString "requestId") with
  | some (.str target) => some target
  | _ => none

/-- The answer to a new request without asking the backend. -/
def rejection (q : Request) : Option Answer :=
  if q.channel ≠ .webSocket ∧ q.lastEventId = none then some (.error badLastEventId)
  else if q.operation = Str.ofString "chat.cancel" ∧ target q = none then some (refused q noTarget)
  else none

/-- A request reaches the window. A repeated one is answered at once (the second component); the
answer of a new one is that of its execution. -/
def arrive (sha : Str → δ) (stamps : Str → EventStamps) (s : Adapter δ) (q : Request) :
    Adapter δ × Option Answer :=
  match idempotencyCheck sha s.digests q with
  | none => (s, some (refused q conflict))
  | some (.duplicate, _) => (s, some (replay (stamps q.requestId) s.buffer q))
  | some (.new, digests) =>
    ({ s with
      digests := digests
      executions := s.executions.set q.requestId { Execution.start q with answer := rejection q } },
        none)

/-- `cancel` of the backend has returned for a `chat.cancel`. -/
def cancelled (st : EventStamps) (b : EventBuffer) (x : Execution) (target : Str)
    (cancelled : Bool) :
    EventBuffer × Execution :=
  let payload : Fields :=
    [(Str.ofString "cancelled", .bool cancelled), (Str.ofString "targetRequestId", .str target)]
  let b := b.appendPayload st x.request.requestId (Str.ofString "request.completed") payload
  (b, { x with
    appended := x.appended ++ (framePayloads payload).map (Str.ofString "request.completed", ·)
    answer := some (replay st b x.request) })

/-- A request arrives, the backend yields an event or ends an attempt of a request, or it has
cancelled one. -/
inductive Event
  | arrive (q : Request)
  | emit (requestId operation : Str) (payload : Fields)
  | finish (requestId : Str) (ending : Ending)
  | cancelled (requestId : Str) (cancelled : Bool)

def pending (s : Adapter δ) (requestId : Str) : Option Execution :=
  (s.executions.get? requestId).filter fun x => x.answer.isNone

def executing (s : Adapter δ) (requestId : Str) : Option Execution :=
  (s.pending requestId).filter fun x => decide (x.request.operation ≠ Str.ofString "chat.cancel")

def cancelling (s : Adapter δ) (requestId : Str) : Option Execution :=
  (s.pending requestId).filter fun x => decide (x.request.operation = Str.ofString "chat.cancel")

/-- The buffer and the execution of `requestId` after a step of it. -/
def put (s : Adapter δ) (requestId : Str) (next : EventBuffer × Execution) : Adapter δ :=
  { s with buffer := next.1, executions := s.executions.set requestId next.2 }

def step (sha : Str → δ) (stamps : Str → EventStamps) (maxAttempts : Nat) (s : Adapter δ) : Event →
    Option (Adapter δ)
  | .arrive q => some (s.arrive sha stamps q).1
  | .emit r operation payload => (s.executing r).map fun x =>
    s.put r (x.emit (stamps r) s.buffer operation payload)
  | .finish r ending => (s.executing r).map fun x =>
    s.put r (x.finish (stamps r) maxAttempts s.buffer ending)
  | .cancelled r done => (s.cancelling r).bind fun x => (target x.request).map fun other =>
    s.put r (cancelled (stamps r) s.buffer x other done)

end Adapter

end KiroCrew
