import KiroCrew.Lib.Bytes
import KiroCrew.Lib.Dict
import KiroCrew.Lib.JsonText

/-!
# The adapter's events

The backend yields events `(operation, payload)`. `_append` splits a payload whose JSON exceeds 16
KiB into chunk payloads and appends each to the buffer of its request, which numbers the events and
keeps the last 512. `RuntimeEvent.envelope` is what goes over the wire; the correlation id, the
clock and the ULIDs drawn for it are a `EventStamps`. `Holds` says what the buffer has after a list
of appended payloads.
-/

namespace KiroCrew

open Json (Value)

/-- A JSON object as the source's `Mapping[str, object]`. -/
abbrev Fields := List (Str × Value)

inductive ErrorCode
  | invalidMessage | unsupportedProtocol | frameTooLarge | sequenceError | idempotencyConflict
  | authenticationFailed | authorizationFailed | bindingMismatch | sandboxConflict
  | checkpointFailed
  | persistenceRestoreFailed | kiroAuthRequired | kirocrewUnavailable
  | featureUnavailableInAgentcore
  | throttled | internalError
deriving DecidableEq, Repr

inductive ErrorCategory
  | authentication | authorization | binding | lifecycle | provisioning | transport | kiroAuth
  | kirocrew
  | persistence | throttling | internal
deriving DecidableEq, Repr

def ErrorCode.text : ErrorCode → String
  | .invalidMessage => "INVALID_MESSAGE"
  | .unsupportedProtocol => "UNSUPPORTED_PROTOCOL"
  | .frameTooLarge => "FRAME_TOO_LARGE"
  | .sequenceError => "SEQUENCE_ERROR"
  | .idempotencyConflict => "IDEMPOTENCY_CONFLICT"
  | .authenticationFailed => "AUTHENTICATION_FAILED"
  | .authorizationFailed => "AUTHORIZATION_FAILED"
  | .bindingMismatch => "BINDING_MISMATCH"
  | .sandboxConflict => "SANDBOX_CONFLICT"
  | .checkpointFailed => "CHECKPOINT_FAILED"
  | .persistenceRestoreFailed => "PERSISTENCE_RESTORE_FAILED"
  | .kiroAuthRequired => "KIRO_AUTH_REQUIRED"
  | .kirocrewUnavailable => "KIROCREW_UNAVAILABLE"
  | .featureUnavailableInAgentcore => "FEATURE_UNAVAILABLE_IN_AGENTCORE"
  | .throttled => "THROTTLED"
  | .internalError => "INTERNAL_ERROR"

/-- `AdapterRequestError` -/
structure RequestError where
  status : Nat
  code : ErrorCode
  category : ErrorCategory
  message : String
  retryable : Bool := false
deriving DecidableEq, Repr

structure RuntimeEvent where
  eventId : Nat
  requestId : Option Str
  operation : Str
  payload : Fields
  correlationId : Str
  timestamp : Str

/-- `len(value) == 26 and all(character in _ULID_ALPHABET for character in value)` -/
def isUlid (s : Str) : Bool :=
  decide (s.length = 26) && s.all fun c =>
    decide (c ∈ Str.ofString "0123456789ABCDEFGHJKMNPQRSTVWXYZ")

/-- What the adapter puts on the events of one request besides the backend's data: its correlation
id, the clock when event `n` is appended and the ULID drawn when it is sent. -/
structure EventStamps where
  correlationId : Str
  timestamp : Nat → Str
  messageId : Nat → Str
  ulid : isUlid correlationId = true

/-- The correlation id of 26 zeros, and no times. -/
def blankStamps : EventStamps := ⟨List.replicate 26 48, fun _ => [], fun _ => [], by decide⟩

def RuntimeEvent.envelope (event : RuntimeEvent) (messageId : Str) : Value :=
  .obj [(Str.ofString "correlationId", .str event.correlationId),
    (Str.ofString "messageId", .str messageId),
    (Str.ofString "operation", .str event.operation), (Str.ofString "payload", .obj event.payload),
    (Str.ofString "requestId", match event.requestId with
      | some r => .str r
      | none => .null),
    (Str.ofString "sequence", .int event.eventId), (Str.ofString "timestamp", .str event.timestamp),
    (Str.ofString "version", .str (Str.ofString "kirocrew-agentcore.v1"))]

/-! ## Chunks -/

structure FrameChunk where
  index : Nat
  total : Nat
  data : List Nat
deriving DecidableEq, Repr

def chunkParts (payload : List Nat) (limit : Nat) : List (List Nat) :=
  (List.range ((payload.length + limit - 1) / limit)).map fun i =>
    (payload.drop (i * limit)).take limit

def chunkPayload (payload : List Nat) (limit : Nat) : List FrameChunk :=
  let parts := if payload = [] then [[]] else chunkParts payload limit
  parts.mapIdx fun i data => ⟨i, parts.length, data⟩

def eventChunkBytes : Nat := 16 * 1024

/-- `json.dumps(dict(payload), sort_keys=True, separators=(",", ":")).encode()`, ASCII text -/
def encodePayload (payload : Fields) : List Nat := Json.dumps (Json.sortKeys (.obj payload))

def FrameChunk.payload (chunk : FrameChunk) : Fields :=
  [(Str.ofString "chunkData", .str (Base64.encode chunk.data)),
    (Str.ofString "chunkIndex", .int chunk.index),
    (Str.ofString "chunkTotal", .int chunk.total)]

/-- The payloads under which `_append` puts one payload into the buffer. -/
def framePayloads (payload : Fields) : List Fields :=
  let chunks := chunkPayload (encodePayload payload) eventChunkBytes
  if chunks.length = 1 then [payload] else chunks.map FrameChunk.payload

/-! ## The buffer -/

/-- `max_events` of the `EventBuffer` -/
def maxEvents : Nat := 512

def lastN {α : Type*} (n : Nat) (xs : List α) : List α := xs.drop (xs.length - n)

structure EventBuffer where
  events : Dict Str (List RuntimeEvent) := []
  next : Dict Str Nat := []

namespace EventBuffer

def append (b : EventBuffer) (st : EventStamps) (requestId operation : Str) (payload : Fields) :
    EventBuffer :=
  let sequence := (b.next.get? requestId).getD 0
  let event : RuntimeEvent :=
    ⟨sequence, some requestId, operation, payload, st.correlationId, st.timestamp sequence⟩
  { next := b.next.set requestId (sequence + 1)
    events :=
      b.events.set requestId (lastN maxEvents ((b.events.get? requestId).getD [] ++ [event])) }

def all (b : EventBuffer) (requestId : Str) : List RuntimeEvent := (b.events.get? requestId).getD []

def after (b : EventBuffer) (requestId : Str) (eventId : ℤ) : List RuntimeEvent :=
  (b.all requestId).filter fun event => decide (eventId < event.eventId)

/-- `_append` -/
def appendPayload (b : EventBuffer) (st : EventStamps) (requestId operation : Str)
    (payload : Fields) : EventBuffer :=
  (framePayloads payload).foldl (fun b p => b.append st requestId operation p) b

/-- The events of one attempt, appended by `_execute`. -/
def appendEvents (b : EventBuffer) (st : EventStamps) (requestId : Str)
    (events : List (Str × Fields)) : EventBuffer :=
  events.foldl (fun b (operation, payload) => b.appendPayload st requestId operation payload) b

end EventBuffer

abbrev Frame := Str × Fields

/-- The frames of the events a backend yields. -/
def frames (events : List (Str × Fields)) : List Frame :=
  events.flatMap fun (operation, payload) => (framePayloads payload).map (operation, ·)

/-- The events of a request that appended `fs`, before the buffer drops any. -/
def numbered (st : EventStamps) (requestId : Str) (fs : List Frame) : List RuntimeEvent :=
  fs.mapIdx fun i (operation, payload) =>
    ⟨i, some requestId, operation, payload, st.correlationId, st.timestamp i⟩

theorem lastN_of_le {α : Type*} {n : Nat} {xs : List α} (h : xs.length ≤ n) : lastN n xs = xs := by
  rw [lastN, Nat.sub_eq_zero_of_le h, List.drop_zero]

/-- What a bounded deque forgot it would also have forgotten later. -/
theorem lastN_append_lastN {α : Type*} (n : Nat) (xs ys : List α) : lastN n (lastN n xs ++ ys) =
    lastN n (xs ++ ys) := by
  have happend : lastN n xs ++ ys = (xs ++ ys).drop (xs.length - n) := by
    rw [lastN, List.drop_append_of_le_length (Nat.sub_le _ _)]
  rw [happend]
  simp only [lastN, List.drop_drop, List.length_drop, List.length_append]
  congr 1
  omega

theorem numbered_append (st : EventStamps) (r operation : Str) (payload : Fields)
    (fs : List Frame) :
    numbered st r (fs ++ [(operation, payload)]) = numbered st r fs ++
      [⟨fs.length, some r, operation, payload, st.correlationId, st.timestamp fs.length⟩] := by
  simp [numbered, List.mapIdx_append]

@[simp] theorem length_numbered (st : EventStamps) (r : Str) (fs : List Frame) :
    (numbered st r fs).length = fs.length := by
  simp [numbered]

structure Holds (st : EventStamps) (r : Str) (fs : List Frame) (b : EventBuffer) : Prop where
  all : b.all r = lastN maxEvents (numbered st r fs)
  next : (b.next.get? r).getD 0 = fs.length

namespace Holds

variable {st st' : EventStamps} {r r' operation : Str} {payload : Fields} {fs : List Frame}
    {b : EventBuffer}

theorem empty (st : EventStamps) (r : Str) : Holds st r [] {} := by
  refine ⟨?_, rfl⟩
  rw [lastN_of_le (by simp [maxEvents])]
  rfl

theorem append (h : Holds st r fs b) (operation : Str) (payload : Fields) :
    Holds st r (fs ++ [(operation, payload)]) (b.append st r operation payload) := by
  constructor
  · show (Dict.get? (Dict.set b.events r _) r).getD [] = _
    rw [Dict.get?_set_self, Option.getD_some, h.next, numbered_append, ← lastN_append_lastN _
      (numbered st r fs), ← h.all]
    rfl
  · show (Dict.get? (Dict.set b.next r _) r).getD 0 = _
    rw [Dict.get?_set_self, Option.getD_some, h.next, List.length_append, List.length_singleton]

theorem append_of_ne (h : Holds st r fs b) (hr : r ≠ r') :
    Holds st r fs (b.append st' r' operation payload) := by
  constructor
  · show (Dict.get? (Dict.set b.events r' _) r).getD [] = _
    rw [Dict.get?_set_of_ne _ _ hr]
    exact h.all
  · show (Dict.get? (Dict.set b.next r' _) r).getD 0 = _
    rw [Dict.get?_set_of_ne _ _ hr]
    exact h.next

theorem appendPayload (h : Holds st r fs b) (operation : Str) (payload : Fields) :
    Holds st r (fs ++ (framePayloads payload).map (operation, ·))
      (b.appendPayload st r operation payload) := by
  unfold EventBuffer.appendPayload
  generalize framePayloads payload = ps
  induction ps generalizing fs b with
  | nil => simpa using h
  | cons p ps ih => simpa using ih (h.append operation p)

theorem appendPayload_of_ne (h : Holds st r fs b) (hr : r ≠ r') :
    Holds st r fs (b.appendPayload st' r' operation payload) := by
  unfold EventBuffer.appendPayload
  generalize framePayloads payload = ps
  induction ps generalizing b with
  | nil => exact h
  | cons p ps ih => exact ih (h.append_of_ne hr)

theorem appendEvents (h : Holds st r fs b) (events : List (Str × Fields)) :
    Holds st r (fs ++ frames events) (b.appendEvents st r events) := by
  induction events generalizing fs b with
  | nil => simpa [frames, EventBuffer.appendEvents] using h
  | cons e events ih => simpa [frames, EventBuffer.appendEvents] using ih (h.appendPayload e.1 e.2)

theorem eventId_numbered {i : Nat} (h : i < (numbered st r fs).length) :
    (numbered st r fs)[i].eventId = i := by
  simp [numbered]

theorem le_eventId_of_mem_drop {n : Nat} {event : RuntimeEvent}
    (h : event ∈ (numbered st r fs).drop n) :
    n ≤ event.eventId := by
  obtain ⟨i, hi, rfl⟩ := List.mem_drop_iff_getElem.1 h
  rw [eventId_numbered]
  omega

theorem eventId_lt_of_mem_take {n : Nat} {event : RuntimeEvent}
    (h : event ∈ (numbered st r fs).take n) :
    event.eventId < n := by
  obtain ⟨i, hi, rfl⟩ := List.mem_take_iff_getElem.1 h
  rw [eventId_numbered]
  omega

/-- What the buffer gives after event `n`: neither what it has dropped nor the events up to `n`. -/
theorem after_eq (h : Holds st r fs b) (n : ℤ) :
    b.after r n = (numbered st r fs).drop (max (fs.length - maxEvents) (n + 1).toNat) := by
  have hlength : (numbered st r fs).length = fs.length := length_numbered st r fs
  rw [EventBuffer.after, h.all, lastN, hlength]
  rcases Nat.le_total (n + 1).toNat (fs.length - maxEvents) with hle | hle
  · rw [Nat.max_eq_left hle, List.filter_eq_self]
    intro event hevent
    have := le_eventId_of_mem_drop hevent
    simp only [decide_eq_true_eq]
    omega
  · have hsplit : (numbered st r fs).drop (fs.length - maxEvents) =
        ((numbered st r fs).take (n + 1).toNat).drop (fs.length - maxEvents) ++
        (numbered st r fs).drop (n + 1).toNat := by
      rw [← List.drop_append_of_le_length (by rw [List.length_take]; omega), List.take_append_drop]
    rw [Nat.max_eq_right hle, hsplit, List.filter_append, List.filter_eq_nil_iff.2, List.nil_append,
      List.filter_eq_self]
    · intro event hevent
      have := le_eventId_of_mem_drop hevent
      simp only [decide_eq_true_eq]
      omega
    · intro event hevent
      have := eventId_lt_of_mem_take (List.mem_of_mem_drop hevent)
      simp only [decide_eq_true_eq]
      omega

theorem after_neg_one (h : Holds st r fs b) :
    b.after r (-1) = lastN maxEvents (numbered st r fs) := by
  have hall : max (fs.length - maxEvents) ((-1 : ℤ) + 1).toNat = fs.length - maxEvents := by simp
  rw [h.after_eq, hall, lastN, length_numbered]

end Holds

/-! ## Frames -/

def RuntimeEvent.frame (event : RuntimeEvent) : Frame := (event.operation, event.payload)

theorem map_frame_numbered (st : EventStamps) (r : Str) (fs : List Frame) :
    (numbered st r fs).map RuntimeEvent.frame = fs := by
  apply List.ext_getElem <;> simp [numbered, RuntimeEvent.frame]

theorem lastN_map {α β : Type*} (f : α → β) (n : Nat) (xs : List α) :
    lastN n (xs.map f) = (lastN n xs).map f := by
  simp [lastN, List.map_drop]

@[simp] theorem frames_nil : frames [] = [] := rfl

theorem frames_cons (e : Str × Fields) (es : List (Str × Fields)) :
    frames (e :: es) = (framePayloads e.2).map (e.1, ·) ++ frames es := rfl

theorem frames_append (es es' : List (Str × Fields)) : frames (es ++ es') = frames es ++
    frames es' := by
  simp [frames]

theorem chunkParts_ne_nil {payload : List Nat} {limit : Nat} (h : payload ≠ [])
    (hlimit : 0 < limit) :
    chunkParts payload limit ≠ [] := by
  have hlength : 0 < payload.length := List.length_pos_iff.2 h
  have hcount : 0 < (payload.length + limit - 1) / limit := Nat.div_pos (by omega) hlimit
  intro heq
  have hzero := congrArg List.length heq
  simp only [chunkParts, List.length_map, List.length_range, List.length_nil] at hzero
  omega

theorem mem_of_mem_chunk {payload : List Nat} {limit : Nat} {chunk : FrameChunk}
    (h : chunk ∈ chunkPayload payload limit) :
    ∀ b ∈ chunk.data, b ∈ payload := by
  intro b hb
  obtain ⟨i, hi, rfl⟩ := List.mem_mapIdx.1 h
  split_ifs at hi hb with hempty
  · have hzero : i = 0 := by simpa using hi
    subst hzero
    simp at hb
  · simp only [chunkParts, List.getElem_map] at hb
    exact List.mem_of_mem_drop (List.mem_of_mem_take hb)

theorem flatMap_parts (payload : List Nat) (limit count : Nat) :
    (List.range count).flatMap (fun i => (payload.drop (i * limit)).take limit) = payload.take
      (count * limit) := by
  induction count with
  | zero => simp
  | succ count ih =>
    rw [List.range_succ, List.flatMap_append, ih, List.flatMap_singleton, Nat.succ_mul,
      List.take_add]

theorem flatMap_chunkPayload (payload : List Nat) {limit : Nat} (hlimit : 0 < limit) :
    (chunkPayload payload limit).flatMap FrameChunk.data = payload := by
  have hparts : (chunkPayload payload limit).flatMap FrameChunk.data =
      (if payload = [] then [[]] else chunkParts payload limit).flatten := by
    rw [chunkPayload, List.flatMap_def]
    congr 1
    apply List.ext_getElem <;> simp
  rw [hparts]
  split_ifs with hempty
  · rw [hempty]
    rfl
  · have hcover : payload.length ≤ (payload.length + limit - 1) / limit * limit := by
      have hdiv := Nat.div_add_mod (payload.length + limit - 1) limit
      have hmod := Nat.mod_lt (payload.length + limit - 1) hlimit
      rw [Nat.mul_comm limit] at hdiv
      omega
    rw [chunkParts, ← List.flatMap_def, flatMap_parts, List.take_of_length_le hcover]

theorem framePayloads_of_le {payload : Fields} (hne : encodePayload payload ≠ [])
    (h : (encodePayload payload).length ≤ eventChunkBytes) : framePayloads payload = [payload] := by
  have hpos := List.length_pos_iff.2 hne
  have hcount : ((encodePayload payload).length + eventChunkBytes - 1) / eventChunkBytes = 1 := by
    unfold eventChunkBytes at h ⊢
    omega
  have hone : (chunkPayload (encodePayload payload) eventChunkBytes).length = 1 := by
    simp [chunkPayload, hne, chunkParts, hcount]
  simp only [framePayloads, hone, if_true]

theorem framePayloads_ne_nil (payload : Fields) : framePayloads payload ≠ [] := by
  unfold framePayloads
  simp only
  split_ifs with h
  · simp
  · intro hnil
    have hchunks : chunkPayload (encodePayload payload) eventChunkBytes = [] := by simpa using hnil
    simp only [chunkPayload] at hchunks
    have hparts := List.mapIdx_eq_nil_iff.1 hchunks
    split_ifs at hparts with hempty
    exact chunkParts_ne_nil hempty (by decide) hparts

end KiroCrew
