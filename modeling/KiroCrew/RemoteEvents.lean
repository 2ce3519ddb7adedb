import KiroCrew.Lib.Utf8
import KiroCrew.SseBlocks
import KiroCrew.Tunnel

/-!
# Remote event streams

A page's `EventSource` is a `KiroCrewRemoteEventSource`: the adapter yields a delta for each chunk
of the body, up to 8 MiB, `#connect` decodes each delta by itself and dispatches what the blocks of
its buffer give, until a handler of the page throws. The messages are those of the blocks of the
decoded chunks, however they are cut (`dispatched_eq`). `dispatched_iff` compares them with what the
event-stream format gives for the body: a character that two chunks share is lost, and the groups
must be `Kept`.
-/

namespace KiroCrew.Shell.Sse

/-! ## The loop over the events -/

/-- `RemoteTransportError`, or what `atob` throws, or the reader of a response that breaks off, or a
handler. -/
inductive RemoteError
  | transport (code message : Str) (status : Double) (retryable : Bool)
  | invalidCharacter
  | interrupted
  | handler

def eventError (payload : Js.Fields) : RemoteError :=
  .transport
    (match Js.get payload (Str.ofString "code") with
      | some (.string code) => code
      | _ => Str.ofString "INTERNAL_ERROR")
    (match Js.get payload (Str.ofString "message") with
      | some (.string message) => message
      | _ => Str.ofString "The remote KiroCrew request failed.")
    (match Js.get payload (Str.ofString "status") with
      | some (.number status) => status
      | _ => .finite 500)
    (match Js.get payload (Str.ofString "retryable") with
      | some (.bool retryable) => retryable
      | _ => false)

inductive ReadyState
  | connecting | open | closed
deriving DecidableEq, Repr

/-- What is dispatched at a `KiroCrewRemoteEventSource`. -/
inductive Dispatched
  | open
  | message (m : EventSource.Message)
  | error (e : RemoteError)

def Dispatched.message? : Dispatched → Option EventSource.Message
  | .message m => some m
  | _ => none

structure RemoteEventSource where
  readyState : ReadyState := .connecting
  buffer : Str := []
  expectedSequence : ℕ := 0
  dispatched : List Dispatched := []

/-- Whether the handlers of the page throw; `onmessage` is told how many messages there were
before. -/
structure Handlers where
  onopenThrows : Bool := false
  onmessageThrows : ℕ → EventSource.Message → Bool := fun _ _ => false

namespace Handlers

variable (page : Handlers)

/-- `onmessage` is called for the type `message` only. -/
def throws (count : ℕ) (m : EventSource.Message) : Bool :=
  decide (m.type = Str.ofString "message") && page.onmessageThrows count m

/-- The messages up to the first at which `onmessage` throws, and whether there is one. -/
def heard (count : ℕ) : List EventSource.Message → List EventSource.Message × Bool
  | [] => ([], false)
  | m :: ms =>
    if page.throws count m then ([m], true)
    else (m :: (heard (count + 1) ms).1, (heard (count + 1) ms).2)

/-- No handler throws before the last message. -/
structure Hears (ms : List EventSource.Message) : Prop where
  onopen : ms ≠ [] → page.onopenThrows = false
  onmessage : ∀ i (h : i + 1 < ms.length), page.throws i (ms.get ⟨i, by omega⟩) = false

end Handlers

/-- The text of an `output.delta`. -/
def chunkText (payload : Js.Fields) : Except RemoteError Str :=
  match Js.get payload (Str.ofString "data") with
  | some (.string data) =>
    match Js.get payload (Str.ofString "encoding") with
    | some (.string encoding) =>
      if encoding = Str.ofString "base64" then
        match Base64.atob data with
        | some bytes => .ok (TextDecoder.decode bytes)
        | none => .error .invalidCharacter
      else .ok data
    | _ => .ok data
  | _ =>
    .error (.transport (Str.ofString "INVALID_MESSAGE") (Str.ofString "Remote SSE data is invalid.")
      (.finite 502) false)

namespace RemoteEventSource

/-- The messages among what was dispatched. -/
def messages (s : RemoteEventSource) : List EventSource.Message :=
  s.dispatched.filterMap Dispatched.message?

def dispatch (s : RemoteEventSource) (ms : List EventSource.Message) : RemoteEventSource :=
  { s with dispatched := s.dispatched ++ ms.map Dispatched.message }

/-- The `catch` of `#connect`. -/
def fail (s : RemoteEventSource) (e : RemoteError) : RemoteEventSource :=
  { s with readyState := .closed, dispatched := s.dispatched ++ [.error e] }

/-- One turn of the loop of `#connect`, and what it throws. -/
def take (page : Handlers) (s : RemoteEventSource) (event : Event) :
    RemoteEventSource × Option RemoteError :=
  if event.sequence ≠ s.expectedSequence then
    (s, some (.transport (Str.ofString "SEQUENCE_ERROR")
      (Str.ofString "Remote SSE events are out of order.")
      (.finite 502) false))
  else
    let s := { s with expectedSequence := s.expectedSequence + 1 }
    if event.operation = Str.ofString "error" then (s, some (eventError event.payload))
    else if event.operation ≠ Str.ofString "output.delta" then (s, none)
    else
      match chunkText event.payload with
      | .error e => (s, some e)
      | .ok chunk =>
        let (blocks, buffer) := blankLine.blocks (s.buffer ++ chunk)
        let (ms, threw) := page.heard s.messages.length (blocks.filterMap parseSseBlock)
        ({ s with buffer := buffer }.dispatch ms, if threw then some .handler else none)

/-- The loop to the end of the events or to the first error; `ending` is what the reader of the
response throws after the last event. -/
def takeAll (page : Handlers) (ending : Option RemoteError) (s : RemoteEventSource) :
    List Event → RemoteEventSource
  | [] =>
    match ending with
    | none => { s with readyState := .closed }
    | some e => s.fail e
  | event :: events =>
    match s.take page event with
    | (s, none) => takeAll page ending s events
    | (s, some e) => s.fail e

/-- `#connect` with the events of the stream. -/
def connect (page : Handlers) (events : List Event) (ending : Option RemoteError) :
    RemoteEventSource :=
  let s : RemoteEventSource := { readyState := .open, dispatched := [.open] }
  if page.onopenThrows then s.fail .handler else takeAll page ending s events

/-- After an `output.delta` with this text. -/
def taken (page : Handlers) (s : RemoteEventSource) (chunk : Str) : RemoteEventSource :=
  { s with
    buffer := (blankLine.blocks (s.buffer ++ chunk)).2
    expectedSequence := s.expectedSequence + 1 }.dispatch
      (page.heard s.messages.length
        ((blankLine.blocks (s.buffer ++ chunk)).1.filterMap parseSseBlock)).1

variable {page : Handlers} {ending : Option RemoteError}

theorem take_delta {s : RemoteEventSource} {event : Event} {chunk : Str}
    (hsequence : event.sequence = s.expectedSequence)
    (hoperation : event.operation = Str.ofString "output.delta")
    (hchunk : chunkText event.payload = .ok chunk) :
    s.take page event = (s.taken page chunk,
      if (page.heard s.messages.length
        ((blankLine.blocks (s.buffer ++ chunk)).1.filterMap parseSseBlock)).2 then
        some .handler else none) := by
  have hdelta : Str.ofString "output.delta" ≠ Str.ofString "error" := by decide
  rw [take, if_neg (not_not.2 hsequence)]
  dsimp only
  rw [hoperation, if_neg hdelta, if_neg (not_not.2 rfl), hchunk]
  rfl

theorem take_other {s : RemoteEventSource} {event : Event}
    (hsequence : event.sequence = s.expectedSequence)
    (hdelta : event.operation ≠ Str.ofString "output.delta")
    (herror : event.operation ≠ Str.ofString "error") :
    s.take page event = ({ s with expectedSequence := s.expectedSequence + 1 }, none) := by
  simp [take, hsequence, hdelta, herror]

theorem takeAll_nil (s : RemoteEventSource) : s.takeAll page ending [] =
    match ending with
    | none => { s with readyState := .closed }
    | some e => s.fail e := by
  cases ending <;> rfl

theorem takeAll_of_take {s s' : RemoteEventSource} {event : Event}
    (h : s.take page event = (s', none))
    (events : List Event) : s.takeAll page ending (event :: events) =
    s'.takeAll page ending events := by
  rw [takeAll, h]

theorem takeAll_of_throw {s s' : RemoteEventSource} {event : Event} {e : RemoteError}
    (h : s.take page event = (s', some e)) (events : List Event) :
    s.takeAll page ending (event :: events) = s'.fail e := by
  rw [takeAll, h]

@[simp] theorem messages_fail (s : RemoteEventSource) (e : RemoteError) :
    (s.fail e).messages = s.messages := by
  rw [messages, fail, List.filterMap_append]
  exact List.append_nil _

@[simp] theorem messages_dispatch (s : RemoteEventSource) (ms : List EventSource.Message) :
    (s.dispatch ms).messages = s.messages ++ ms := by
  rw [messages, dispatch, List.filterMap_append, List.filterMap_map]
  exact congrArg (s.messages ++ ·) List.filterMap_some

theorem messages_taken (s : RemoteEventSource) (chunk : Str) : (s.taken page chunk).messages =
    s.messages ++
    (page.heard s.messages.length
      ((blankLine.blocks (s.buffer ++ chunk)).1.filterMap parseSseBlock)).1 :=
  messages_dispatch _ _

end RemoteEventSource

/-! ## What the page hears -/

namespace Handlers

variable {page : Handlers} {count : ℕ} {ms ms' : List EventSource.Message}

theorem heard_prefix (count : ℕ) (ms : List EventSource.Message) :
    (page.heard count ms).1 <+: ms := by
  induction ms generalizing count with
  | nil => exact List.prefix_rfl
  | cons m ms ih =>
    rw [heard]
    split_ifs
    · exact List.prefix_append [m] ms
    · exact (List.prefix_cons_inj m).2 (ih (count + 1))

/-- Once a handler has thrown, nothing more is heard. -/
theorem heard_append_of_threw (h : (page.heard count ms).2 = true)
    (ms' : List EventSource.Message) :
    page.heard count (ms ++ ms') = page.heard count ms := by
  induction ms generalizing count with
  | nil => cases h
  | cons m ms ih =>
    rw [heard] at h
    rw [List.cons_append, heard, heard]
    split_ifs at h ⊢ with hthrows
    · rfl
    · rw [ih h]

theorem heard_append (h : (page.heard count ms).2 = false) (ms' : List EventSource.Message) :
    (page.heard count (ms ++ ms')).1 = ms ++ (page.heard (count + ms.length) ms').1 := by
  induction ms generalizing count with
  | nil => rfl
  | cons m ms ih =>
    rw [heard] at h
    split_ifs at h with hthrows
    rw [List.cons_append, heard, if_neg hthrows, List.cons_append, List.length_cons, ih h,
      Nat.add_assoc,
      Nat.add_comm 1]

theorem heard_of_not_threw (h : (page.heard count ms).2 = false) :
    (page.heard count ms).1 = ms := by
  have happend := heard_append h []
  rwa [List.append_nil, heard, List.append_nil] at happend

/-- All messages are heard exactly when `onmessage` throws at no message before the last one. -/
theorem heard_eq_iff : (page.heard count ms).1 = ms ↔
    ∀ i (h : i + 1 < ms.length), page.throws (count + i) (ms.get ⟨i, by omega⟩) = false := by
  induction ms generalizing count with
  | nil => exact iff_of_true rfl fun i h => absurd h (Nat.not_lt_zero _)
  | cons m ms ih =>
    rw [heard]
    constructor
    · intro h i hi
      split_ifs at h with hthrows
      · rw [List.cons.injEq] at h
        rw [← h.2] at hi
        exact absurd hi (by simp)
      · cases i with
        | zero => exact eq_false_of_ne_true hthrows
        | succ i =>
          have hrest := ih.1 (List.cons.inj h).2 i (Nat.lt_of_succ_lt_succ hi)
          rwa [Nat.add_assoc, Nat.add_comm 1] at hrest
    · intro h
      cases ms with
      | nil =>
        split_ifs <;> rfl
      | cons m' ms =>
        have hfirst : page.throws count m = false := h 0 (by simp)
        rw [hfirst, if_neg Bool.false_ne_true, ih.2 fun i hi => ?_]
        have hnext := h (i + 1) (Nat.succ_lt_succ hi)
        rwa [← Nat.add_assoc, Nat.add_right_comm] at hnext

end Handlers

/-! ## An event stream through the tunnel -/

/-- The answer to the request of an `EventSource`, as `_http` finds it. -/
structure SseAnswer where
  requestId : Str
  status : ℕ
  contentType : Str
  /-- the safe headers -/
  headers : List (Str × Str)
  /-- the body as `iter_chunked` yields it -/
  chunks : List (List Nat)
  bytes : ∀ c ∈ chunks, ∀ b ∈ c, b < 256

namespace SseAnswer

/-- The payload of an `output.delta`. -/
def delta (chunk : List Nat) : Str × KiroCrew.Fields :=
  (Str.ofString "output.delta", [(Str.ofString "data", .str (Base64.encode chunk)),
    (Str.ofString "encoding", .str (Str.ofString "base64")),
    (Str.ofString "transport", .str (Str.ofString "sse"))])

def accepted (a : SseAnswer) : Str × KiroCrew.Fields :=
  (Str.ofString "request.accepted", [(Str.ofString "contentType", .str a.contentType),
    (Str.ofString "headers", .obj (a.headers.map fun (k, v) => (k, .str v))),
    (Str.ofString "status", .int a.status),
    (Str.ofString "transport", .str (Str.ofString "sse"))])

def completed (a : SseAnswer) : Str × KiroCrew.Fields :=
  (Str.ofString "request.completed", [(Str.ofString "status", .int a.status)])

/-- The loop of `_http` over the chunks, and the error for more than 8 MiB. -/
def deltas (total : ℕ) : List (List Nat) → List (Str × KiroCrew.Fields) × Option RequestError
  | [] => ([], none)
  | chunk :: chunks =>
    if maxLoopbackResponseBytes < total + chunk.length then
      ([], some ⟨413, .frameTooLarge, .transport, "Loopback response body is too large.", false⟩)
    else
      let (later, error) := deltas (total + chunk.length) chunks
      (delta chunk :: later, error)

/-- What `_http` yields from the head of the answer on, and what it raises. -/
def http (a : SseAnswer) : List (Str × KiroCrew.Fields) × Option RequestError :=
  match deltas 0 a.chunks with
  | (yielded, none) => (a.accepted :: yielded ++ [a.completed], none)
  | (yielded, some error) => (a.accepted :: yielded, some error)

/-- The events as the shell yields them. -/
def events (a : SseAnswer) : List Event :=
  a.http.1.mapIdx fun i e => ⟨a.requestId, i, e.1, received e.2⟩

/-- The 413 leaves `_stream_live` after the head of its response, which breaks off. -/
def ending (a : SseAnswer) : Option RemoteError := a.http.2.map fun _ => .interrupted

/-- The messages that the page gets. -/
def dispatched (a : SseAnswer) (page : Handlers) : List EventSource.Message :=
  (RemoteEventSource.connect page a.events a.ending).messages

/-- The text of the body. -/
def text (a : SseAnswer) : Str := TextDecoder.decode a.chunks.flatten

theorem chunkText_delta {chunk : List Nat} (h : ∀ b ∈ chunk, b < 256) :
    chunkText (received (delta chunk).2) = .ok (TextDecoder.decode chunk) := by
  have hunits : Str.units (Base64.encode chunk) = Base64.encode chunk := by
    refine Str.units_of_lt fun c hc => ?_
    have hrange := Base64.isText_encode h c hc
    omega
  have hdata : Js.get (received (delta chunk).2) (Str.ofString "data") =
      some (.string (Base64.encode chunk)) := by
    rw [← hunits]
    rfl
  have hencoding : Js.get (received (delta chunk).2) (Str.ofString "encoding") =
    some (.string (Str.ofString "base64")) := rfl
  rw [chunkText, hdata, hencoding]
  simp only [if_true, Base64.atob_encode h]

/-- The chunks that come before the limit. -/
def passed (total : ℕ) : List (List Nat) → List (List Nat)
  | [] => []
  | chunk :: chunks =>
    if maxLoopbackResponseBytes < total + chunk.length then []
      else chunk :: passed (total + chunk.length) chunks

theorem deltas_fst (total : ℕ) (chunks : List (List Nat)) : (deltas total chunks).1 =
    (passed total chunks).map delta := by
  induction chunks generalizing total with
  | nil => rfl
  | cons chunk chunks ih =>
    rw [deltas, passed]
    split_ifs
    · rfl
    · rw [List.map_cons, ← ih]

theorem mem_of_mem_passed {total : ℕ} {chunk : List Nat} {chunks : List (List Nat)}
    (h : chunk ∈ passed total chunks) :
    chunk ∈ chunks := by
  induction chunks generalizing total with
  | nil => exact h
  | cons first chunks ih =>
    rw [passed] at h
    split_ifs at h
    · cases h
    · rcases List.mem_cons.1 h with rfl | h
      · exact List.mem_cons_self
      · exact List.mem_cons_of_mem _ (ih h)

theorem passed_eq {total : ℕ} {chunks : List (List Nat)}
    (h : total + chunks.flatten.length ≤ maxLoopbackResponseBytes) :
    passed total chunks = chunks := by
  induction chunks generalizing total with
  | nil => rfl
  | cons chunk chunks ih =>
    rw [List.flatten_cons, List.length_append] at h
    rw [passed, if_neg (by omega), ih (by omega)]

/-- What comes after the deltas. -/
def last (a : SseAnswer) : List (Str × KiroCrew.Fields) :=
  if a.http.2 = none then [a.completed] else []

theorem http_fst (a : SseAnswer) :
    a.http.1 = a.accepted :: ((passed 0 a.chunks).map delta ++ a.last) := by
  have hfst := deltas_fst 0 a.chunks
  rw [last, http]
  cases hdeltas : deltas 0 a.chunks with
  | mk yielded error =>
    rw [hdeltas] at hfst
    rw [← hfst]
    cases error with
    | none => rfl
    | some e =>
      rw [if_neg (by simp)]
      exact (congrArg (a.accepted :: ·) (List.append_nil yielded)).symm

/-- Whatever ends the deltas, no more messages are dispatched. -/
theorem messages_last (a : SseAnswer) {page : Handlers} (s : RemoteEventSource) :
    (s.takeAll page a.ending
      (a.last.map fun e => ⟨a.requestId, s.expectedSequence, e.1, received e.2⟩)).messages =
      s.messages := by
  have hnil (s : RemoteEventSource) : (s.takeAll page a.ending []).messages = s.messages := by
    rw [RemoteEventSource.takeAll_nil]
    cases a.ending with
    | none => rfl
    | some e => exact RemoteEventSource.messages_fail s e
  unfold last
  split_ifs
  · have hname : a.completed.1 ≠ Str.ofString "output.delta" ∧
        a.completed.1 ≠ Str.ofString "error" := by
      change Str.ofString "request.completed" ≠ _ ∧ Str.ofString "request.completed" ≠ _
      decide
    have htake : s.take page ⟨a.requestId, s.expectedSequence, a.completed.1,
      received a.completed.2⟩ =
        ({ s with expectedSequence := s.expectedSequence + 1 }, none) :=
      RemoteEventSource.take_other rfl hname.1 hname.2
    rw [List.map_singleton, RemoteEventSource.takeAll_of_take htake, hnil]
    rfl
  · exact hnil s

/-- The messages of the deltas are those of the blocks, up to the first at which a handler
throws. -/
theorem messages_deltas (a : SseAnswer) {page : Handlers} {chunks : List (List Nat)}
    (hbytes : ∀ c ∈ chunks, ∀ b ∈ c, b < 256) (s : RemoteEventSource) :
    (s.takeAll page a.ending ((chunks.map delta ++ a.last).mapIdx fun i e =>
        ⟨a.requestId, s.expectedSequence + i, e.1, received e.2⟩)).messages =
      s.messages ++ (page.heard s.messages.length
        ((blankLine.feedAll s.buffer (chunks.map TextDecoder.decode)).1.flatten.filterMap
            parseSseBlock)).1 := by
  induction chunks generalizing s with
  | nil =>
    have hlast : (a.last.mapIdx fun i e =>
      (⟨a.requestId, s.expectedSequence + i, e.1, received e.2⟩ : Event)) =
        a.last.map fun e => ⟨a.requestId, s.expectedSequence, e.1, received e.2⟩ := by
      unfold last
      split_ifs <;> rfl
    rw [List.map_nil, List.nil_append, hlast, messages_last]
    exact (List.append_nil _).symm
  | cons chunk chunks ih =>
    obtain ⟨hchunk, hchunks⟩ := List.forall_mem_cons.1 hbytes
    have htake := @RemoteEventSource.take_delta page s
      ⟨a.requestId, s.expectedSequence + 0, (delta chunk).1, received (delta chunk).2⟩ _
      (Nat.add_zero _) rfl (chunkText_delta hchunk)
    have hnext : (fun i (e : Str × KiroCrew.Fields) =>
        (⟨a.requestId, s.expectedSequence + (i + 1), e.1, received e.2⟩ : Event)) =
        fun i e => ⟨a.requestId, (s.taken page (TextDecoder.decode chunk)).expectedSequence + i,
            e.1, received e.2⟩ := by
      funext i e
      rw [Nat.add_comm i 1, ← Nat.add_assoc]
      rfl
    rw [List.map_cons, List.cons_append, List.mapIdx_cons, List.map_cons, Framing.feedAll_cons,
      List.flatten_cons,
      List.filterMap_append]
    cases hthrew : (page.heard s.messages.length
        ((blankLine.blocks (s.buffer ++ TextDecoder.decode chunk)).1.filterMap
          parseSseBlock)).2 with
    | true =>
      rw [hthrew, if_pos rfl] at htake
      rw [RemoteEventSource.takeAll_of_throw htake, RemoteEventSource.messages_fail,
        RemoteEventSource.messages_taken,
        Handlers.heard_append_of_threw hthrew]
    | false =>
      rw [hthrew, if_neg Bool.false_ne_true] at htake
      have hrest := ih hchunks (s.taken page (TextDecoder.decode chunk))
      rw [RemoteEventSource.takeAll_of_take htake, hnext]
      rw [Handlers.heard_append hthrew, ← List.append_assoc]
      rw [RemoteEventSource.messages_taken, Handlers.heard_of_not_threw hthrew,
        List.length_append] at hrest
      exact hrest

/-- The messages are those of the blocks of what the chunks are decoded to, however they come, up to
the first at which a handler throws. -/
theorem dispatched_eq (a : SseAnswer) (page : Handlers) : a.dispatched page =
    if page.onopenThrows then []
    else (page.heard 0 ((blankLine.blocks
      ((passed 0 a.chunks).map TextDecoder.decode).flatten).1.filterMap
      parseSseBlock)).1 := by
  rw [dispatched, RemoteEventSource.connect]
  split_ifs
  · exact RemoteEventSource.messages_fail _ _
  · have hname : a.accepted.1 ≠ Str.ofString "output.delta" ∧
        a.accepted.1 ≠ Str.ofString "error" := by
      change Str.ofString "request.accepted" ≠ _ ∧ Str.ofString "request.accepted" ≠ _
      decide
    have htake := @RemoteEventSource.take_other page { readyState := .open, dispatched := [.open] }
      ⟨a.requestId, 0, a.accepted.1, received a.accepted.2⟩ rfl hname.1 hname.2
    have hbytes : ∀ c ∈ passed 0 a.chunks, ∀ b ∈ c, b < 256 := fun c hc =>
      a.bytes c (mem_of_mem_passed hc)
    have hdeltas := @messages_deltas a page _ hbytes
      { readyState := .open, dispatched := [.open], expectedSequence := 1 }
    rw [events, http_fst, List.mapIdx_cons, RemoteEventSource.takeAll_of_take htake]
    rw [blankLine.feedAll_flatten rfl] at hdeltas
    simp only [Nat.add_comm _ 1]
    exact hdeltas

/-! ## When it is the native one -/

/-- The text that the page decodes. -/
def seen (a : SseAnswer) : Str := ((passed 0 a.chunks).map TextDecoder.decode).flatten

/-- The fields of the groups that have data, as the page reads them and as they are. -/
def Same (a : SseAnswer) : Prop :=
  dataGroups (EventSource.groups [] (lineFeedLines a.seen)) = dataGroups
    (EventSource.groups [] (EventSource.lines a.text))

instance (a : SseAnswer) : Decidable a.Same := inferInstanceAs (Decidable (_ = _))

/-- It is so when no more than 8 MiB come, the chunks decoded one by one are the text of the body,
and every CR is one of a CRLF. -/
theorem same_of_whole {a : SseAnswer} (hlimit : a.chunks.flatten.length ≤ maxLoopbackResponseBytes)
    (hwhole : (a.chunks.map TextDecoder.decode).flatten = a.text) (hpaired : Paired a.text) :
    a.Same := by
  rw [Same, seen, passed_eq (by omega), hwhole, lineFeedLines, dropLast_splitLines hpaired]

/-- The chunks are decoded to the text of the body when every chunk is a text of its own, and no
later one begins with a byte order mark. -/
theorem whole_of_texts {a : SseAnswer} {texts : List Str}
    (h : texts.mapM Bytes.encodeUtf8 = some a.chunks)
    (hmark : ∀ t ∈ texts.tail, t.head? ≠ some 0xFEFF) :
    (a.chunks.map TextDecoder.decode).flatten = a.text :=
  TextDecoder.decode_flatten h hmark

/-- Where no chunk, limit or CR changes the fields that come with data, the page gets the messages
of the stream exactly when every group is kept and no handler throws before the last message. -/
theorem dispatched_iff (a : SseAnswer) (page : Handlers) (hsame : a.Same) :
    a.dispatched page = EventSource.messages a.text ↔
      Kept [] (EventSource.groups [] (EventSource.lines a.text)) ∧
      page.Hears (EventSource.messages a.text) := by
  have hlines : ∀ g ∈ EventSource.groups [] (EventSource.lines a.text), ∀ line ∈ g, 10 ∉ line :=
    EventSource.forall_mem_groups nofun (EventSource.newline_not_mem_lines a.text)
  have hblocks : (blankLine.blocks a.seen).1.filterMap parseSseBlock =
      (EventSource.groups [] (EventSource.lines a.text)).filterMap parseSseLines := by
    rw [← filterMap_dataGroups, ← hsame, filterMap_dataGroups]
    exact blocks_eq parseSseLines_empty rfl a.seen
  have hkept := filterMap_parseSseLines_iff hlines
  have hle := length_filterMap_le [] (EventSource.groups [] (EventSource.lines a.text))
  rw [← EventSource.messages_eq] at hkept hle
  rw [dispatched_eq]
  change (if _ then _ else (page.heard 0 ((blankLine.blocks a.seen).1.filterMap parseSseBlock)).1) =
    _ ↔ _
  rw [hblocks]
  constructor
  · intro h
    by_cases hopen : page.onopenThrows = true
    · rw [if_pos hopen] at h
      rw [← h] at hle hkept ⊢
      have hnil := List.eq_nil_of_length_eq_zero (Nat.le_zero.1 hle)
      exact ⟨hkept.1 hnil, fun hne => absurd rfl hne, fun i hi => absurd hi (Nat.not_lt_zero _)⟩
    · rw [if_neg hopen] at h
      -- what is heard is a prefix of what is read, which is no longer than the messages
      have hprefix :=
        page.heard_prefix 0 ((EventSource.groups [] (EventSource.lines a.text)).filterMap
          parseSseLines)
      rw [h] at hprefix
      have heq := hprefix.eq_of_length_le hle
      rw [← heq] at h
      have hall := Handlers.heard_eq_iff.1 h
      simp only [Nat.zero_add] at hall
      exact ⟨hkept.1 heq.symm, fun _ => eq_false_of_ne_true hopen, hall⟩
  · rintro ⟨h, hhears⟩
    rw [hkept.2 h]
    by_cases hopen : page.onopenThrows = true
    · have hnil : EventSource.messages a.text = [] := by
        by_contra hne
        rw [hhears.onopen hne] at hopen
        cases hopen
      rw [if_pos hopen, hnil]
    · rw [if_neg hopen, Handlers.heard_eq_iff]
      simp only [Nat.zero_add]
      exact hhears.onmessage

/-- An accented letter whose two bytes come in two chunks. -/
def accented : SseAnswer where
  requestId := List.replicate 26 48
  status := 200
  contentType := Str.ofString "text/event-stream"
  headers := []
  chunks := [[100, 97, 116, 97, 58, 32, 0xC3], [0xA9, 10, 10]]
  bytes := by decide

theorem accented_garbled : Bytes.encodeUtf8 (Str.ofString "data: \u00e9\n\n") =
    some accented.chunks.flatten ∧
    accented.dispatched {} ≠ EventSource.messages accented.text := by
  rw [dispatched_eq]
  decide +kernel

/-- The events of the test of the shell, in two chunks. -/
def update : SseAnswer where
  requestId := List.replicate 26 48
  status := 200
  contentType := Str.ofString "text/event-stream"
  headers := []
  chunks := [Str.ofString "event: update\nid: 7\nda", Str.ofString "ta: ready\n\n"]
  bytes := by decide

theorem update_dispatched : update.dispatched {} = EventSource.messages update.text :=
  (dispatched_iff update {} (by decide +kernel)).2
    ⟨by decide +kernel, fun _ => rfl, fun _ _ => Bool.and_false _⟩

end SseAnswer

end KiroCrew.Shell.Sse
