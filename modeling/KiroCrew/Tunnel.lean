import KiroCrew.Lib.Double
import KiroCrew.Transport

/-!
# Reading the gateway through the tunnel

`LoopbackKiroCrewBackend._http` turns a gateway answer into events: its head, one delta for each
chunk of the body as the network delivered it, and an end. The adapter buffers them and answers a
list of envelopes; the waker's `_gateway_body` takes the first string of any payload that is a JSON
object or array, by itself or in base64. So a body is read back only from a chunk that holds all of
it and whose delta fits one event: `gatewayBody_eq` says what is read, `gateway_read_iff` when that
is the document, and then the waker's busy check is the container's.
-/

namespace KiroCrew

open Json (Value)

def responseChunkBytes : Nat := 16 * 1024

def maxLoopbackResponseBytes : Nat := 8 * 1024 * 1024

/-- An answer of the gateway with status 200 and a JSON object or array as its body. -/
structure Reply where
  contentType : Str
  /-- the safe headers -/
  headers : List (Str × Str)
  /-- the body as `iter_chunked` yields it -/
  chunks : List (List Nat)
  text : Str
  doc : Value
  bytes : ∀ c ∈ chunks, ∀ b ∈ c, b < 256
  sized : ∀ c ∈ chunks, c ≠ [] ∧ c.length ≤ responseChunkBytes
  bounded : chunks.flatten.length ≤ maxLoopbackResponseBytes
  decoded : Bytes.decodeUtf8 false chunks.flatten = some text
  parsed : Json.loads text = some doc
  document : doc.isDocument = true

/-- The payload of `request.accepted`. -/
def acceptedPayload (contentType : Str) (headers : List (Str × Str)) : Fields :=
  [(Str.ofString "contentType", .str contentType),
    (Str.ofString "headers", .obj (headers.map fun (k, v) => (k, .str v))),
    (Str.ofString "status", .int 200), (Str.ofString "transport", .str (Str.ofString "http"))]

/-- The payload of an `output.delta`. -/
def deltaPayload (chunk : List Nat) : Fields :=
  [(Str.ofString "data", .str (Base64.encode chunk)),
    (Str.ofString "encoding", .str (Str.ofString "base64")),
    (Str.ofString "transport", .str (Str.ofString "http"))]

/-- The payload of `request.completed`. -/
def completedPayload : Fields := [(Str.ofString "status", .int 200)]

/-- `_http` for a plain answer with status 200. -/
def Reply.events (r : Reply) : List (Str × Fields) :=
  (Str.ofString "request.accepted", acceptedPayload r.contentType r.headers) ::
    r.chunks.map (fun c => (Str.ofString "output.delta", deltaPayload c)) ++
    [(Str.ofString "request.completed", completedPayload)]

/-- `{"events": [event.envelope() for event in events]}` -/
def eventList (st : EventStamps) (events : List RuntimeEvent) : Value :=
  .obj [(Str.ofString "events",
    .arr (events.map fun event => event.envelope (st.messageId event.eventId)))]

/-! ## The waker -/

/-- The document a string of a payload carries, in base64 or as it is. -/
def textDocument (text : Str) : Option Value :=
  (((Base64.decode text).bind Bytes.loads).filter Value.isDocument).or
    (((Bytes.encodeUtf8 text).bind Bytes.loads).filter Value.isDocument)

def payloadDocument (payload : Fields) : Option Value :=
  payload.findSome? fun (_, value) =>
    match value with
    | .str text => if text = [] then none else textDocument text
    | _ => none

def eventDocument : Value → Option Value
  | .obj fields =>
    match Value.get fields (Str.ofString "payload") with
    | some (.obj payload) => payloadDocument payload
    | _ => none
  | _ => none

/-- The exceptions `_gateway_body` does not catch. -/
inductive BodyError
  | typeError
deriving DecidableEq, Repr

def gatewayBody (raw : List Nat) : Except BodyError (Option Value) :=
  match Bytes.loads raw with
  | some (.obj fields) =>
    match Value.get fields (Str.ofString "events") with
    | some (.arr events) => .ok (events.findSome? eventDocument)
    -- the keys of an object and the characters of a string are no events
    | some (.obj _) | some (.str _) | none => .ok none
    | some _ => .error .typeError
  | _ => .ok none

/-! ## The busy signals -/

/-- `isinstance(value, int) and value > 0` -/
def positiveInt : Option Value → Bool
  | some (.int z) => decide (0 < z)
  | some (.bool b) => b
  | _ => false

/-- The field of an answer that is an object. -/
def field (key : String) : Option Value → Option Value
  | some (.obj fields) => Value.get fields (Str.ofString key)
  | _ => none

/-- `any(...)` over the `runs` of an answer. -/
def anyRun (p : List (Str × Value) → Bool) (answer : Option Value) : Bool :=
  match field "runs" answer with
  | some (.arr runs) => runs.any fun run =>
    match run with
    | .obj fields => p fields
    | _ => false
  | _ => false

def runnerBusy (answer : Option Value) : Bool :=
  anyRun (fun run => (Value.get run (Str.ofString "running")).any Value.truthy) answer

def healthBusy (answer : Option Value) : Bool :=
  positiveInt (field "running" (field "counts" answer))

def statusBusy (answer : Option Value) : Bool := positiveInt (field "subagents" answer)

def workflowsBusy (answer : Option Value) : Bool :=
  anyRun (fun run => match Value.get run (Str.ofString "status") with
    | some (.str status) => decide (status = Str.ofString "running")
    | _ => false) answer

def sandboxBusy (gatewayGet : String → Option Value) : Bool :=
  runnerBusy (gatewayGet "/api/taskrunner") || healthBusy (gatewayGet "/api/sessions/health") ||
    statusBusy (gatewayGet "/api/status") || workflowsBusy (gatewayGet "/api/workflows/runs")

/-- `_probe_background_activity`; a read that raises (`none`) is suppressed. -/
def probeBackgroundActivity (fetchJson : String → Option Value) : Bool :=
  runnerBusy (fetchJson "/api/taskrunner") || statusBusy (fetchJson "/api/status") ||
    healthBusy (fetchJson "/api/sessions/health") || workflowsBusy (fetchJson "/api/workflows/runs")

/-- `match` of `_catch_up`: the first listed job with the id. -/
def findJob (crons : Option Value) (job : Str) : Option (List (Str × Value)) :=
  match field "jobs" crons with
  | some (.arr jobs) => jobs.findSome? fun j =>
    match j with
    | .obj fields =>
      match Value.get fields (Str.ofString "id") with
      | some (.str id) => if id = job then some fields else none
      | _ => none
    | _ => none
  | _ => none

/-- The document lists a job under `jobs`. -/
def ListsJob (crons : Value) (job : Str) : Prop :=
  ∃ fields jobs entry, crons = .obj fields ∧ Value.get fields (Str.ofString "jobs") =
    some (.arr jobs) ∧
    Value.obj entry ∈ jobs ∧ Value.get entry (Str.ofString "id") = some (.str job)

/-! ## What an event carries -/

/-- Text that is missing a bracket is no document. -/
theorem loads_no_document {s : Str} (hascii : ∀ c ∈ s, 0 < c ∧ c < 128) (harr : 91 ∉ s)
    (hobj : 123 ∉ s ∨ 125 ∉ s) :
    (Bytes.loads s).filter Value.isDocument = none := by
  rw [Bytes.loads_ascii hascii, Option.filter_eq_none_iff]
  intro v hv hdoc
  rcases Json.mem_of_loads hv hdoc with h | ⟨hopen, hclose⟩
  · exact harr h
  · rcases hobj with h | h
    · exact h hopen
    · exact h hclose

/-- A string in base64 carries what its bytes are. -/
theorem textDocument_encode {bs : List Nat} (h : ∀ b ∈ bs, b < 256) :
    textDocument (Base64.encode bs) = (Bytes.loads bs).filter Value.isDocument := by
  have htext := Base64.isText_encode h
  have hascii : ∀ c ∈ Base64.encode bs, 0 < c ∧ c < 128 := by
    intro c hc
    have := htext c hc
    omega
  have harr : 91 ∉ Base64.encode bs := fun hmem => (htext 91 hmem).2.2.1 rfl
  have hobj : 123 ∉ Base64.encode bs := fun hmem => absurd (htext 123 hmem).2.1 (by decide)
  rw [textDocument, Base64.decode_encode h, Option.bind_some, Bytes.encodeUtf8_ascii fun c hc =>
    (hascii c hc).2,
    Option.bind_some, loads_no_document hascii harr (.inl hobj), Option.or_none]

theorem textDocument_words : textDocument (Str.ofString "base64") = none ∧
    textDocument (Str.ofString "http") = none := by
  constructor <;> rw [← Option.isNone_iff_eq_none] <;> decide +kernel

theorem payloadDocument_delta {c : List Nat} (h : ∀ b ∈ c, b < 256) (hne : c ≠ []) :
    payloadDocument (deltaPayload c) = (Bytes.loads c).filter Value.isDocument := by
  have hencode : Base64.encode c ≠ [] := by
    intro hnil
    have hlength := Base64.length_encode c
    have := List.length_pos_iff.2 hne
    rw [hnil, List.length_nil] at hlength
    omega
  obtain ⟨hbase64, hhttp⟩ := textDocument_words
  have h1 : Str.ofString "base64" ≠ [] := by decide
  have h2 : Str.ofString "http" ≠ [] := by decide
  simp only [payloadDocument, deltaPayload, List.findSome?_cons, List.findSome?_nil, hencode,
    if_false, h1, h2, hbase64, hhttp,
    textDocument_encode h]
  cases (Bytes.loads c).filter Value.isDocument <;> rfl

theorem payloadDocument_completed : payloadDocument completedPayload = none := rfl

/-! ## How deltas are split -/

/-- What the JSON of a delta has before its base64 text, and after it. -/
def deltaHead : Str := 123 :: Json.printStr (Str.ofString "data") ++ [58, 34]

def deltaTail : Str :=
  34 :: 44 :: Json.printStr (Str.ofString "encoding") ++ 58 :: Json.printStr
    (Str.ofString "base64") ++
    44 :: Json.printStr (Str.ofString "transport") ++ 58 :: Json.printStr
    (Str.ofString "http") ++ [125]

theorem encodePayload_delta {c : List Nat} (h : ∀ b ∈ c, b < 256) :
    encodePayload (deltaPayload c) = deltaHead ++ Base64.encode c ++ deltaTail := by
  have hescape : Json.escape (Base64.encode c) = Base64.encode c := by
    refine Json.escape_printable fun x hx => ?_
    have := Base64.isText_encode h x hx
    omega
  have hsort : Json.sortKeys (.obj (deltaPayload c)) = .obj (deltaPayload c) := rfl
  have hdata : Json.printStr (Base64.encode c) = 34 :: Base64.encode c ++ [34] := by
    rw [Json.printStr, hescape]
  rw [encodePayload, hsort]
  simp only [deltaPayload, Json.dumps, Json.dumpsFields, hdata, deltaHead, deltaTail,
    List.cons_append, List.append_assoc,
    List.nil_append]

theorem length_encodePayload_delta {c : List Nat} (h : ∀ b ∈ c, b < 256) :
    (encodePayload (deltaPayload c)).length = 50 + 4 * ((c.length + 2) / 3) := by
  have hhead : deltaHead.length = 9 := by decide
  have htail : deltaTail.length = 41 := by decide
  rw [encodePayload_delta h, List.length_append, List.length_append, Base64.length_encode,
    hhead, htail]
  omega

/-- A chunk whose delta is one event. -/
def deltaLimit : Nat := 12249

theorem framePayloads_of_two {payload : Fields}
    (h : eventChunkBytes < (encodePayload payload).length)
    (h' : (encodePayload payload).length ≤ 2 * eventChunkBytes) :
    framePayloads payload =
      [FrameChunk.payload ⟨0, 2, (encodePayload payload).take eventChunkBytes⟩,
      FrameChunk.payload ⟨1, 2, (encodePayload payload).drop eventChunkBytes⟩] := by
  have hne : encodePayload payload ≠ [] := by
    rintro hnil
    simp [hnil] at h
  have hcount : ((encodePayload payload).length + eventChunkBytes - 1) / eventChunkBytes = 2 := by
    unfold eventChunkBytes at h h' ⊢
    omega
  have hlast : ((encodePayload payload).drop eventChunkBytes).take eventChunkBytes =
      (encodePayload payload).drop eventChunkBytes := by
    rw [List.take_of_length_le]
    rw [List.length_drop]
    omega
  have hchunks : chunkPayload (encodePayload payload) eventChunkBytes =
      [⟨0, 2, (encodePayload payload).take eventChunkBytes⟩,
      ⟨1, 2, (encodePayload payload).drop eventChunkBytes⟩] := by
    simp [chunkPayload, hne, chunkParts, hcount, List.range_succ, hlast]
  simp [framePayloads, hchunks]

theorem payloadDocument_chunk {index total : Nat} {data : List Nat} (h : ∀ b ∈ data, b < 256) :
    payloadDocument (FrameChunk.payload ⟨index, total, data⟩) =
      (Bytes.loads data).filter Value.isDocument := by
  by_cases hne : Base64.encode data = []
  · have hdata : data = [] := by
      have hlength := Base64.length_encode data
      rw [hne, List.length_nil] at hlength
      exact List.length_eq_zero_iff.1 (by omega)
    subst hdata
    rfl
  · simp only [payloadDocument, FrameChunk.payload, List.findSome?_cons, List.findSome?_nil,
      hne, if_false,
      textDocument_encode h]
    cases (Bytes.loads data).filter Value.isDocument <;> rfl

/-- Neither half of a split delta is a document: the first lacks the closing brace, the second the
opening one. -/
theorem delta_halves {c : List Nat} (h : ∀ b ∈ c, b < 256)
    (hsplit : eventChunkBytes < (encodePayload (deltaPayload c)).length) :
    (Bytes.loads ((encodePayload (deltaPayload c)).take eventChunkBytes)).filter Value.isDocument =
    none ∧
      (Bytes.loads ((encodePayload (deltaPayload c)).drop eventChunkBytes)).filter
      Value.isDocument = none := by
  have htext := Base64.isText_encode h
  have hchars : ∀ x ∈ encodePayload (deltaPayload c), (0 < x ∧ x < 128) ∧ x ≠ 91 := by
    have hhead : ∀ x ∈ deltaHead, (0 < x ∧ x < 128) ∧ x ≠ 91 := by decide
    have htail : ∀ x ∈ deltaTail, (0 < x ∧ x < 128) ∧ x ≠ 91 := by decide
    intro x hx
    rw [encodePayload_delta h, List.mem_append, List.mem_append] at hx
    rcases hx with (hx | hx) | hx
    · exact hhead x hx
    · have := htext x hx
      omega
    · exact htail x hx
  constructor
  · obtain ⟨front, hfront, hclose⟩ : ∃ front, encodePayload (deltaPayload c) = front ++ [125] ∧
        125 ∉ front := by
      refine ⟨deltaHead ++ Base64.encode c ++ deltaTail.dropLast, ?_, ?_⟩
      · rw [encodePayload_delta h, List.append_assoc _ deltaTail.dropLast]
        rfl
      · have hhead : 125 ∉ deltaHead := by decide
        have htail : 125 ∉ deltaTail.dropLast := by decide
        have hmid : 125 ∉ Base64.encode c := fun hmem => absurd (htext 125 hmem).2.1 (by decide)
        simp [hhead, htail, hmid]
    have htake : (encodePayload (deltaPayload c)).take eventChunkBytes =
        front.take eventChunkBytes := by
      rw [hfront, List.length_append, List.length_singleton] at hsplit
      rw [hfront, List.take_append_of_le_length (by omega)]
    refine loads_no_document (fun x hx => (hchars x (List.mem_of_mem_take hx)).1) ?_ (.inr ?_)
    · exact fun hx => (hchars 91 (List.mem_of_mem_take hx)).2 rfl
    · rw [htake]
      exact fun hx => hclose (List.mem_of_mem_take hx)
  · obtain ⟨back, hback, hopen⟩ : ∃ back, encodePayload (deltaPayload c) = 123 :: back ∧
        123 ∉ back := by
      refine ⟨deltaHead.tail ++ Base64.encode c ++ deltaTail, ?_, ?_⟩
      · rw [encodePayload_delta h]
        rfl
      · have hhead : 123 ∉ deltaHead.tail := by decide
        have htail : 123 ∉ deltaTail := by decide
        have hmid : 123 ∉ Base64.encode c := fun hmem => absurd (htext 123 hmem).2.1 (by decide)
        simp [hhead, htail, hmid]
    refine loads_no_document (fun x hx => (hchars x (List.mem_of_mem_drop hx)).1) ?_ (.inl ?_)
    · exact fun hx => (hchars 91 (List.mem_of_mem_drop hx)).2 rfl
    · rw [hback]
      exact fun hx => hopen (List.mem_of_mem_drop (i := 16383) hx)

/-! ## What the waker reads -/

/-- What one event shows of an answer: its head, a whole chunk, or nothing readable. -/
inductive Piece
  | head (payload : Fields)
  | chunk (data : List Nat)
  | part

/-- The JSON object or array that the piece is by itself. -/
def Piece.document : Piece → Option Value
  | .head payload => payloadDocument payload
  | .chunk data => (Bytes.loads data).filter Value.isDocument
  | .part => none

/-- A chunk of at most `deltaLimit` bytes is one event, a larger one two halves. -/
def chunkPieces (c : List Nat) : List Piece :=
  if c.length ≤ deltaLimit then [.chunk c] else [.part, .part]

/-- The answer by its events. -/
def Reply.pieces (r : Reply) : List Piece :=
  (framePayloads (acceptedPayload r.contentType r.headers)).map .head ++
    r.chunks.flatMap chunkPieces ++ [.part]

/-- The first of the last 512 pieces that is a JSON object or array by itself is the document. -/
def Reply.Whole (r : Reply) : Prop :=
  (lastN maxEvents r.pieces).findSome? Piece.document = some r.doc

theorem delta_pieces {c : List Nat} (h : ∀ b ∈ c, b < 256) (hne : c ≠ [])
    (hsize : c.length ≤ responseChunkBytes) :
    (framePayloads (deltaPayload c)).map payloadDocument = (chunkPieces c).map Piece.document := by
  have hlength := length_encodePayload_delta h
  unfold chunkPieces
  split_ifs with hsmall
  · unfold deltaLimit at hsmall
    have hnonempty : encodePayload (deltaPayload c) ≠ [] := by
      intro hnil
      rw [hnil, List.length_nil] at hlength
      omega
    have hone : (encodePayload (deltaPayload c)).length ≤ eventChunkBytes := by
      unfold eventChunkBytes
      omega
    rw [framePayloads_of_le hnonempty hone]
    simp only [List.map_cons, List.map_nil, payloadDocument_delta h hne, Piece.document]
  · unfold deltaLimit at hsmall
    unfold responseChunkBytes at hsize
    have hlarge : eventChunkBytes < (encodePayload (deltaPayload c)).length := by
      unfold eventChunkBytes
      omega
    have htwo : (encodePayload (deltaPayload c)).length ≤ 2 * eventChunkBytes := by
      unfold eventChunkBytes
      omega
    have hbytes : ∀ b ∈ encodePayload (deltaPayload c), b < 256 := by
      have hhead : ∀ x ∈ deltaHead, x < 256 := by decide
      have htail : ∀ x ∈ deltaTail, x < 256 := by decide
      intro x hx
      rw [encodePayload_delta h, List.mem_append, List.mem_append] at hx
      rcases hx with (hx | hx) | hx
      · exact hhead x hx
      · have := Base64.isText_encode h x hx
        omega
      · exact htail x hx
    obtain ⟨hfirst, hsecond⟩ := delta_halves h hlarge
    rw [framePayloads_of_two hlarge htwo]
    simp only [List.map_cons, List.map_nil, Piece.document]
    rw [payloadDocument_chunk fun b hb => hbytes b (List.mem_of_mem_take hb), hfirst,
      payloadDocument_chunk fun b hb => hbytes b (List.mem_of_mem_drop hb), hsecond]

/-- Event by event, the payloads of an answer show its pieces. -/
theorem Reply.frames_pieces (r : Reply) :
    (frames r.events).map (fun f => payloadDocument f.2) = r.pieces.map Piece.document := by
  have hchunks : ∀ cs : List (List Nat), (∀ c ∈ cs, c ∈ r.chunks) →
      (frames (cs.map fun c => (Str.ofString "output.delta", deltaPayload c))).map
      (fun f => payloadDocument f.2) =
        (cs.flatMap chunkPieces).map Piece.document := by
    intro cs hcs
    induction cs with
    | nil => rfl
    | cons c cs ih =>
      have hc := hcs c (by simp)
      obtain ⟨hne, hsize⟩ := r.sized c hc
      have hpieces := delta_pieces (r.bytes c hc) hne hsize
      have hrest := ih fun x hx => hcs x (by simp [hx])
      simp only [frames, List.map_cons, List.flatMap_cons, List.map_append, List.map_map] at hrest ⊢
      rw [hrest, ← hpieces]
      rfl
  have hlast : framePayloads completedPayload = [completedPayload] := by
    apply framePayloads_of_le <;> decide +kernel
  have hall := hchunks r.chunks fun c hc => hc
  simp only [Reply.events, Reply.pieces, frames_append, List.map_append, ← hall, List.append_assoc]
  simp [frames, hlast, Piece.document, payloadDocument_completed, Function.comp_def]

/-- One GET through the tunnel: a new request, whose answer the waker reads as bytes. -/
structure Exchange extends Reply where
  requestId : Str
  stamps : EventStamps
  buffer : EventBuffer
  fresh : Holds stamps requestId [] buffer
  raw : List Nat
  /-- The bytes are JSON text of the event list. -/
  printed : Bytes.loads raw =
    some (eventList stamps ((buffer.appendEvents stamps requestId toReply.events).after requestId
    (-1)))

/-- What is found in the last items depends on what the items give. -/
theorem findSome?_lastN_congr {α β γ : Type*} {f : α → Option γ} {g : β → Option γ} {xs : List α}
    {ys : List β} (n : Nat)
    (h : xs.map f = ys.map g) : (lastN n xs).findSome? f = (lastN n ys).findSome? g := by
  calc (lastN n xs).findSome? f
      = ((lastN n xs).map f).findSome? id := by rw [List.findSome?_map, Function.id_comp]
    _ = ((lastN n ys).map g).findSome? id := by rw [← lastN_map, h, lastN_map]
    _ = (lastN n ys).findSome? g := by rw [List.findSome?_map, Function.id_comp]

/-- What `_gateway_body` makes of the answer. -/
theorem gatewayBody_eq (e : Exchange) :
    gatewayBody e.raw = .ok ((lastN maxEvents e.pieces).findSome? Piece.document) := by
  have hbuffer := (e.fresh.appendEvents e.events).after_neg_one
  rw [List.nil_append] at hbuffer
  have hbody : gatewayBody e.raw =
    .ok (((e.buffer.appendEvents e.stamps e.requestId e.events).after e.requestId (-1)).findSome?
      fun event => payloadDocument event.payload) := by
    unfold gatewayBody
    rw [e.printed]
    show Except.ok (List.findSome? eventDocument (List.map _ _)) = _
    rw [List.findSome?_map]
    rfl
  have hnumbered : (numbered e.stamps e.requestId (frames e.events)).map
    (fun event => payloadDocument event.payload) =
      e.pieces.map Piece.document := by
    rw [← e.frames_pieces, ← map_frame_numbered e.stamps e.requestId (frames e.events),
      List.map_map, map_frame_numbered]
    rfl
  rw [hbody, hbuffer, findSome?_lastN_congr maxEvents hnumbered]

/-! ## The same signals on both sides -/

/-- The JSON of an answer as the container reads it (`fetch_json`); `isJson` is the client's check
of its content type. -/
def fetchJson (isJson : Str → Bool) (r : Reply) : Option Value :=
  if isJson r.contentType then some r.doc else none

/-- The waker reads what the gateway answered on every path: each body comes back, its busy check is
that of the container (where the container can read the answers), and it finds a job exactly when it
is
listed. -/
structure ReadBack (isJson : Str → Bool) (gateway : String → Exchange) : Prop where
  bodies : ∀ path, gatewayBody (gateway path).raw = .ok (some (gateway path).doc)
  busy : ∀ get : String → Option Value, (∀ path, gatewayBody (gateway path).raw = .ok (get path)) →
    (∀ path, isJson (gateway path).contentType = true) →
      sandboxBusy get = probeBackgroundActivity fun path => fetchJson isJson (gateway path).toReply
  jobs : ∀ get : String → Option Value, (∀ path, gatewayBody (gateway path).raw = .ok (get path)) →
    ∀ job, (findJob (get "/api/crons") job).isSome = true ↔ ListsJob (gateway "/api/crons").doc job

/-- Both functions ask for the same four signals. -/
theorem sandboxBusy_eq_probe (get : String → Option Value) :
    sandboxBusy get = probeBackgroundActivity get := by
  unfold sandboxBusy probeBackgroundActivity
  rw [Bool.or_assoc (runnerBusy _), Bool.or_comm (healthBusy _), ← Bool.or_assoc]

theorem findJob_isSome (crons : Value) (job : Str) : (findJob (some crons) job).isSome = true ↔
    ListsJob crons job := by
  constructor
  · intro h
    unfold findJob at h
    split at h
    · next jobs hjobs =>
      obtain ⟨fields, rfl⟩ : ∃ fields, crons = .obj fields := by
        cases crons <;> simp [field] at hjobs
        exact ⟨_, rfl⟩
      obtain ⟨j, hj, hsome⟩ := List.findSome?_isSome_iff.1 h
      split at hsome
      · next entry =>
        split at hsome
        · next id hid =>
          split at hsome
          · next heq => exact ⟨fields, jobs, entry, rfl, hjobs, hj, heq ▸ hid⟩
          · simp at hsome
        · simp at hsome
      · simp at hsome
    · simp at h
  · rintro ⟨fields, jobs, entry, rfl, hjobs, hmem, hid⟩
    have hfield : field "jobs" (some (.obj fields)) = some (.arr jobs) := hjobs
    unfold findJob
    rw [hfield]
    refine List.findSome?_isSome_iff.2 ⟨.obj entry, hmem, ?_⟩
    simp [hid]

/-- The tunnel is faithful exactly to the answers that a single event brings whole. -/
theorem gateway_read_iff (isJson : Str → Bool) (gateway : String → Exchange) :
    ReadBack isJson gateway ↔ ∀ path, (gateway path).Whole := by
  constructor
  · intro h path
    have hbody := h.bodies path
    rw [gatewayBody_eq] at hbody
    exact Except.ok.inj hbody
  · intro h
    have hbodies : ∀ path, gatewayBody (gateway path).raw = .ok (some (gateway path).doc) := by
      intro path
      rw [gatewayBody_eq, h path]
    have hget : ∀ get : String → Option Value,
      (∀ path, gatewayBody (gateway path).raw = .ok (get path)) →
        get = fun path => some (gateway path).doc := by
      intro get hread
      funext path
      exact Except.ok.inj ((hread path).symm.trans (hbodies path))
    refine ⟨hbodies, fun get hread hjson => ?_, fun get hread job => ?_⟩
    · rw [hget get hread, sandboxBusy_eq_probe]
      congr 1
      funext path
      simp [fetchJson, hjson path]
    · rw [hget get hread]
      exact findJob_isSome _ job

/-- A body that arrives as one chunk whose delta is one event is read back, unless the head is a
document itself. -/
theorem Reply.whole_of_chunk (r : Reply) {c : List Nat} (hchunks : r.chunks = [c])
    (hsize : c.length ≤ deltaLimit)
    (hdoc : Bytes.loads c = some r.doc)
    (hone : framePayloads (acceptedPayload r.contentType r.headers) =
      [acceptedPayload r.contentType r.headers])
    (hhead : payloadDocument (acceptedPayload r.contentType r.headers) = none) : r.Whole := by
  have hpieces : r.pieces = [.head (acceptedPayload r.contentType r.headers), .chunk c, .part] := by
    simp [Reply.pieces, hone, hchunks, chunkPieces, hsize]
  have hlast : lastN maxEvents r.pieces = r.pieces := by
    rw [hpieces]
    exact lastN_of_le (by simp [maxEvents])
  rw [Reply.Whole, hlast, hpieces]
  simp [Piece.document, hhead, hdoc, Option.filter, r.document]

/-! ## Answers that exist -/

theorem safe_encode {bs : List Nat} (h : ∀ b ∈ bs, b < 256) :
    Str.safe (Base64.encode bs) = true := by
  have htext := Base64.isText_encode h
  simp only [Str.safe, List.all_eq_true, Bool.and_eq_true, decide_eq_true_eq,
    Bool.not_eq_true', Str.isHigh,
    decide_eq_false_iff_not]
  intro c hc
  have := htext c hc
  omega

theorem plain_framePayloads {payload : Fields} (h : Json.plainFields payload = true) :
    ∀ p ∈ framePayloads payload, Json.plainFields p = true := by
  have hsorted : (Json.sortKeys (.obj payload)).plain = true := by
    rw [Json.plain_sortKeys]
    exact h
  have hbytes : ∀ b ∈ encodePayload payload, b < 256 := by
    intro b hb
    have := Json.dumps_ascii _ hsorted b hb
    omega
  intro p hp
  unfold framePayloads at hp
  simp only at hp
  split_ifs at hp
  · rw [List.mem_singleton.1 hp]
    exact h
  · obtain ⟨chunk, hchunk, rfl⟩ := List.mem_map.1 hp
    have hsafe := safe_encode fun b hb => hbytes b (mem_of_mem_chunk hchunk b hb)
    have hkeys : Str.safe (Str.ofString "chunkData") = true ∧
      Str.safe (Str.ofString "chunkIndex") = true ∧
        Str.safe (Str.ofString "chunkTotal") = true := by decide
    simp [FrameChunk.payload, Json.plainFields, Value.plain, hsafe, hkeys]

theorem plain_frames {events : List (Str × Fields)} (h : ∀ e ∈ events, e.1.safe = true ∧
    Json.plainFields e.2 = true) :
    ∀ f ∈ frames events, f.1.safe = true ∧ Json.plainFields f.2 = true := by
  intro f hf
  obtain ⟨e, he, hf⟩ := List.mem_flatMap.1 hf
  obtain ⟨p, hp, rfl⟩ := List.mem_map.1 hf
  exact ⟨(h e he).1, plain_framePayloads (h e he).2 p hp⟩

theorem plain_envelope {i : Nat} {r operation : Str} {payload : Fields} (hr : r.safe = true)
    (hop : operation.safe = true)
    (hpayload : Json.plainFields payload = true) :
    (RuntimeEvent.envelope ⟨i, some r, operation, payload, blankStamps.correlationId, []⟩
        []).plain = true := by
  have hnil : Str.safe [] = true := rfl
  have hid : Str.safe blankStamps.correlationId = true := by decide
  have hkeys : ∀ key ∈ ["correlationId", "messageId", "operation", "payload", "requestId",
    "sequence", "timestamp", "version",
      "kirocrew-agentcore.v1"], Str.safe (Str.ofString key) = true := by decide
  simp only [List.mem_cons, List.not_mem_nil, or_false, forall_eq_or_imp, forall_eq] at hkeys
  obtain ⟨h1, h2, h3, h4, h5, h6, h7, h8, h9⟩ := hkeys
  simp [RuntimeEvent.envelope, Value.plain, Json.plainFields, hr, hop, hpayload, hnil, hid, h1, h2,
    h3, h4, h5, h6, h7, h8, h9]

theorem plain_eventList {r : Str} {fs : List Frame} {n : Nat} (hr : r.safe = true)
    (h : ∀ f ∈ fs, f.1.safe = true ∧ Json.plainFields f.2 = true) :
    (eventList blankStamps (lastN n (numbered blankStamps r fs))).plain = true := by
  have hkey : Str.safe (Str.ofString "events") = true := by decide
  simp only [eventList, Value.plain, Json.plainFields, hkey, Bool.and_true, Bool.true_and,
    Json.plainItems_iff]
  intro v hv
  obtain ⟨event, hevent, rfl⟩ := List.mem_map.1 hv
  obtain ⟨i, hi, rfl⟩ := List.mem_mapIdx.1 (List.mem_of_mem_drop hevent)
  exact plain_envelope hr (h _ (List.getElem_mem hi)).1 (h _ (List.getElem_mem hi)).2

theorem Reply.plain_events (r : Reply)
    (hhead : Json.plainFields (acceptedPayload r.contentType r.headers) = true) :
    ∀ e ∈ r.events, e.1.safe = true ∧ Json.plainFields e.2 = true := by
  intro e he
  simp only [Reply.events, List.cons_append, List.mem_cons, List.mem_append, List.mem_map,
    List.not_mem_nil, or_false] at he
  rcases he with rfl | ⟨c, hc, rfl⟩ | rfl
  · exact ⟨rfl, hhead⟩
  · have hdata := safe_encode (r.bytes c hc)
    have hkeys : ∀ key ∈ ["data", "encoding", "transport", "base64", "http"],
      Str.safe (Str.ofString key) = true := by decide
    simp only [List.mem_cons, List.not_mem_nil, or_false, forall_eq_or_imp, forall_eq] at hkeys
    obtain ⟨h1, h2, h3, h4, h5⟩ := hkeys
    refine ⟨rfl, ?_⟩
    simp [deltaPayload, Json.plainFields, Value.plain, hdata, h1, h2, h3, h4, h5]
  · exact ⟨rfl, rfl⟩

/-- A reply with a head of safe strings is the answer of some exchange. -/
def Reply.exchange (r : Reply) (hhead : Json.plainFields (acceptedPayload r.contentType r.headers) =
    true) : Exchange where
  toReply := r
  requestId := []
  stamps := blankStamps
  buffer := {}
  fresh := .empty blankStamps []
  raw :=
    Json.dumps (eventList blankStamps (lastN maxEvents (numbered blankStamps [] (frames r.events))))
  printed := by
    have hevents := r.plain_events hhead
    have hplain := plain_eventList (n := maxEvents) (r := []) rfl (plain_frames hevents)
    have hbuffer := ((Holds.empty blankStamps []).appendEvents r.events).after_neg_one
    rw [List.nil_append] at hbuffer
    rw [hbuffer, Bytes.loads_ascii (Json.dumps_ascii _ hplain), Json.loads_dumps hplain]

namespace Tunnel

/-- A task runner with one running task, whose log is `n` letters. -/
def runner (n : Nat) : Value :=
  .obj [(Str.ofString "runs", .arr [.obj [(Str.ofString "running", .bool true),
    (Str.ofString "log", .str (List.replicate n 97))]])]

theorem runner_plain (n : Nat) : (runner n).plain = true := by
  have hlog : Str.safe (List.replicate n 97) = true := by
    rw [Str.safe, List.all_eq_true]
    intro c hc
    rw [(List.mem_replicate.1 hc).2]
    rfl
  have hkeys : Str.safe (Str.ofString "runs") = true ∧ Str.safe (Str.ofString "running") = true ∧
      Str.safe (Str.ofString "log") = true := by decide
  simp [runner, Value.plain, Json.plainItems, Json.plainFields, hlog, hkeys]

theorem runner_length (n : Nat) : (Json.dumps (runner n)).length = n + 36 := by
  have hlog : Json.escape (List.replicate n 97) = List.replicate n 97 := by
    refine Json.escape_printable fun c hc => ?_
    rw [(List.mem_replicate.1 hc).2]
    decide
  have hkeys : (Json.printStr (Str.ofString "runs")).length = 6 ∧
    (Json.printStr (Str.ofString "running")).length = 9 ∧
      (Json.printStr (Str.ofString "log")).length = 5 := by decide
  have hvalue : (Json.printStr (List.replicate n 97)).length = n + 2 := by
    rw [Json.printStr, hlog]
    simp
  simp only [runner, Json.dumps, Json.dumpsItems, Json.dumpsFields, List.length_cons,
    List.length_append, List.length_nil,
    hkeys, hvalue]
  omega

/-- The answer arrives as one chunk. -/
def reply (n : Nat) (hn : n ≤ 16000) : Reply where
  contentType := Str.ofString "application/json; charset=utf-8"
  headers := []
  chunks := [Json.dumps (runner n)]
  text := Json.dumps (runner n)
  doc := runner n
  bytes c hc b hb := by
    rw [List.mem_singleton.1 hc] at hb
    have := Json.dumps_ascii _ (runner_plain n) b hb
    omega
  sized c hc := by
    rw [List.mem_singleton.1 hc, ← List.length_pos_iff, runner_length]
    unfold responseChunkBytes
    omega
  bounded := by
    rw [List.flatten_singleton, runner_length]
    unfold maxLoopbackResponseBytes
    omega
  decoded := by
    rw [List.flatten_singleton]
    exact Bytes.decodeUtf8_ascii fun c hc => (Json.dumps_ascii _ (runner_plain n) c hc).2
  parsed := Json.loads_dumps (runner_plain n)
  document := rfl

theorem reply_head : Json.plainFields
    (acceptedPayload (Str.ofString "application/json; charset=utf-8") []) = true := by
  decide +kernel

/-- One chunk, but its delta takes two events. -/
theorem reply_unread (n : Nat) (hn : n ≤ 16000) (hsplit : 12215 ≤ n) :
    (lastN maxEvents (reply n hn).pieces).findSome? Piece.document = none := by
  have hframes : framePayloads
    (acceptedPayload (Str.ofString "application/json; charset=utf-8") []) =
      [acceptedPayload (Str.ofString "application/json; charset=utf-8") []] := by
    apply framePayloads_of_le <;> decide +kernel
  have hhead : payloadDocument (acceptedPayload (Str.ofString "application/json; charset=utf-8")
      []) = none := by
    rw [← Option.isNone_iff_eq_none]
    decide +kernel
  have hlarge : ¬ (Json.dumps (runner n)).length ≤ deltaLimit := by
    rw [runner_length, deltaLimit]
    omega
  have hpieces : (reply n hn).pieces =
      [.head (acceptedPayload (Str.ofString "application/json; charset=utf-8") []), .part, .part,
      .part] := by
    simp [Reply.pieces, reply, hframes, chunkPieces, hlarge]
  rw [hpieces]
  simp [lastN, maxEvents, Piece.document, hhead]

/-- The running task is seen inside the container and not by the waker. -/
theorem long_answer_unread : ¬ ∀ (isJson : Str → Bool) (gateway : String → Exchange),
    ReadBack isJson gateway := by
  intro h
  let e : Exchange := (reply 12300 (by decide)).exchange reply_head
  have hread : gatewayBody e.raw = .ok none := by
    rw [gatewayBody_eq]
    exact congrArg Except.ok (reply_unread 12300 (by decide) (by decide))
  have hbusy := (h (fun _ => true) fun _ => e).busy (fun _ => none) (fun _ => hread) fun _ => rfl
  have hinside : probeBackgroundActivity (fun _ => fetchJson (fun _ => true) e.toReply) = true :=
    rfl
  rw [hinside] at hbusy
  exact absurd hbusy (by decide)

end Tunnel

end KiroCrew
