import KiroCrew.Lib.Bytes
import KiroCrew.Lib.Js
import KiroCrew.Transport

/-!
# The shell's side of the protocol

What `protocol.ts` and `agentcore-channel.ts` do with the envelopes of the adapter:
`validateEnvelope`, the assembler that joins the chunks of a large payload, and
`RuntimeEventStream`, which checks the wire sequence and numbers the logical events. A `Map` is a
function to options. Whether `Date.parse` gives a date is a parameter.
-/

namespace KiroCrew.Shell

inductive ValidationCode
  | invalidMessage | unsupportedProtocol | sequenceError
deriving DecidableEq, Repr

structure ProtocolValidationError where
  code : ValidationCode
  message : String
deriving DecidableEq, Repr

inductive ConnectionCode
  | authenticationFailed | invalidRuntimeUrl | transportFailed
deriving DecidableEq, Repr

/-- `AgentCoreConnectionError` -/
structure ConnectionError where
  code : ConnectionCode
  message : String
  retryable : Bool
deriving DecidableEq, Repr

/-! ## Envelopes -/

def clientOperations : List Str :=
  [Str.ofString "connection.hello", Str.ofString "chat.submit", Str.ofString "chat.cancel",
    Str.ofString "kiro.login.start",
    Str.ofString "kiro.status", Str.ofString "kiro.logout", Str.ofString "kirocrew.ws.send",
    Str.ofString "kirocrew.ws.close",
    Str.ofString "sandbox.prepare_stop", Str.ofString "ping"]

def serverOperations : List Str :=
  [Str.ofString "connection.ready", Str.ofString "sandbox.state", Str.ofString "kiro.auth_status",
    Str.ofString "kiro.auth_required", Str.ofString "kiro.authenticated",
    Str.ofString "request.accepted",
    Str.ofString "output.delta", Str.ofString "tool.activity", Str.ofString "artifact.created",
      Str.ofString "request.completed",
    Str.ofString "checkpoint.committed", Str.ofString "error", Str.ofString "pong"]

def operations : List Str := clientOperations ++ serverOperations

/-- `String(value)`, as far as it can be the name of an operation: an array of one value is printed
as that value. -/
def operationName : Js.Value → Option Str
  | .string s => some s
  | .array [v] => operationName v
  | _ => none

/-- `OPERATIONS.has(String(value))` -/
def knownOperation (v : Js.Value) : Prop := (operationName v).any (· ∈ operations) = true

instance (v : Js.Value) : Decidable (knownOperation v) := inferInstanceAs (Decidable (_ = true))

/-- An envelope that `validateEnvelope` has let through. `requestId` is `none` when it is null or
missing. -/
structure ProtocolEnvelope where
  messageId : Str
  requestId : Option Str
  operation : Js.Value
  sequence : ℕ
  timestamp : Str
  correlationId : Str
  payload : Js.Fields
  sequence_safe : sequence < 2 ^ 53

def unsupportedVersion : ProtocolValidationError :=
  ⟨.unsupportedProtocol, "Unsupported protocol version."⟩

def invalidEnvelope : ProtocolValidationError :=
  ⟨.invalidMessage, "Envelope does not match the protocol contract."⟩

def validRequestId : Option Js.Value → Option (Option Str)
  | none => some none
  | some .null => some none
  | some (.string r) => if isUlid r then some (some r) else none
  | _ => none

def validSequence (v : Option Js.Value) : Option {n : ℕ // n < 2 ^ 53} :=
  match Js.safeInteger v with
  | some z => if h : 0 ≤ z ∧ z < 2 ^ 53 then some ⟨z.toNat, by omega⟩ else none
  | none => none

def validateFields (dateParse : Str → Bool) (fields : Js.Fields) : Option ProtocolEnvelope :=
  match Js.get fields (Str.ofString "messageId"),
    validRequestId (Js.get fields (Str.ofString "requestId")),
    Js.get fields (Str.ofString "correlationId"), Js.get fields (Str.ofString "operation"),
    validSequence (Js.get fields (Str.ofString "sequence")),
      Js.get fields (Str.ofString "timestamp"),
    Js.get fields (Str.ofString "payload") with
  | some (.string messageId), some requestId, some (.string correlationId), some operation,
      some sequence,
      some (.string timestamp), some (.object payload) =>
    if isUlid messageId ∧ isUlid correlationId ∧ knownOperation operation ∧ dateParse timestamp then
      some ⟨messageId, requestId, operation, sequence.1, timestamp, correlationId,
        payload, sequence.2⟩
    else none
  | _, _, _, _, _, _, _ => none

def validateEnvelope (dateParse : Str → Bool) : Js.Value →
    Except ProtocolValidationError ProtocolEnvelope
  | .object fields =>
    match Js.get fields (Str.ofString "version") with
    | some (.string version) =>
      if version = Str.ofString "kirocrew-agentcore.v1" then
        match validateFields dateParse fields with
        | some envelope => .ok envelope
        | none => .error invalidEnvelope
      else .error unsupportedVersion
    | _ => .error unsupportedVersion
  | _ => .error ⟨.invalidMessage, "Envelope must be an object."⟩

/-! ## Chunks -/

def chunkKeys : List Str :=
  [Str.ofString "chunkData", Str.ofString "chunkIndex", Str.ofString "chunkTotal"]

/-- The payload has the three keys of a chunk and no other. -/
def ChunkShaped (payload : Js.Fields) : Prop :=
  (Js.keys payload).length = chunkKeys.length ∧ ∀ key ∈ chunkKeys, key ∈ Js.keys payload

instance (payload : Js.Fields) : Decidable (ChunkShaped payload) :=
  inferInstanceAs (Decidable (_ ∧ _))

def invalidChunk : ProtocolValidationError := ⟨.invalidMessage, "Frame chunk metadata is invalid."⟩

def frameChunkOf (payload : Js.Fields) : Except ProtocolValidationError (Option FrameChunk) :=
  if ChunkShaped payload then
    match Js.get payload (Str.ofString "chunkData"),
      Js.safeInteger (Js.get payload (Str.ofString "chunkIndex")),
      Js.safeInteger (Js.get payload (Str.ofString "chunkTotal")) with
    | some (.string chunkData), some chunkIndex, some chunkTotal =>
      if chunkTotal < 1 ∨ chunkIndex < 0 ∨ chunkTotal ≤ chunkIndex then .error invalidChunk
      else
        match Base64.atob chunkData with
        | some data => .ok (some ⟨chunkIndex.toNat, chunkTotal.toNat, data⟩)
        | none => .error ⟨.invalidMessage, "Frame chunk data is not base64."⟩
    | _, _, _ => .error invalidChunk
  else .ok none

def outOfOrder : ProtocolValidationError :=
  ⟨.sequenceError, "Frame chunks are incomplete or out of order."⟩

def reassembleChunks (chunks : List FrameChunk) : Except ProtocolValidationError (List Nat) :=
  match chunks with
  | [] => .error ⟨.invalidMessage, "At least one frame chunk is required."⟩
  | first :: _ =>
    if first.total ≠ chunks.length ∨
        chunks.zipIdx.any (fun (chunk, index) =>
        decide (chunk.total ≠ first.total ∨ chunk.index ≠ index)) then .error outOfOrder
    else .ok (chunks.flatMap FrameChunk.data)

def parseChunkedPayload (bytes : List Nat) : Except ProtocolValidationError Js.Fields :=
  match Js.parse (TextDecoder.decode bytes) with
  | none => .error ⟨.invalidMessage, "The reassembled payload is not valid JSON."⟩
  | some (.object fields) => .ok fields
  | some _ => .error ⟨.invalidMessage, "The reassembled payload is not an object."⟩

/-- The groups of chunks not yet complete. -/
abbrev Pending := Str → Option (List FrameChunk)

/-- A chunk of the group `chunks`: the group it completes, or is still part of. -/
def extend (chunks : List FrameChunk) (chunk : FrameChunk) :
    Except ProtocolValidationError (List FrameChunk) :=
  if chunk.index ≠ chunks.length ∨
    chunks.head?.any (fun first => decide (chunk.total ≠ first.total)) then .error outOfOrder
  else .ok (chunks ++ [chunk])

/-- `ChunkedEnvelopeAssembler.accept`. The joined envelope is validated again, which its fields
other than the payload pass as before. -/
def assemble (pending : Pending) (envelope : ProtocolEnvelope) :
    Except ProtocolValidationError (Pending × Option ProtocolEnvelope) :=
  let key := envelope.requestId.getD []
  match frameChunkOf envelope.payload with
  | .error error => .error error
  | .ok none => if (pending key).isSome then .error outOfOrder else .ok (pending, some envelope)
  | .ok (some chunk) =>
    match extend ((pending key).getD []) chunk with
    | .error error => .error error
    | .ok chunks =>
      if chunks.length < chunk.total then .ok (Function.update pending key (some chunks), none)
      else
        match (reassembleChunks chunks).bind parseChunkedPayload with
        | .error error => .error error
        | .ok payload =>
          .ok (Function.update pending key none, some { envelope with payload := payload })

/-! ## The event stream -/

def runtimeOperations : List Str :=
  [Str.ofString "request.accepted", Str.ofString "output.delta", Str.ofString "request.completed",
    Str.ofString "error"]

/-- `RUNTIME_OPERATIONS.has(value)`, with the name. -/
def runtimeOperation : Js.Value → Option Str
  | .string s => if s ∈ runtimeOperations then some s else none
  | _ => none

/-- `AgentCoreRuntimeEvent` -/
structure Event where
  requestId : Str
  sequence : ℕ
  operation : Str
  payload : Js.Fields

structure Item where
  envelope : ProtocolEnvelope
  event : Option Event

structure RuntimeEventStream where
  pending : Pending := fun _ => none
  wire : Str → Option ℕ := fun _ => none
  logical : Str → Option ℕ := fun _ => none

def incomplete : ConnectionError :=
  ⟨.transportFailed, "The runtime response events are incomplete or out of order.", false⟩

namespace RuntimeEventStream

/-- The request of an envelope and its operation, when it is one that the wire sequence counts. -/
def counted (envelope : ProtocolEnvelope) : Option (Str × Str) :=
  match envelope.requestId, runtimeOperation envelope.operation with
  | some r, some operation => some (r, operation)
  | _, _ => none

/-- The check of the wire sequence. -/
def checkWire (s : RuntimeEventStream) (wire : ProtocolEnvelope) :
    Except ConnectionError RuntimeEventStream :=
  match counted wire with
  | some (r, _) =>
    if wire.sequence ≠ (s.wire r).elim 0 (· + 1) then .error incomplete
    else .ok { s with wire := Function.update s.wire r (some wire.sequence) }
  | none => .ok s

/-- The numbering of a whole envelope. -/
def number (s : RuntimeEventStream) (envelope : ProtocolEnvelope) : RuntimeEventStream × Item :=
  match counted envelope with
  | some (r, operation) =>
    let sequence := (s.logical r).getD 0
    ({ s with logical := Function.update s.logical r (some (sequence + 1)) },
      ⟨envelope, some ⟨r, sequence, operation, envelope.payload⟩⟩)
  | none => (s, ⟨envelope, none⟩)

def accept (s : RuntimeEventStream) (wire : ProtocolEnvelope) :
    Except ConnectionError (RuntimeEventStream × Option Item) :=
  match s.checkWire wire with
  | .error error => .error error
  | .ok s =>
    match assemble s.pending wire with
    | .error error => .error ⟨.transportFailed, error.message, false⟩
    | .ok (pending, none) => .ok ({ s with pending := pending }, none)
    | .ok (pending, some envelope) =>
      let (s, item) := number { s with pending := pending } envelope
      .ok (s, some item)

/-- The envelopes that arrive, up to the first error. -/
def run (s : RuntimeEventStream) : List ProtocolEnvelope → RuntimeEventStream × List Item ×
    Option ConnectionError
  | [] => (s, [], none)
  | wire :: wires =>
    match s.accept wire with
    | .error error => (s, [], some error)
    | .ok (s, item) =>
      let (s, items, error) := run s wires
      (s, item.toList ++ items, error)

end RuntimeEventStream

end KiroCrew.Shell
