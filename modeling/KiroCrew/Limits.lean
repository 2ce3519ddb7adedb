import KiroCrew.Lib.Batches
import KiroCrew.Lib.Bytes
import KiroCrew.Lib.Js
import KiroCrew.Transport

/-!
# The sizes of what the shell sends

The shell counts the bytes of a body and the UTF-16 units of its frames, the adapter the bytes of
the JSON text. `admitted_iff` says for which sizes the adapter takes what the shell has let through.
-/

namespace KiroCrew

open Json (Value)

/-! ## The adapter -/

/-- `MAX_REQUEST_BYTES` -/
def maxRequestBytes : Nat := 1024 * 1024

def maxLoopbackBodyBytes : Nat := 1024 * 1024

def maxTunnelBatchFrames : Nat := 256

/-- A frame for the upstream socket. -/
inductive SocketFrame
  | text (s : Str)
  | bytes (bs : List Nat)
deriving DecidableEq, Repr

/-- The body that `LoopbackRequest.from_payload` decodes, when it is not too large. -/
def loopbackBody (payload : Fields) : Option (List Nat) :=
  let body := match (Value.get payload (Str.ofString "body")).getD (.str []),
      (Value.get payload (Str.ofString "bodyEncoding")).getD (.str (Str.ofString "utf8")) with
    | .str body, .str encoding =>
      if encoding = Str.ofString "base64" then Base64.decode body
      else if encoding = Str.ofString "utf8" then Bytes.encodeUtf8 body
      else none
    | _, _ => none
  body.filter fun body => decide (body.length ≤ maxLoopbackBodyBytes)

def decodeFrame : Option Value → Value → Option SocketFrame
  | some (.str data), .str encoding =>
    if encoding = Str.ofString "utf8" then some (.text data)
    else if encoding = Str.ofString "base64" then (Base64.decode data).map .bytes
    else none
  | _, _ => none

/-- A frame's data and encoding, where `encoding` may be missing. -/
def frameOf (item : Fields) : Option Value × Value :=
  (Value.get item (Str.ofString "data"), (Value.get item (Str.ofString "encoding")).getD
    (.str (Str.ofString "utf8")))

def dataLength : Option Value → Nat
  | some (.str data) => data.length
  | _ => 0

/-- The loop of `_tunnel_frames`. -/
def decodeFrames (total : Nat) : List (Option Value × Value) → Option (List SocketFrame)
  | [] => some []
  | (data, encoding) :: items =>
    let total := total + dataLength data
    if maxLoopbackBodyBytes < total then none
    else (decodeFrame data encoding).bind fun frame => (decodeFrames total items).map (frame :: ·)

def objectOf : Value → Option Fields
  | .obj fields => some fields
  | _ => none

/-- `_tunnel_frames`; `none` is the invalid request. -/
def tunnelFrames (payload : Fields) : Option (List SocketFrame) :=
  match Value.get payload (Str.ofString "frames") with
  | none | some .null => decodeFrames 0 [frameOf payload]
  | some (.arr items) =>
    if 0 < items.length ∧ items.length ≤ maxTunnelBatchFrames then
      (items.mapM objectOf).bind fun items => decodeFrames 0 (items.map frameOf)
    else none
  | _ => none

namespace Shell

/-! ## The shell -/

def maxRequestBodyBytes : Nat := 1024 * 1024

def maxTunnelBatchChars : Nat := 512 * 1024

/-- A frame in the outbox. -/
inductive OutFrame
  | text (units : List Nat)
  | binary (bytes : List Nat)
deriving DecidableEq, Repr

/-- The size of a frame to `chunkFrames`. -/
def OutFrame.encoded : OutFrame → Nat
  | .text units => units.length
  | .binary bytes => (bytes.length + 2) / 3 * 4

def chunkFrames (frames : List OutFrame) : List (List OutFrame) :=
  Batches.pack OutFrame.encoded maxTunnelBatchChars frames

/-- What `#drain` makes of the frames in the outbox, 256 at a time. -/
def batches (frames : List OutFrame) : List (List OutFrame) :=
  (Batches.spans 255 frames).flatMap chunkFrames

/-- `encode` of `tunnelSend` -/
def OutFrame.fields : OutFrame → Fields
  | .text units =>
    [(Str.ofString "data", .str (Str.join units)),
      (Str.ofString "encoding", .str (Str.ofString "utf8"))]
  | .binary bytes =>
    [(Str.ofString "data", .str (Base64.encode bytes)),
      (Str.ofString "encoding", .str (Str.ofString "base64"))]

/-- The strings of an invocation that do not depend on what is sent. -/
structure Session where
  requestId : Str
  bindingToken : Str
  tunnelId : Str

def invocation (x : Session) (operation : String) (payload : Fields) : Value :=
  .obj [(Str.ofString "version", .str (Str.ofString "kirocrew-agentcore.v1")),
    (Str.ofString "requestId", .str x.requestId),
    (Str.ofString "bindingToken", .str x.bindingToken),
    (Str.ofString "operation", .str (Str.ofString operation)),
    (Str.ofString "payload", .obj payload)]

def tunnelPayload (x : Session) : List OutFrame → Fields
  | [frame] => (Str.ofString "tunnelId", .str x.tunnelId) :: frame.fields
  | frames =>
    [(Str.ofString "tunnelId", .str x.tunnelId),
      (Str.ofString "frames", .arr (frames.map fun frame => .obj frame.fields))]

/-- A request of the page, its headers already filtered. -/
structure PageRequest where
  method : Str
  path : Str
  headers : Fields
  body : List Nat

def httpPayload (request : PageRequest) : Fields :=
  [(Str.ofString "method", .str request.method), (Str.ofString "path", .str request.path),
    (Str.ofString "transport", .str (Str.ofString "http")),
    (Str.ofString "headers", .obj request.headers),
    (Str.ofString "body", .str (Base64.encode request.body)),
      (Str.ofString "bodyEncoding", .str (Str.ofString "base64")),
    (Str.ofString "frames", .arr [])]

/-- What the adapter makes of an invocation's JSON text, whose value `json.loads` gives back. -/
def receive {α : Type} (x : Session) (operation : String) (payload : Fields)
    (decode : Fields → Option α) : Option α :=
  if (Js.stringify (invocation x operation payload)).length ≤ maxRequestBytes then
    decode payload else none

def receiveBody (x : Session) (request : PageRequest) : Option (List Nat) :=
  receive x "kirocrew.http" (httpPayload request) loopbackBody

def receiveFrames (x : Session) (frames : List OutFrame) : Option (List SocketFrame) :=
  receive x "kirocrew.ws.send" (tunnelPayload x frames) tunnelFrames

/-- The frame as the gateway should get it. -/
def OutFrame.delivered : OutFrame → SocketFrame
  | .text units => .text (Str.join units)
  | .binary bytes => .bytes bytes

/-- What the shell lets through: a body that is not too large, and frames that go through one at a
time. -/
structure Sending where
  session : Session
  request : PageRequest
  bytes : ∀ b ∈ request.body, b < 256
  accepted : request.body.length ≤ maxRequestBodyBytes
  frames : List OutFrame
  octets : ∀ bs, .binary bs ∈ frames → ∀ b ∈ bs, b < 256
  alone : ∀ frame ∈ frames, (receiveFrames session [frame]).isSome = true

/-- The adapter decodes the body, and from the batches the frames. -/
def Sending.Admitted (x : Sending) : Prop :=
  receiveBody x.session x.request = some x.request.body ∧
    ∃ decoded, (batches x.frames).mapM (receiveFrames x.session) = some decoded ∧
    decoded.flatten = x.frames.map OutFrame.delivered

/-! ## Decoding -/

theorem join_length_le (s : Str) : (Str.join s).length ≤ s.length := by
  induction s using Str.join.induct with
  | case1 => simp [Str.join]
  | case2 c => simp [Str.join]
  | case3 c d s h ih =>
    rw [Str.join, if_pos h, List.length_cons, List.length_cons, List.length_cons]
    omega
  | case4 c d s h ih =>
    rw [Str.join, if_neg h, List.length_cons, List.length_cons]
    exact Nat.succ_le_succ ih

theorem dataLength_le (frame : OutFrame) : dataLength (frameOf frame.fields).1 ≤ frame.encoded := by
  cases frame with
  | text units => exact join_length_le units
  | binary bytes =>
    show (Base64.encode bytes).length ≤ (bytes.length + 2) / 3 * 4
    rw [Base64.length_encode, Nat.mul_comm]

theorem decodeFrame_fields {frame : OutFrame} (h : ∀ bs, frame = .binary bs → ∀ b ∈ bs, b < 256) :
    decodeFrame (frameOf frame.fields).1 (frameOf frame.fields).2 = some frame.delivered := by
  cases frame with
  | text units => rfl
  | binary bytes =>
    show (Base64.decode (Base64.encode bytes)).map SocketFrame.bytes = _
    rw [Base64.decode_encode (h bytes rfl)]
    rfl

/-- Frames within the limit are decoded one by one. -/
theorem decodeFrames_fields {frames : List OutFrame} (hbytes : ∀ bs, .binary bs ∈ frames →
    ∀ b ∈ bs, b < 256) {total : Nat}
    (htotal : total + (frames.map OutFrame.encoded).sum ≤ maxLoopbackBodyBytes) :
    decodeFrames total (frames.map fun frame => frameOf frame.fields) =
        some (frames.map OutFrame.delivered) := by
  induction frames generalizing total with
  | nil => rfl
  | cons frame frames ih =>
    rw [List.map_cons, List.sum_cons] at htotal
    have hle := dataLength_le frame
    have hframe : decodeFrame (frameOf frame.fields).1 (frameOf frame.fields).2 =
        some frame.delivered :=
      decodeFrame_fields fun bs hbs => hbytes bs (hbs ▸ List.mem_cons_self)
    have hlater : total + dataLength (frameOf frame.fields).1 + (frames.map OutFrame.encoded).sum ≤
      maxLoopbackBodyBytes := by omega
    have hrest := ih (fun bs hbs => hbytes bs (List.mem_cons_of_mem _ hbs)) hlater
    rw [List.map_cons, decodeFrames, if_neg (by omega), hframe, Option.bind_some, hrest]
    rfl

theorem receiveFrames_single {x : Session} {frame : OutFrame} (hbytes : ∀ bs, frame = .binary bs →
    ∀ b ∈ bs, b < 256)
    (h : (receiveFrames x [frame]).isSome = true) : receiveFrames x [frame] =
    some [frame.delivered] := by
  have hframes : tunnelFrames (tunnelPayload x [frame]) = decodeFrames 0
      [frameOf frame.fields] := by
    cases frame <;> rfl
  rw [receiveFrames, receive, hframes] at h ⊢
  by_cases hsize : (Js.stringify
    (invocation x "kirocrew.ws.send" (tunnelPayload x [frame]))).length ≤ maxRequestBytes
  · rw [if_pos hsize] at h ⊢
    rw [decodeFrames, decodeFrame_fields hbytes] at h ⊢
    split_ifs at h ⊢
    · cases h
    · rfl
  · rw [if_neg hsize] at h
    cases h

/-- What the adapter decodes are the frames that the shell has encoded. -/
theorem delivered_of_decodeFrames {frames : List OutFrame}
    (hbytes : ∀ bs, .binary bs ∈ frames → ∀ b ∈ bs, b < 256) {total : Nat} {ds : List SocketFrame}
    (h : decodeFrames total (frames.map fun frame => frameOf frame.fields) = some ds) :
    ds = frames.map OutFrame.delivered := by
  induction frames generalizing total ds with
  | nil =>
    cases h
    rfl
  | cons frame frames ih =>
    have hframe : ∀ bs, frame = .binary bs → ∀ b ∈ bs, b < 256 := fun bs heq =>
      hbytes bs (heq ▸ List.mem_cons_self)
    rw [List.map_cons, decodeFrames, decodeFrame_fields hframe] at h
    split_ifs at h
    obtain ⟨rest, hrest, rfl⟩ := Option.map_eq_some_iff.1 h
    rw [ih (fun bs hbs => hbytes bs (List.mem_cons_of_mem _ hbs)) hrest, List.map_cons]

theorem delivered_of_receiveFrames {x : Session} {frames : List OutFrame}
    (hbytes : ∀ bs, .binary bs ∈ frames → ∀ b ∈ bs, b < 256) {ds : List SocketFrame}
    (h : receiveFrames x frames = some ds) : ds = frames.map OutFrame.delivered := by
  unfold receiveFrames receive at h
  split_ifs at h
  match frames, h with
  | [frame], h =>
    have hframes : tunnelFrames (tunnelPayload x [frame]) = decodeFrames 0
        [frameOf frame.fields] := by
      cases frame <;> rfl
    exact delivered_of_decodeFrames hbytes (hframes ▸ h)
  | [], h => cases h
  | a :: b :: rest, h =>
    have hget : Value.get (tunnelPayload x (a :: b :: rest)) (Str.ofString "frames") =
        some (.arr ((a :: b :: rest).map fun frame => .obj frame.fields)) := rfl
    have hitems : ((a :: b :: rest).map fun frame => Value.obj frame.fields).mapM objectOf =
        some ((a :: b :: rest).map OutFrame.fields) := by
      rw [List.mapM_map]
      exact List.mapM_pure
    rw [tunnelFrames, hget] at h
    dsimp only at h
    split_ifs at h
    rw [hitems, Option.bind_some, List.map_map] at h
    exact delivered_of_decodeFrames hbytes h

/-- A batch of several frames is decoded to them when its JSON text is not too long. -/
theorem receiveFrames_batch {x : Session} {frames : List OutFrame}
    (hbytes : ∀ bs, .binary bs ∈ frames → ∀ b ∈ bs, b < 256)
    (htwo : 2 ≤ frames.length) (hcount : frames.length ≤ maxTunnelBatchFrames)
    (hsum : (frames.map OutFrame.encoded).sum ≤ maxTunnelBatchChars) : receiveFrames x frames =
      if (Js.stringify (invocation x "kirocrew.ws.send" (tunnelPayload x frames))).length ≤
      maxRequestBytes then
        some (frames.map OutFrame.delivered)
      else none := by
  have hget : Value.get (tunnelPayload x frames) (Str.ofString "frames") =
      some (.arr (frames.map fun frame => .obj frame.fields)) := by
    match frames, htwo with
    | a :: b :: rest, _ => rfl
  have hitems : (frames.map fun frame => Value.obj frame.fields).mapM objectOf =
      some (frames.map OutFrame.fields) := by
    rw [List.mapM_map]
    exact List.mapM_pure
  have htotal : 0 + (frames.map OutFrame.encoded).sum ≤ maxLoopbackBodyBytes := by
    rw [Nat.zero_add]
    exact hsum.trans (by decide)
  have hframes : tunnelFrames (tunnelPayload x frames) = some (frames.map OutFrame.delivered) := by
    rw [tunnelFrames, hget]
    simp only [List.length_map]
    rw [if_pos ⟨by omega, hcount⟩, hitems, Option.bind_some, List.map_map]
    exact decodeFrames_fields hbytes htotal
  rw [receiveFrames, receive, hframes]

/-! ## Sizes -/

/-- The length of an invocation's JSON text. -/
def size (x : Session) (operation : String) (payload : Fields) : Nat :=
  (Js.stringify (invocation x operation payload)).length

theorem length_quote_encode {bs : List Nat} (h : ∀ b ∈ bs, b < 256) :
    (Js.quote (Base64.encode bs)).length = 4 * ((bs.length + 2) / 3) + 2 := by
  rw [Js.length_quote_plain, Base64.length_encode]
  intro c hc
  have hrange := Base64.isText_encode h c hc
  omega

theorem size_http (x : Session) {request : PageRequest} (h : ∀ b ∈ request.body, b < 256) :
    size x "kirocrew.http" (httpPayload request) =
      size x "kirocrew.http" (httpPayload { request with body := [] }) + 4 *
      ((request.body.length + 2) / 3) := by
  have hempty : (Js.quote (Base64.encode [])).length = 2 := rfl
  simp only [size, invocation, httpPayload, Js.stringify, Js.stringifyFields, List.length_append,
    List.length_cons,
    length_quote_encode h, hempty]
  omega

theorem size_items (x : Session) {items : List Value} (hne : items ≠ []) :
    size x "kirocrew.ws.send" [(Str.ofString "tunnelId", .str x.tunnelId),
    (Str.ofString "frames", .arr items)] + 1 =
      size x "kirocrew.ws.send" (tunnelPayload x []) +
      (items.map fun v => (Js.stringify v).length + 1).sum := by
  have hitems := Js.length_stringifyItems hne
  have hempty : (Js.stringifyItems []).length = 0 := rfl
  simp only [size, tunnelPayload, invocation, Js.stringify, Js.stringifyFields, List.length_append,
    List.length_cons,
    List.map_nil, hempty]
  omega

theorem size_batch (x : Session) {frames : List OutFrame} (htwo : 2 ≤ frames.length) :
    size x "kirocrew.ws.send" (tunnelPayload x frames) + 1 = size x "kirocrew.ws.send"
    (tunnelPayload x []) +
      (frames.map fun frame => (Js.stringify (.obj frame.fields)).length + 1).sum := by
  have hpayload : tunnelPayload x frames =
      [(Str.ofString "tunnelId", .str x.tunnelId),
      (Str.ofString "frames", .arr (frames.map fun frame => .obj frame.fields))] := by
    match frames, htwo with
    | a :: b :: rest, _ => rfl
  have hne : (frames.map fun frame => Value.obj frame.fields) ≠ [] := by
    rw [Ne, List.map_eq_nil_iff]
    rintro rfl
    exact absurd htwo (by decide)
  rw [hpayload, size_items x hne, List.map_map]
  rfl

theorem mem_batches {frames batch : List OutFrame} (h : batch ∈ batches frames) :
    batch ≠ [] ∧ batch.length ≤ maxTunnelBatchFrames ∧
    Batches.Fits OutFrame.encoded maxTunnelBatchChars batch ∧
      ∀ frame ∈ batch, frame ∈ frames := by
  obtain ⟨span, hspan, hbatch⟩ := List.mem_flatMap.1 h
  obtain ⟨hne, hfits⟩ := Batches.fits_of_mem_pack hbatch
  refine ⟨hne, (Batches.length_le_of_mem_pack hbatch).trans (Batches.length_le_of_mem_spans hspan),
    hfits, ?_⟩
  intro frame hframe
  have hmem : frame ∈ span := by
    rw [← Batches.flatten_pack span]
    exact List.mem_flatten.2 ⟨batch, hbatch, hframe⟩
  rw [← Batches.flatten_spans 255 frames]
  exact List.mem_flatten.2 ⟨span, hspan, hmem⟩

theorem flatten_batches (frames : List OutFrame) : (batches frames).flatten = frames := by
  have hspans : ∀ spans : List (List OutFrame), (spans.flatMap chunkFrames).flatten =
      spans.flatten := by
    intro spans
    induction spans with
    | nil => rfl
    | cons span spans ih =>
      rw [List.flatMap_cons, List.flatten_append, ih, List.flatten_cons, chunkFrames,
        Batches.flatten_pack]
  rw [batches, hspans, Batches.flatten_spans]

/-! ## What goes through -/

namespace Sending

variable (x : Sending)

/-- The JSON text of the body, and of every batch of several frames, is not too long. -/
def Small : Prop :=
  size x.session "kirocrew.http" (httpPayload { x.request with body := [] }) + 4 *
    ((x.request.body.length + 2) / 3) ≤ maxRequestBytes ∧
    ∀ batch ∈ batches x.frames, 2 ≤ batch.length →
      size x.session "kirocrew.ws.send" (tunnelPayload x.session []) +
        (batch.map fun frame => (Js.stringify (.obj frame.fields)).length + 1).sum ≤
        maxRequestBytes + 1

theorem receiveBody_iff : receiveBody x.session x.request = some x.request.body ↔
    size x.session "kirocrew.http" (httpPayload { x.request with body := [] }) + 4 *
    ((x.request.body.length + 2) / 3) ≤ maxRequestBytes := by
  have hbody : loopbackBody (httpPayload x.request) = some x.request.body := by
    have hdecode : loopbackBody (httpPayload x.request) =
        (Base64.decode (Base64.encode x.request.body)).filter fun body =>
        decide (body.length ≤ maxLoopbackBodyBytes) := rfl
    have haccepted : x.request.body.length ≤ maxLoopbackBodyBytes := x.accepted
    rw [hdecode, Base64.decode_encode x.bytes, Option.filter_some,
      if_pos (decide_eq_true haccepted)]
  rw [receiveBody, receive, hbody, ← size_http x.session x.bytes]
  show (if size x.session "kirocrew.http" (httpPayload x.request) ≤ maxRequestBytes then _ else _) =
    _ ↔ _
  split_ifs with h
  · exact iff_of_true rfl h
  · exact iff_of_false (fun h => by cases h) h

/-- A batch goes through when it is one frame, or small. -/
theorem receiveFrames_iff {batch : List OutFrame} (h : batch ∈ batches x.frames) :
    receiveFrames x.session batch = some (batch.map OutFrame.delivered) ∧
        (2 ≤ batch.length → size x.session "kirocrew.ws.send" (tunnelPayload x.session batch) ≤
        maxRequestBytes) ∨
      receiveFrames x.session batch = none ∧ 2 ≤ batch.length ∧
        maxRequestBytes < size x.session "kirocrew.ws.send" (tunnelPayload x.session batch) := by
  obtain ⟨hne, hcount, hfits, hmem⟩ := mem_batches h
  have hbytes : ∀ bs, .binary bs ∈ batch → ∀ b ∈ bs, b < 256 := fun bs hbs =>
    x.octets bs (hmem _ hbs)
  by_cases htwo : 2 ≤ batch.length
  · have hsum : (batch.map OutFrame.encoded).sum ≤ maxTunnelBatchChars := by
      rcases hfits with hone | hsum
      · omega
      · exact hsum
    rw [receiveFrames_batch hbytes htwo hcount hsum]
    by_cases hsize : size x.session "kirocrew.ws.send" (tunnelPayload x.session batch) ≤
      maxRequestBytes
    · exact Or.inl ⟨if_pos hsize, fun _ => hsize⟩
    · exact Or.inr ⟨if_neg hsize, htwo, Nat.lt_of_not_le hsize⟩
  · left
    refine ⟨?_, fun h => absurd h htwo⟩
    match batch, hne, htwo, hmem, hbytes with
    | [frame], _, _, hmem, hbytes =>
      have hframe := hmem frame List.mem_cons_self
      exact receiveFrames_single (fun bs hbs => hbytes bs (hbs ▸ List.mem_cons_self))
        (x.alone frame hframe)
    | a :: b :: rest, _, htwo, _, _ => exact absurd (Nat.le_add_left 2 rest.length) htwo

/-- The frames arrive, in order, exactly when every batch of several frames is small. -/
theorem receiveFrames_all_iff :
    (∃ decoded, (batches x.frames).mapM (receiveFrames x.session) = some decoded ∧
    decoded.flatten = x.frames.map OutFrame.delivered) ↔
      ∀ batch ∈ batches x.frames, 2 ≤ batch.length →
        size x.session "kirocrew.ws.send" (tunnelPayload x.session batch) ≤ maxRequestBytes := by
  constructor
  · rintro ⟨decoded, hdecoded, _⟩ batch hbatch htwo
    rcases x.receiveFrames_iff hbatch with ⟨_, hsize⟩ | ⟨hnone, _⟩
    · exact hsize htwo
    · have hmem := List.mem_map_of_mem (f := receiveFrames x.session) hbatch
      rw [Batches.mapM_eq_some.1 hdecoded, hnone] at hmem
      obtain ⟨_, _, hsome⟩ := List.mem_map.1 hmem
      cases hsome
  · intro h
    have hall : (batches x.frames).map (receiveFrames x.session) =
        ((batches x.frames).map (List.map OutFrame.delivered)).map some := by
      rw [List.map_map]
      refine List.map_congr_left fun batch hbatch => ?_
      rcases x.receiveFrames_iff hbatch with ⟨hsome, _⟩ | ⟨_, htwo, hlarge⟩
      · exact hsome
      · exact absurd (h batch hbatch htwo) (Nat.not_le_of_lt hlarge)
    refine ⟨_, Batches.mapM_eq_some.2 hall, ?_⟩
    rw [← List.map_flatten, flatten_batches]

end Sending

/-- The adapter admits what the shell lets through exactly when the JSON texts are not too long: of
the request with its body in base64, and of every batch of several frames. -/
theorem admitted_iff (x : Sending) : x.Admitted ↔ x.Small := by
  have hbatches : (∀ batch ∈ batches x.frames, 2 ≤ batch.length →
      size x.session "kirocrew.ws.send" (tunnelPayload x.session batch) ≤ maxRequestBytes) ↔
      ∀ batch ∈ batches x.frames, 2 ≤ batch.length →
        size x.session "kirocrew.ws.send" (tunnelPayload x.session []) +
          (batch.map fun frame => (Js.stringify (.obj frame.fields)).length + 1).sum ≤
          maxRequestBytes + 1 := by
    refine forall₂_congr fun batch _ => forall_congr' fun htwo => ?_
    rw [← size_batch x.session htwo]
    exact Nat.succ_le_succ_iff.symm
  rw [Sending.Admitted, Sending.Small, x.receiveBody_iff, x.receiveFrames_all_iff, hbatches]

namespace Sending

/-- A megabyte of zeros, the most that the shell lets through. -/
def megabyte : Sending where
  session := ⟨List.replicate 26 48, List.replicate 32 65, List.replicate 26 48⟩
  request := ⟨Str.ofString "POST", Str.ofString "/api/files", [], List.replicate (1024 * 1024) 0⟩
  bytes := fun _ hb => List.eq_of_mem_replicate hb ▸ Nat.succ_pos 255
  accepted := Nat.le_of_eq List.length_replicate
  frames := []
  octets := fun _ hbs => absurd hbs List.not_mem_nil
  alone := fun _ hframe => absurd hframe List.not_mem_nil

end Sending

theorem megabyte_refused : ¬ ∀ x : Sending, x.Admitted := by
  intro h
  have hsmall := Sending.megabyte.receiveBody_iff.1 (h Sending.megabyte).1
  have hlength : Sending.megabyte.request.body.length = 1024 * 1024 := List.length_replicate
  rw [hlength] at hsmall
  exact absurd (Nat.le_of_add_left_le hsmall) (by decide)

end Shell

end KiroCrew
