import KiroCrew.Invocation
import KiroCrew.Times
import KiroCrew.WireOrder

/-!
# Buffered events and the limit of a frame

`_send_ws_event` refuses an event whose envelope has more than 24 KiB of JSON. `_append` cuts a
payload of more than 16 KiB into chunks, which base64 makes a third longer. `length_envelope` counts
the rest of the envelope: it is small enough for every event that `_append` puts into the buffer
(`appended_fits`).
-/

namespace KiroCrew

open Json (Value)

/-- One call of `_append`. -/
structure Appending where
  stamps : EventStamps
  clock : ℕ → Instant
  requestId : Str
  operation : Str
  payload : Fields
  /-- `_new_ulid` -/
  messageUlid : ∀ n, isUlid (stamps.messageId n) = true
  /-- `_timestamp` -/
  timestamp : ∀ n, stamps.timestamp n = (clock n).iso.map Char.toNat
  requestUlid : isUlid requestId = true
  known : operation ∈ Shell.operations
  /-- `json.dumps` prints ASCII -/
  ascii : ∀ b ∈ encodePayload payload, b < 0x80
  /-- no text of Python is longer than `sys.maxsize` -/
  sized : (encodePayload payload).length < 2 ^ 63

/-- The events that it puts into the buffer. -/
def Appending.stored (a : Appending) (b : EventBuffer) : List RuntimeEvent :=
  let next := (b.next.get? a.requestId).getD 0
  (framePayloads a.payload).mapIdx fun i p =>
    ⟨next + i, some a.requestId, a.operation, p, a.stamps.correlationId,
      a.stamps.timestamp (next + i)⟩

/-! ## Texts in an envelope -/

theorem escape_ulid {s : Str} (h : isUlid s = true) : (Json.escape s).length = 26 := by
  have hletters : ∀ c ∈ Str.ofString "0123456789ABCDEFGHJKMNPQRSTVWXYZ", 32 ≤ c ∧ c ≤ 126 ∧ c ≠ 34 ∧
    c ≠ 92 := by decide
  simp only [isUlid, Bool.and_eq_true, decide_eq_true_eq, List.all_eq_true] at h
  rw [Json.escape_printable fun c hc => hletters c (h.2 c hc), h.1]

theorem escape_operation {operation : Str} (h : operation ∈ Shell.operations) :
    (Json.escape operation).length ≤ 24 := by
  revert operation
  decide

theorem digits_range {w n : ℕ} {c : Char} (h : c ∈ Instant.digits w n) : 45 ≤ c.toNat ∧
    c.toNat ≤ 90 := by
  induction w generalizing n with
  | zero => cases h
  | succ w ih =>
    rw [Instant.digits, List.mem_append, List.mem_singleton] at h
    rcases h with h | rfl
    · exact ih h
    · have hdigit : n % 10 < 10 := Nat.mod_lt _ (by decide)
      have hrange : ∀ d < 10, 45 ≤ (Char.ofNat (48 + d)).toNat ∧ (Char.ofNat (48 + d)).toNat ≤
        90 := by decide
      exact hrange _ hdigit

theorem iso_range {t : Instant} : ∀ c ∈ t.iso, 45 ≤ c.toNat ∧ c.toNat ≤ 90 := by
  have hdash : 45 ≤ '-'.toNat ∧ '-'.toNat ≤ 90 := by decide
  have ht : 45 ≤ 'T'.toNat ∧ 'T'.toNat ≤ 90 := by decide
  have hcolon : 45 ≤ ':'.toNat ∧ ':'.toNat ≤ 90 := by decide
  have hdot : 45 ≤ '.'.toNat ∧ '.'.toNat ≤ 90 := by decide
  have hz : 45 ≤ 'Z'.toNat ∧ 'Z'.toNat ≤ 90 := by decide
  unfold Instant.iso
  simp only [List.forall_mem_append, List.forall_mem_cons]
  refine ⟨⟨⟨⟨⟨⟨⟨?_, hdash, ?_⟩, hdash, ?_⟩, ht, ?_⟩, hcolon, ?_⟩, hcolon, ?_⟩, ?_⟩, hz, nofun⟩
  all_goals try exact fun c hc => digits_range hc
  split_ifs
  · nofun
  · exact List.forall_mem_cons.2 ⟨hdot, fun c hc => digits_range hc⟩

theorem length_iso (t : Instant) : t.iso.length ≤ 27 := by
  unfold Instant.iso
  dsimp only
  split_ifs <;> simp [DateTime.length_digits]

theorem escape_iso (t : Instant) : (Json.escape (t.iso.map Char.toNat)).length ≤ 27 := by
  have hplain : ∀ c ∈ t.iso.map Char.toNat, 32 ≤ c ∧ c ≤ 126 ∧ c ≠ 34 ∧ c ≠ 92 := by
    rw [List.forall_mem_map]
    intro c hc
    have := iso_range c hc
    omega
  rw [Json.escape_printable hplain, List.length_map]
  exact length_iso t

/-! ## The length of an envelope -/

theorem sortKeys_envelope (event : RuntimeEvent) {r : Str} (hr : event.requestId = some r)
    (messageId : Str) :
    Json.sortKeys (event.envelope messageId) =
      .obj [(Str.ofString "correlationId", .str event.correlationId),
      (Str.ofString "messageId", .str messageId),
        (Str.ofString "operation", .str event.operation),
        (Str.ofString "payload", Json.sortKeys (.obj event.payload)),
        (Str.ofString "requestId", .str r), (Str.ofString "sequence", .int event.eventId),
        (Str.ofString "timestamp", .str event.timestamp),
            (Str.ofString "version", .str (Str.ofString "kirocrew-agentcore.v1"))] := by
  rw [RuntimeEvent.envelope, hr]
  rfl

theorem length_envelope (event : RuntimeEvent) {r : Str} (hr : event.requestId = some r)
    (messageId : Str) :
    (Json.dumps (Json.sortKeys (event.envelope messageId))).length =
      (Json.escape event.correlationId).length + (Json.escape messageId).length +
      (Json.escape event.operation).length +
        (encodePayload event.payload).length + (Json.escape r).length +
        (Json.decimal event.eventId).length +
        (Json.escape event.timestamp).length + 137 := by
  have hkeys : (Json.printStr (Str.ofString "correlationId")).length = 15 ∧
    (Json.printStr (Str.ofString "messageId")).length = 11 ∧
      (Json.printStr (Str.ofString "operation")).length = 11 ∧
      (Json.printStr (Str.ofString "payload")).length = 9 ∧
      (Json.printStr (Str.ofString "requestId")).length = 11 ∧
        (Json.printStr (Str.ofString "sequence")).length = 10 ∧
      (Json.printStr (Str.ofString "timestamp")).length = 11 ∧
        (Json.printStr (Str.ofString "version")).length = 9 ∧
      (Json.printStr (Str.ofString "kirocrew-agentcore.v1")).length = 23 := by decide
  obtain ⟨h1, h2, h3, h4, h5, h6, h7, h8, h9⟩ := hkeys
  rw [sortKeys_envelope event hr]
  simp only [Json.dumps, Json.dumpsFields, List.length_cons, List.length_append, List.length_nil,
    h1, h2, h3, h4, h5, h6, h7, h8, h9,
    Json.printInt_natCast, Json.length_printStr, encodePayload]
  omega

theorem length_chunk {chunk : FrameChunk} (h : ∀ b ∈ chunk.data, b < 256) :
    (encodePayload chunk.payload).length =
    44 + 4 * ((chunk.data.length + 2) / 3) + (Json.decimal chunk.index).length +
    (Json.decimal chunk.total).length := by
  have hkeys : (Json.printStr (Str.ofString "chunkData")).length = 11 ∧
    (Json.printStr (Str.ofString "chunkIndex")).length = 12 ∧
      (Json.printStr (Str.ofString "chunkTotal")).length = 12 := by decide
  have hescape : Json.escape (Base64.encode chunk.data) = Base64.encode chunk.data := by
    refine Json.escape_printable fun x hx => ?_
    have := Base64.isText_encode h x hx
    omega
  have hsort : Json.sortKeys (.obj chunk.payload) = .obj chunk.payload := rfl
  obtain ⟨h1, h2, h3⟩ := hkeys
  rw [encodePayload, hsort]
  simp only [FrameChunk.payload, Json.dumps, Json.dumpsFields, List.length_cons, List.length_append,
    List.length_nil, h1, h2, h3,
    Json.printInt_natCast, Json.length_printStr, hescape, Base64.length_encode]
  omega

/-! ## What `_append` stores -/

theorem chunk_sizes {payload : List ℕ} {chunk : FrameChunk}
    (h : chunk ∈ chunkPayload payload eventChunkBytes) :
    chunk.data.length ≤ eventChunkBytes ∧ chunk.index < chunk.total ∧
    chunk.total ≤ payload.length + 1 := by
  obtain ⟨i, hi, rfl⟩ := List.mem_mapIdx.1 h
  refine ⟨?_, hi, ?_⟩
  · dsimp only
    split_ifs at hi ⊢ with hempty
    · have hzero : i = 0 := by simpa using hi
      subst hzero
      exact Nat.zero_le _
    · simp only [chunkParts, List.getElem_map, List.length_take]
      omega
  · dsimp only
    split_ifs with hempty
    · simp
    · simp only [chunkParts, List.length_map, List.length_range, eventChunkBytes]
      omega

namespace Appending

variable (a : Appending)

theorem length_framePayload : ∀ p ∈ framePayloads a.payload, (encodePayload p).length ≤ 21932 := by
  intro p hp
  have hsized := a.sized
  unfold framePayloads at hp
  simp only at hp
  split_ifs at hp with hone
  · rw [List.mem_singleton.1 hp]
    have hle : (encodePayload a.payload).length ≤ eventChunkBytes := by
      simp only [chunkPayload, List.length_mapIdx] at hone
      split_ifs at hone with hempty
      · simp [hempty]
      · simp only [chunkParts, List.length_map, List.length_range, eventChunkBytes] at hone
        unfold eventChunkBytes
        omega
    exact hle.trans (by decide)
  · obtain ⟨chunk, hchunk, rfl⟩ := List.mem_map.1 hp
    obtain ⟨hdata, hindex, htotal⟩ := chunk_sizes hchunk
    have hbytes : ∀ b ∈ chunk.data, b < 256 := fun b hb =>
      (a.ascii b (mem_of_mem_chunk hchunk b hb)).trans (by decide)
    have hlast := Json.length_decimal (n := chunk.index) (k := 20) (by decide) (by omega)
    have hcount := Json.length_decimal (n := chunk.total) (k := 20) (by decide) (by omega)
    rw [length_chunk hbytes]
    unfold eventChunkBytes at hdata
    omega

theorem all_appendPayload (b : EventBuffer) :
    (b.appendPayload a.stamps a.requestId a.operation a.payload).all a.requestId =
    lastN maxEvents (b.all a.requestId ++ a.stored b) := by
  have hrun : ∀ (ps : List Fields) (b : EventBuffer) (n : ℕ), ps ≠ [] →
    (b.next.get? a.requestId).getD 0 = n →
      (ps.foldl (fun b p => b.append a.stamps a.requestId a.operation p) b).all a.requestId =
        lastN maxEvents (b.all a.requestId ++ ps.mapIdx fun i p =>
          (⟨n + i, some a.requestId, a.operation, p, a.stamps.correlationId, a.stamps.timestamp
              (n + i)⟩ : RuntimeEvent)) := by
    intro ps
    induction ps with
    | nil => exact fun b n hne => absurd rfl hne
    | cons p ps ih =>
      rintro b n - rfl
      have hall : (b.append a.stamps a.requestId a.operation p).all a.requestId = lastN maxEvents
        (b.all a.requestId ++
          [⟨(b.next.get? a.requestId).getD 0, some a.requestId, a.operation, p,
          a.stamps.correlationId,
            a.stamps.timestamp ((b.next.get? a.requestId).getD 0)⟩]) := by
        simp [EventBuffer.append, EventBuffer.all, Dict.get?_set_self]
      have hnext : ((b.append a.stamps a.requestId a.operation p).next.get? a.requestId).getD 0 =
          (b.next.get? a.requestId).getD 0 + 1 := by
        simp [EventBuffer.append, Dict.get?_set_self]
      rw [List.foldl_cons]
      rcases eq_or_ne ps [] with rfl | hne
      · exact hall
      · rw [ih _ _ hne hnext, hall, lastN_append_lastN, List.mapIdx_cons, List.append_assoc]
        simp only [Nat.add_zero, List.singleton_append, Nat.add_assoc, Nat.add_comm 1]
  exact hrun (framePayloads a.payload) b _ (framePayloads_ne_nil a.payload) rfl

/-- Whatever is in the buffer, the events that `_append` puts into it fit a frame. -/
theorem appended_fits (b : EventBuffer) :
    (b.appendPayload a.stamps a.requestId a.operation a.payload).all a.requestId =
        lastN maxEvents (b.all a.requestId ++ a.stored b) ∧
      ∀ event ∈ a.stored b, event.eventId < 10 ^ 15 → event.fits a.stamps = true := by
  refine ⟨a.all_appendPayload b, fun event hevent hid => ?_⟩
  obtain ⟨i, hi, rfl⟩ := List.mem_mapIdx.1 hevent
  have hpayload := a.length_framePayload _ (List.getElem_mem hi)
  have hsequence := Json.length_decimal (by decide) hid
  have hoperation := escape_operation a.known
  have htimestamp := escape_iso (a.clock ((b.next.get? a.requestId).getD 0 + i))
  rw [← a.timestamp] at htimestamp
  rw [RuntimeEvent.fits, decide_eq_true_eq, length_envelope _ rfl, escape_ulid a.stamps.ulid,
    escape_ulid (a.messageUlid _),
    escape_ulid a.requestUlid, framePayloadLimit]
  dsimp only at hsequence ⊢
  omega

theorem encodePayload_text (n : ℕ) :
    encodePayload [(Str.ofString "text", .str (List.replicate n 97))] =
      123 :: Json.printStr (Str.ofString "text") ++ [58, 34] ++ List.replicate n 97 ++
      [34, 125] := by
  have hescape : Json.escape (List.replicate n 97) = List.replicate n 97 :=
    Json.escape_printable fun c hc => by rw [List.eq_of_mem_replicate hc]; decide
  have hsort : Json.sortKeys (.obj [(Str.ofString "text", .str (List.replicate n 97))]) =
      .obj [(Str.ofString "text", .str (List.replicate n 97))] := rfl
  rw [encodePayload, hsort]
  simp [Json.dumps, Json.dumpsFields, Json.printStr, hescape]

/-- A text of 20000 letters, in two chunks. -/
def letters : Appending where
  stamps := Shell.stopStamps
  clock := fun _ => Instant.ofEpoch 1767225600
  requestId := Shell.zeros
  operation := Str.ofString "output.delta"
  payload := [(Str.ofString "text", .str (List.replicate 20000 97))]
  messageUlid := fun _ => Shell.stopStamps.ulid
  timestamp := fun _ => show Shell.stopTime = (Instant.ofEpoch 1767225600).iso.map Char.toNat by
    decide
  requestUlid := Shell.stopStamps.ulid
  known := by decide
  ascii := by
    have hletter : ∀ b ∈ List.replicate 20000 97, b < 0x80 := fun b hb => by
      rw [List.eq_of_mem_replicate hb]; decide
    rw [encodePayload_text, List.forall_mem_append, List.forall_mem_append]
    exact ⟨⟨by decide, hletter⟩, by decide⟩
  sized := by
    rw [encodePayload_text, List.length_append, List.length_append, List.length_replicate]
    decide

theorem letters_fit : ∀ event ∈ letters.stored {}, event.fits letters.stamps = true := by
  intro event hevent
  refine (letters.appended_fits {}).2 event hevent ?_
  obtain ⟨i, hi, rfl⟩ := List.mem_mapIdx.1 hevent
  have hencode : (encodePayload letters.payload).length = 20011 := by
    rw [letters, encodePayload_text, List.length_append, List.length_append, List.length_replicate]
    rfl
  have hchunks : (chunkPayload (encodePayload letters.payload) eventChunkBytes).length = 2 := by
    have hne : encodePayload letters.payload ≠ [] := List.ne_nil_of_length_pos (by omega)
    rw [chunkPayload, if_neg hne, List.length_mapIdx, chunkParts, List.length_map,
      List.length_range, hencode]
    rfl
  have htwo : (framePayloads letters.payload).length = 2 := by
    rw [framePayloads, if_neg (by omega), List.length_map, hchunks]
  show 0 + i < 10 ^ 15
  omega

end Appending

end KiroCrew
