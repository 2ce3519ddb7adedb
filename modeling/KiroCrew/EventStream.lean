import KiroCrew.Clock
import KiroCrew.Delivery
import KiroCrew.Lib.Framing
import KiroCrew.WireOrder

/-!
# The event stream between adapter and shell

`_write_sse` prints an event, `parseSse` reads the text back in whatever pieces it comes. A block of
the reader is what was written for one event (`parseSse_writeSse`), so the shell gets the envelopes
that were sent, up to the first that `validateEnvelope` refuses. `roundTrips_iff` is the way of a
backend's events through all of it.
-/

namespace KiroCrew

/-- The lines `_write_sse` writes for an event, without the blank one. -/
def RuntimeEvent.block (st : EventStamps) (event : RuntimeEvent) : Str :=
  Str.ofString "id: " ++ Json.decimal event.eventId ++ 10 ::
    (Str.ofString "event: " ++ event.operation ++
    10 :: (Str.ofString "data: " ++ Json.dumps
    (Json.sortKeys (event.envelope (st.messageId event.eventId)))))

/-- The bytes of a stream of events; `none` is the `UnicodeEncodeError`. -/
def writeSse (st : EventStamps) (events : List RuntimeEvent) : Option (List Nat) :=
  Bytes.encodeUtf8 (events.flatMap fun event => event.block st ++ [10, 10])

namespace Shell

/-! ## The reader -/

/-- The white space that `trimStart` removes. -/
def isWhiteSpace (c : Nat) : Bool :=
  decide (9 ≤ c ∧ c ≤ 13 ∨ c = 32 ∨ c = 0xA0 ∨ c = 0x1680 ∨ 0x2000 ≤ c ∧ c ≤ 0x200A ∨ c = 0x2028 ∨
    c = 0x2029 ∨ c = 0x202F ∨
    c = 0x205F ∨ c = 0x3000 ∨ c = 0xFEFF)

def trimStart (s : Str) : Str := s.dropWhile isWhiteSpace

/-- What is before and after the first `"\n\n"`. -/
def cutBlank : Str → Option (Str × Str)
  | [] => none
  | c :: s => if c = 10 ∧ s.head? = some 10 then some ([], s.tail)
      else (cutBlank s).map fun (block, rest) => (c :: block, rest)

theorem cutBlank_shrinks {s block rest : Str} (h : cutBlank s = some (block, rest)) :
    rest.length < s.length := by
  induction s generalizing block rest with
  | nil => cases h
  | cons c s ih =>
    rw [cutBlank] at h
    split_ifs at h with hblank
    · cases h
      rw [List.length_tail, List.length_cons]
      omega
    · obtain ⟨⟨block', rest'⟩, hcut, heq⟩ := Option.map_eq_some_iff.1 h
      cases heq
      exact (ih hcut).trans (Nat.lt_succ_self _)

theorem cutBlank_stable {s block rest : Str} (t : Str) (h : cutBlank s = some (block, rest)) :
    cutBlank (s ++ t) = some (block, rest ++ t) := by
  induction s generalizing block rest with
  | nil => cases h
  | cons c s ih =>
    rw [cutBlank] at h
    rw [List.cons_append, cutBlank]
    split_ifs at h with hblank
    · obtain ⟨rfl, hhead⟩ := hblank
      cases h
      cases s with
      | nil => cases hhead
      | cons d s =>
        rw [if_pos ⟨rfl, hhead⟩]
        rfl
    · obtain ⟨⟨block', rest'⟩, hcut, heq⟩ := Option.map_eq_some_iff.1 h
      cases heq
      have hlater : ¬ (c = 10 ∧ (s ++ t).head? = some 10) := by
        cases s with
        | nil => cases hcut
        | cons d s => exact hblank
      rw [if_neg hlater, ih hcut]
      rfl

/-- The blocks of `parseSse`. -/
def blank : Framing Nat := ⟨cutBlank, cutBlank_shrinks, fun t h => cutBlank_stable t h⟩

/-- The text of the `data` lines. -/
def dataOf (block : Str) : Str :=
  [10].intercalate (((block.splitOn 10).filter (Str.ofString "data:").isPrefixOf).map fun line =>
    trimStart (line.drop 5))

def interrupted : ConnectionError := ⟨.transportFailed, "The runtime stream was interrupted.", true⟩

/-- The envelope of a block, `none` for a block without data. -/
def parseBlock (dateParse : Str → Bool) (block : Str) :
    Except ConnectionError (Option ProtocolEnvelope) :=
  if dataOf block = [] then .ok none
  else
    match Js.parse (dataOf block) with
    | none => .error interrupted
    | some v =>
      match validateEnvelope dateParse v with
      | .error _ => .error interrupted
      | .ok envelope => .ok (some envelope)

/-- The envelopes up to the first error. -/
def parseBlocks (dateParse : Str → Bool) : List Str → List ProtocolEnvelope × Option ConnectionError
  | [] => ([], none)
  | block :: blocks =>
    match parseBlock dateParse block with
    | .error error => ([], some error)
    | .ok envelope =>
      let (envelopes, error) := parseBlocks dateParse blocks
      (envelope.toList ++ envelopes, error)

/-- `parseSse` of the pieces that come from the network. -/
def parseSse (dateParse : Str → Bool) (pieces : List (List Nat)) :
    List ProtocolEnvelope × Option ConnectionError :=
  parseBlocks dateParse (blank.feedAll [] (TextDecoder.feedAll {} pieces)).1.flatten

/-- What `invoke` yields of a response, and the error it ends with. -/
def invoke (dateParse : Str → Bool) (pieces : List (List Nat)) :
    List Item × Option ConnectionError :=
  let (wires, error) := parseSse dateParse pieces
  let (_, items, refused) := ({} : RuntimeEventStream).run wires
  (items, refused.or error)

/-! ## Blocks -/

/-- A line is no blank one, and the text after it has none. -/
theorem cutBlank_line {line s : Str} (hline : 10 ∉ line) (hhead : s.head? ≠ some 10)
    (hs : cutBlank s = none) :
    cutBlank (line ++ 10 :: s) = none := by
  induction line with
  | nil => rw [List.nil_append, cutBlank, if_neg fun h => hhead h.2, hs, Option.map_none]
  | cons c line ih =>
    rw [List.mem_cons, not_or] at hline
    rw [List.cons_append, cutBlank, if_neg fun h => hline.1 h.1.symm, ih hline.2, Option.map_none]

theorem cutBlank_block {block : Str} (rest : Str) (h : cutBlank (block ++ [10]) = none) :
    cutBlank (block ++ 10 :: 10 :: rest) = some (block, rest) := by
  induction block with
  | nil => rfl
  | cons c block ih =>
    rw [List.cons_append, cutBlank] at h
    split_ifs at h with hblank
    have hlater : ¬ (c = 10 ∧ (block ++ 10 :: 10 :: rest).head? = some 10) := by
      cases block with
      | nil => exact hblank
      | cons d block => exact hblank
    rw [List.cons_append, cutBlank, if_neg hlater, ih (Option.map_eq_none_iff.1 h), Option.map_some]

/-- Blocks without blank lines come out as they are written. -/
theorem blocks_flatMap {texts : List Str} (h : ∀ block ∈ texts, cutBlank (block ++ [10]) = none) :
    blank.blocks (texts.flatMap (· ++ [10, 10])) = (texts, []) := by
  induction texts with
  | nil => exact blank.blocks_of_none rfl
  | cons block texts ih =>
    obtain ⟨hblock, htexts⟩ := List.forall_mem_cons.1 h
    have hcut : blank.cut ((block ++ [10, 10]) ++ texts.flatMap (· ++ [10, 10])) =
        some (block, texts.flatMap (· ++ [10, 10])) := by
      rw [List.append_assoc]
      exact cutBlank_block _ hblock
    rw [List.flatMap_cons, blank.blocks_of_some hcut, ih htexts]

/-- A line of printable ASCII. -/
def Line (s : Str) : Prop := ∀ c ∈ s, 32 ≤ c ∧ c ≤ 126

instance (s : Str) : Decidable (Line s) := inferInstanceAs (Decidable (∀ c ∈ s, _))

theorem Line.append {s t : Str} (hs : Line s) (ht : Line t) : Line (s ++ t) :=
  List.forall_mem_append.2 ⟨hs, ht⟩

theorem Line.not_mem {s : Str} (h : Line s) : 10 ∉ s := fun hmem => absurd (h 10 hmem).1 (by decide)

theorem Line.ascii {s : Str} (h : Line s) : ∀ c ∈ s, c < 0x80 := fun c hc =>
    (h c hc).2.trans_lt (by decide)

theorem line_decimal (n : ℕ) : Line (Json.decimal n) := by
  intro c hc
  have hdigit := Json.isDigit_decimal hc
  simp only [Json.isDigit, decide_eq_true_eq] at hdigit
  omega

/-- What `_write_sse` prints: an operation of one line, and JSON text. -/
structure Printed (st : EventStamps) (event : RuntimeEvent) : Prop where
  operation : Line event.operation
  envelope : (event.envelope (st.messageId event.eventId)).textual = true

namespace Printed

variable {st : EventStamps} {event : RuntimeEvent}

theorem data (h : Printed st event) :
    Line (Json.dumps (Json.sortKeys (event.envelope (st.messageId event.eventId)))) := by
  refine Json.dumps_printable _ ?_
  rw [Json.textual_sortKeys]
  exact h.envelope

theorem lines (h : Printed st event) : Line (Str.ofString "id: " ++ Json.decimal event.eventId) ∧
    Line (Str.ofString "event: " ++ event.operation) ∧
    Line (Str.ofString "data: " ++ Json.dumps
        (Json.sortKeys (event.envelope (st.messageId event.eventId)))) := by
  have hlabels : Line (Str.ofString "id: ") ∧ Line (Str.ofString "event: ") ∧
    Line (Str.ofString "data: ") := by decide
  exact ⟨hlabels.1.append (line_decimal _), hlabels.2.1.append h.operation,
    hlabels.2.2.append h.data⟩

theorem ascii (h : Printed st event) : ∀ c ∈ event.block st ++ [10, 10], c < 0x80 := by
  obtain ⟨hid, hevent, hdata⟩ := h.lines
  have hend : (10 : ℕ) < 0x80 := by decide
  refine List.forall_mem_append.2
    ⟨List.forall_mem_append.2 ⟨hid.ascii, List.forall_mem_cons.2 ⟨hend, ?_⟩⟩, by decide⟩
  exact List.forall_mem_append.2 ⟨hevent.ascii, List.forall_mem_cons.2 ⟨hend, hdata.ascii⟩⟩

theorem cutBlank_none (h : Printed st event) : cutBlank (event.block st ++ [10]) = none := by
  obtain ⟨hid, hevent, hdata⟩ := h.lines
  have hthird := cutBlank_line (s := []) hdata.not_mem nofun rfl
  have hsecond := cutBlank_line hevent.not_mem (fun hhead => by cases hhead) hthird
  have hfirst := cutBlank_line hid.not_mem (fun hhead => by cases hhead) hsecond
  rw [RuntimeEvent.block, List.append_assoc _ (10 :: _), List.cons_append, List.append_assoc _
    (10 :: _), List.cons_append]
  exact hfirst

theorem dataOf_block (h : Printed st event) :
    dataOf (event.block st) = Json.dumps
      (Json.sortKeys (event.envelope (st.messageId event.eventId))) := by
  obtain ⟨hid, hevent, hdata⟩ := h.lines
  have hsplit : (event.block st).splitOn 10 = [Str.ofString "id: " ++ Json.decimal event.eventId,
      Str.ofString "event: " ++ event.operation,
      Str.ofString "data: " ++ Json.dumps
          (Json.sortKeys (event.envelope (st.messageId event.eventId)))] := by
    have hblock : event.block st = [10].intercalate
      [Str.ofString "id: " ++ Json.decimal event.eventId,
        Str.ofString "event: " ++ event.operation,
        Str.ofString "data: " ++ Json.dumps
            (Json.sortKeys (event.envelope (st.messageId event.eventId)))] := by
      simp [RuntimeEvent.block, List.intercalate]
    rw [hblock]
    refine List.splitOn_intercalate 10 ?_ (List.cons_ne_nil _ _)
    intro line hline
    simp only [List.mem_cons, List.not_mem_nil, or_false] at hline
    rcases hline with rfl | rfl | rfl
    · exact hid.not_mem
    · exact hevent.not_mem
    · exact hdata.not_mem
  have hobject : ∃ rest, Json.dumps (Json.sortKeys (event.envelope (st.messageId event.eventId))) =
    123 :: rest := ⟨_, rfl⟩
  obtain ⟨rest, hrest⟩ := hobject
  have hlast : dataOf (event.block st) = [10].intercalate [123 :: rest] := by
    rw [dataOf, hsplit, hrest]
    rfl
  rw [hlast, hrest]
  simp [List.intercalate]

end Printed

/-! ## The envelopes of a stream -/

theorem parseBlock_block {st : EventStamps} {event : RuntimeEvent} (h : Printed st event)
    (dateParse : Str → Bool) :
    parseBlock dateParse (event.block st) =
      match validateEnvelope dateParse
        (Json.sortKeys (event.envelope (st.messageId event.eventId))).js with
      | .error _ => .error interrupted
      | .ok envelope => .ok (some envelope) := by
  have htextual : (Json.sortKeys (event.envelope (st.messageId event.eventId))).textual = true := by
    rw [Json.textual_sortKeys]
    exact h.envelope
  have hne : Json.dumps (Json.sortKeys (event.envelope (st.messageId event.eventId))) ≠ [] :=
    List.cons_ne_nil _ _
  rw [parseBlock, h.dataOf_block, if_neg hne, Js.parse_dumps htextual]

theorem writeSse_printed {st : EventStamps} {sent : List RuntimeEvent}
    (h : ∀ event ∈ sent, Printed st event) :
    writeSse st sent = some (sent.flatMap fun event => event.block st ++ [10, 10]) ∧
      ∀ b ∈ sent.flatMap fun event => event.block st ++ [10, 10], b < 0x80 := by
  have hascii : ∀ b ∈ sent.flatMap fun event => event.block st ++ [10, 10], b < 0x80 := by
    intro b hb
    obtain ⟨event, hevent, hb⟩ := List.mem_flatMap.1 hb
    exact (h event hevent).ascii b hb
  exact ⟨Bytes.encodeUtf8_ascii hascii, hascii⟩

/-- However the bytes come, a block of the reader is an event of the adapter. -/
theorem parseSse_writeSse {st : EventStamps} {sent : List RuntimeEvent} {bytes : List Nat}
    {pieces : List (List Nat)}
    (hsent : ∀ event ∈ sent, Printed st event) (hbytes : writeSse st sent = some bytes)
    (hpieces : pieces.flatten = bytes)
    (dateParse : Str → Bool) : parseSse dateParse pieces = parseBlocks dateParse
        (sent.map (RuntimeEvent.block st)) := by
  obtain ⟨hwritten, hascii⟩ := writeSse_printed hsent
  have htext : pieces.flatten = sent.flatMap fun event => event.block st ++ [10, 10] := by
    rw [hpieces]
    exact Option.some.inj (hbytes.symm.trans hwritten)
  have hblocks : blank.blocks (sent.flatMap fun event => event.block st ++ [10, 10]) =
      (sent.map (RuntimeEvent.block st), []) := by
    have hcut : ∀ block ∈ sent.map (RuntimeEvent.block st), cutBlank (block ++ [10]) = none := by
      rw [List.forall_mem_map]
      exact fun event hevent => (hsent event hevent).cutBlank_none
    rw [← blocks_flatMap hcut, List.flatMap_map]
  have hdecoded : (TextDecoder.feedAll {} pieces).flatten = pieces.flatten :=
    TextDecoder.flatten_feedAll_ascii (by rwa [htext]) false
  rw [parseSse, blank.feedAll_flatten rfl, List.nil_append, hdecoded, htext, hblocks]

theorem parseBlocks_arrives {dateParse : Str → Bool} {st : EventStamps} {sent : List RuntimeEvent}
    {wires : List ProtocolEnvelope}
    (hsent : ∀ event ∈ sent, Printed st event)
    (h : List.Forall₂ (Arrives dateParse st) sent wires) :
    parseBlocks dateParse (sent.map (RuntimeEvent.block st)) = (wires, none) := by
  induction h with
  | nil => rfl
  | @cons event wire sent wires harrives _ ih =>
    obtain ⟨hevent, hsent⟩ := List.forall_mem_cons.1 hsent
    have hblock : parseBlock dateParse (event.block st) = .ok (some wire) := by
      rw [parseBlock_block hevent, show validateEnvelope dateParse _ = _ from harrives]
    simp only [List.map_cons, parseBlocks, hblock, ih hsent]
    rfl

/-- An event that is refused ends the stream with an error. -/
theorem parseBlocks_refused {dateParse : Str → Bool} {st : EventStamps} {sent : List RuntimeEvent}
    {event : RuntimeEvent}
    (hsent : ∀ event ∈ sent, Printed st event) (hmem : event ∈ sent)
    (hrefused : ∀ wire, ¬ Arrives dateParse st event wire) :
    (parseBlocks dateParse (sent.map (RuntimeEvent.block st))).2 ≠ none := by
  induction sent with
  | nil => cases hmem
  | cons first sent ih =>
    obtain ⟨hfirst, hsent⟩ := List.forall_mem_cons.1 hsent
    rw [List.map_cons, parseBlocks]
    cases hblock : parseBlock dateParse (first.block st) with
    | error error => exact Option.some_ne_none error
    | ok envelope =>
      rcases List.mem_cons.1 hmem with rfl | hmem
      · rw [parseBlock_block hfirst] at hblock
        cases hvalid : validateEnvelope dateParse
          (Json.sortKeys (event.envelope (st.messageId event.eventId))).js with
        | error error =>
          rw [hvalid] at hblock
          cases hblock
        | ok wire => exact absurd hvalid (hrefused wire)
      · exact ih hsent hmem

/-! ## The way of a backend's events -/

/-- A live stream of runtime events to a browser that has none of them yet. -/
structure Streaming extends Delivery where
  first : lastEventId = some (-1)
  clock : ℕ → Instant
  dateParse : Str → Bool
  /-- what the invocation's schema asks -/
  requestUlid : isUlid requestId = true
  /-- `_new_ulid` -/
  messageUlid : ∀ n, isUlid (stamps.messageId n) = true
  /-- `_timestamp` -/
  timestamp : ∀ n, stamps.timestamp n = (clock n).iso.map Char.toNat
  /-- `Date.parse` reads ISO 8601 -/
  dates : ∀ n, dateParse (Str.units (stamps.timestamp n)) = true
  backend : List (Str × KiroCrew.Fields)
  operations : ∀ e ∈ backend, e.1 ∈ runtimeOperations
  /-- no floats -/
  textual : ∀ e ∈ backend, Json.textualFields e.2 = true
  sizes : ∀ e ∈ backend, (framePayloads e.2).length ≤ maxEvents
  unshaped : ∀ e ∈ backend, ¬ ChunkShaped (received e.2)

/-- The events of the backend as the shell should yield them. -/
def Streaming.expected (s : Streaming) : List Event :=
  s.backend.mapIdx fun i e => ⟨s.requestId, i, e.1, received e.2⟩

/-- Whatever pieces the stream comes in, the shell yields the events, each once and in order, and no
error. -/
def Streaming.RoundTrips (s : Streaming) (rest : List Attempt) : Prop :=
  ∃ sent bytes, (s.on .stream).answer ⟨s.backend, .completed⟩ rest = some (.stream sent none) ∧
    writeSse s.stamps sent = some bytes ∧
    ∀ pieces, pieces.flatten = bytes → (invoke s.dateParse pieces).2 = none ∧
      events (invoke s.dateParse pieces).1 = s.expected

namespace RuntimeEventStream

variable {s : RuntimeEventStream} {r : Str} {n k : ℕ} {ws : List ProtocolEnvelope}

/-- Readable runtime events come through. -/
theorem run_readable {backend : List (Str × KiroCrew.Fields)}
    (hascii : ∀ e ∈ backend, ∀ b ∈ encodePayload e.2, b < 0x80)
    (hops : ∀ e ∈ backend, Runtime e.1) (hreadable : ∀ e ∈ backend, Readable e.2)
    (h : CarriesAll r n (frames backend) ws)
    (hclean : Clean s (Str.units r) n k) : (s.run ws).2.2 = none ∧
        events (s.run ws).2.1 = runtimeEvents r k backend := by
  induction backend generalizing s n k ws with
  | nil =>
    cases h
    exact ⟨rfl, rfl⟩
  | cons e backend ih =>
    obtain ⟨hop, hops⟩ := List.forall_mem_cons.1 hops
    obtain ⟨u, v, rfl, hu, hv⟩ := CarriesAll.frames_cons h
    obtain ⟨hnone, hevents, hclean'⟩ :=
      run_event hu hop (hascii e List.mem_cons_self) (hreadable e List.mem_cons_self) hclean
    obtain ⟨herror, hrest⟩ := ih (fun e he => hascii e (List.mem_cons_of_mem _ he)) hops
      (fun e he => hreadable e (List.mem_cons_of_mem _ he)) hv hclean'
    simp only [run_append, hnone, Option.isSome_none, Bool.false_eq_true, if_false]
    refine ⟨herror, ?_⟩
    rw [events_append, hevents, hrest, runtimeEvents, if_pos hop]
    rfl

end RuntimeEventStream

theorem runtime_operation {operation : Str} (h : operation ∈ runtimeOperations) :
    Str.units operation = operation ∧ Line operation ∧ operation ∈ Shell.operations ∧
    operation.valid = true := by
  revert operation
  decide

theorem runtimeEvents_eq_mapIdx {r : Str} {backend : List (Str × KiroCrew.Fields)}
    (hr : Str.units r = r)
    (hops : ∀ e ∈ backend, e.1 ∈ runtimeOperations) (k : ℕ) :
    runtimeEvents r k backend = backend.mapIdx fun i e => ⟨r, k + i, e.1, received e.2⟩ := by
  induction backend generalizing k with
  | nil => rfl
  | cons e backend ih =>
    obtain ⟨hop, hops⟩ := List.forall_mem_cons.1 hops
    have hunits := (runtime_operation hop).1
    have hruntime : Runtime e.1 := by
      rw [Runtime, hunits]
      exact hop
    have hnext : ∀ i, k + 1 + i = k + (i + 1) := by omega
    rw [runtimeEvents, if_pos hruntime, ih hops, List.mapIdx_cons, hr, hunits]
    simp only [hnext, Nat.add_zero]

theorem exists_numbered (st : EventStamps) (r : Str) {fs : List Frame} {n : ℕ} (h : n < fs.length) :
    ∃ event ∈ numbered st r fs, event.requestId = some r ∧ event.eventId = n := by
  have hlength : n < (numbered st r fs).length := by rwa [length_numbered]
  exact ⟨(numbered st r fs).get ⟨n, hlength⟩,
    List.get_mem _ _, by simp [numbered], by simp [numbered]⟩

theorem valid_toNat (cs : List Char) : Str.valid (cs.map Char.toNat) = true := by
  rw [Str.valid, List.all_eq_true]
  intro c hc
  obtain ⟨c, _, rfl⟩ := List.mem_map.1 hc
  have hpoint : c.toNat < 0xD800 ∨ 0xDFFF < c.toNat ∧ c.toNat < 0x110000 := c.valid
  exact decide_eq_true (by omega)

theorem valid_ulid {s : Str} (h : isUlid s = true) : s.valid = true := by
  have hletters : ∀ c ∈ Str.ofString "0123456789ABCDEFGHJKMNPQRSTVWXYZ", c < 0x110000 := by decide
  rw [isUlid, Bool.and_eq_true, List.all_eq_true] at h
  rw [Str.valid, List.all_eq_true]
  exact fun c hc => decide_eq_true (hletters c (of_decide_eq_true (h.2 c hc)))

theorem ascii_encodePayload {payload : KiroCrew.Fields} (h : Json.textualFields payload = true) :
    ∀ b ∈ encodePayload payload, b < 0x80 := by
  have htextual : (Json.sortKeys (.obj payload)).textual = true := by
    rw [Json.textual_sortKeys]
    exact h
  exact fun b hb => (Json.dumps_printable _ htextual b hb).2.trans_lt (by decide)

theorem textual_framePayloads {payload : KiroCrew.Fields} (h : Json.textualFields payload = true) :
    ∀ frame ∈ framePayloads payload, Json.textualFields frame = true := by
  rcases framePayloads_cases payload with hone | ⟨hchunks, _, _⟩
  · rw [hone]
    intro frame hframe
    rwa [List.mem_singleton.1 hframe]
  · rw [hchunks, List.forall_mem_map]
    intro chunk hchunk
    have hbytes :=
      (whole_chunkPayload fun b hb => (ascii_encodePayload h b hb).trans (by decide)).bytes
        chunk hchunk
    have hdata : Str.valid (Base64.encode chunk.data) = true := by
      rw [Str.valid, List.all_eq_true]
      intro c hc
      have hrange := Base64.isText_encode hbytes c hc
      exact decide_eq_true (by omega)
    have hkeys : Str.valid (Str.ofString "chunkData") = true ∧
      Str.valid (Str.ofString "chunkIndex") = true ∧
        Str.valid (Str.ofString "chunkTotal") = true := by decide
    simp only [FrameChunk.payload, Json.textualFields, Json.Value.textual, hdata, hkeys,
      Bool.and_self]

theorem parse_encodePayload {payload : KiroCrew.Fields} (h : Json.textualFields payload = true) :
    Js.parse (encodePayload payload) = some (.object (received payload)) := by
  have htextual : (Json.sortKeys (.obj payload)).textual = true := by
    rw [Json.textual_sortKeys]
    exact h
  rw [encodePayload, Js.parse_dumps htextual]
  rfl

namespace Streaming

variable (s : Streaming)

theorem readable : ∀ e ∈ s.backend, Readable e.2 := by
  intro e he
  have hsize := s.sizes e he
  rw [Readable]
  split_ifs
  · exact s.unshaped e he
  · exact ⟨hsize.trans_lt (by decide), parse_encodePayload (s.textual e he)⟩

/-- The frames that are sent are those of a runtime operation, with textual payloads. -/
theorem frames_backend : ∀ f ∈ frames s.backend, f.1 ∈ runtimeOperations ∧
    Json.textualFields f.2 = true := by
  intro f hf
  obtain ⟨e, he, hf⟩ := List.mem_flatMap.1 hf
  obtain ⟨payload, hpayload, rfl⟩ := List.mem_map.1 hf
  exact ⟨s.operations e he, textual_framePayloads (s.textual e he) payload hpayload⟩

theorem printed : ∀ event ∈ numbered s.stamps s.requestId (frames s.backend),
    Printed s.stamps event := by
  intro event hevent
  obtain ⟨i, hi, rfl⟩ := List.mem_mapIdx.1 hevent
  obtain ⟨hop, htextual⟩ := s.frames_backend _ (List.getElem_mem hi)
  obtain ⟨_, hline, _, hvalid⟩ := runtime_operation hop
  refine ⟨hline, ?_⟩
  have htime : Str.valid (s.stamps.timestamp i) = true := by
    rw [s.timestamp i]
    exact valid_toNat _
  have hkeys : ∀ key ∈ [Str.ofString "correlationId", Str.ofString "messageId",
    Str.ofString "operation", Str.ofString "payload",
      Str.ofString "requestId", Str.ofString "sequence", Str.ofString "timestamp",
      Str.ofString "version",
      Str.ofString "kirocrew-agentcore.v1"], Str.valid key = true := by decide
  simp only [List.forall_mem_cons] at hkeys
  simp only [RuntimeEvent.envelope, Json.Value.textual, Json.textualFields, hkeys,
    valid_ulid s.stamps.ulid,
    valid_ulid (s.messageUlid i), valid_ulid s.requestUlid, hvalid, htextual, htime, Bool.and_self]

theorem stamped : Stamped s.dateParse s.stamps s.requestId :=
  ⟨s.messageUlid, s.requestUlid, s.dates⟩

theorem answer_stream (rest : List Attempt) : (s.on .stream).answer ⟨s.backend, .completed⟩ rest =
    some (.stream (numbered s.stamps s.requestId (frames s.backend)) none) :=
  s.stream_answer s.backend rest (Or.inr ⟨s.first, s.sizes⟩)

/-- The shell gets all of a stream whose numbers are safe integers. -/
theorem invoke_sent (hlength : (frames s.backend).length ≤ 2 ^ 53) {bytes : List Nat}
    {pieces : List (List Nat)}
    (hbytes : writeSse s.stamps (numbered s.stamps s.requestId (frames s.backend)) = some bytes)
    (hpieces : pieces.flatten = bytes) :
    (invoke s.dateParse pieces).2 = none ∧ events (invoke s.dateParse pieces).1 = s.expected := by
  have hops : ∀ f ∈ frames s.backend, Str.units f.1 ∈ Shell.operations := by
    intro f hf
    obtain ⟨hunits, _, hoperation, _⟩ := runtime_operation (s.frames_backend f hf).1
    rwa [hunits]
  have hruntime : ∀ e ∈ s.backend, Runtime e.1 := by
    intro e he
    rw [Runtime, (runtime_operation (s.operations e he)).1]
    exact s.operations e he
  obtain ⟨wires, harrives⟩ := exists_wires (acceptable_numbered s.stamped hops hlength)
  have hparse : parseSse s.dateParse pieces = (wires, none) := by
    rw [parseSse_writeSse s.printed hbytes hpieces, parseBlocks_arrives s.printed harrives]
  have hclean : Clean {} (Str.units s.requestId) 0 0 := ⟨rfl, rfl, rfl⟩
  obtain ⟨hnone, hevents⟩ :=
    RuntimeEventStream.run_readable (fun e he => ascii_encodePayload (s.textual e he))
      hruntime s.readable
    (carriesAll_of_arrives harrives) hclean
  have hexpected : runtimeEvents s.requestId 0 s.backend = s.expected := by
    rw [runtimeEvents_eq_mapIdx (units_ulid s.requestUlid) s.operations, expected]
    simp only [Nat.zero_add]
  simp only [invoke, hparse]
  exact ⟨by rw [hnone]; rfl, by rw [hevents, hexpected]⟩

/-- A number that is no safe integer ends the stream with an error. -/
theorem invoke_refused (hlength : 2 ^ 53 < (frames s.backend).length) {bytes : List Nat}
    {pieces : List (List Nat)}
    (hbytes : writeSse s.stamps (numbered s.stamps s.requestId (frames s.backend)) = some bytes)
    (hpieces : pieces.flatten = bytes) :
    (invoke s.dateParse pieces).2 ≠ none := by
  obtain ⟨event, hmem, hr, hid⟩ := exists_numbered s.stamps s.requestId hlength
  have hrefused : ∀ wire, ¬ Arrives s.dateParse s.stamps event wire := by
    intro wire harrives
    obtain ⟨hacceptable, _⟩ := (validateEnvelope_envelope hr _ _ _).1 harrives
    exact absurd hacceptable.sequence (by rw [hid]; exact Nat.lt_irrefl _)
  have herror := parseBlocks_refused s.printed hmem hrefused
  rw [← parseSse_writeSse s.printed hbytes hpieces] at herror
  simp only [invoke, ne_eq, Option.or_eq_none_iff, herror, and_false, not_false_eq_true]

theorem not_roundTrips (hlength : 2 ^ 53 < (frames s.backend).length) (rest : List Attempt) :
    ¬ s.RoundTrips rest := by
  rintro ⟨sent, bytes, hanswer, hbytes, hall⟩
  rw [s.answer_stream rest, Option.some.injEq, Answer.stream.injEq] at hanswer
  obtain ⟨rfl, _⟩ := hanswer
  exact s.invoke_refused hlength hbytes List.flatten_singleton
    (hall [bytes] List.flatten_singleton).1

end Streaming

/-- The events come through exactly when the envelopes' numbers are safe integers. -/
theorem roundTrips_iff (s : Streaming) (rest : List Attempt) : s.RoundTrips rest ↔
    (frames s.backend).length ≤ 2 ^ 53 := by
  constructor
  · intro h
    by_contra hlong
    exact s.not_roundTrips (Nat.lt_of_not_le hlong) rest h
  · intro hlength
    have hbytes := (writeSse_printed s.printed).1
    exact ⟨_, _, s.answer_stream rest, hbytes, fun pieces hpieces =>
      s.invoke_sent hlength hbytes hpieces⟩

namespace Streaming

theorem empty_delta : Str.ofString "output.delta" ∈ runtimeOperations ∧
    (framePayloads []).length ≤ maxEvents ∧
    ¬ ChunkShaped (received []) := by decide

theorem iso_stopTime : stopTime = (Instant.ofEpoch 1767225600).iso.map Char.toNat := by decide

/-- An answer of `n` empty pieces. -/
def deltas (n : ℕ) : Streaming where
  toNewRequest := { Endings.streamed with stamps := stopStamps, fresh := Holds.empty _ _ }
  resumes := ⟨-1, rfl, Int.le_refl _⟩
  first := rfl
  clock := fun _ => Instant.ofEpoch 1767225600
  dateParse := fun text => decide (text = stopTime)
  requestUlid := stopStamps.ulid
  messageUlid := fun _ => stopStamps.ulid
  timestamp := fun _ => iso_stopTime
  dates := stamped_stop.timestamp
  backend := List.replicate n (Str.ofString "output.delta", [])
  operations := fun _ he => List.eq_of_mem_replicate he ▸ empty_delta.1
  textual := fun _ he => List.eq_of_mem_replicate he ▸ rfl
  sizes := fun _ he => List.eq_of_mem_replicate he ▸ empty_delta.2.1
  unshaped := fun _ he => List.eq_of_mem_replicate he ▸ empty_delta.2.2

end Streaming

theorem long_stream_refused : ¬ ∀ (s : Streaming) (rest : List Attempt), s.RoundTrips rest := by
  intro h
  refine (Streaming.deltas (2 ^ 53 + 1)).not_roundTrips ?_ [] (h _ [])
  show 2 ^ 53 < (frames (List.replicate (2 ^ 53 + 1) (Str.ofString "output.delta", []))).length
  rw [length_frames_replicate]
  exact Nat.lt_succ_self _

end Shell

end KiroCrew
