import KiroCrew.Shell

/-!
# Envelopes on the wire

An envelope of the adapter that the shell's `validateEnvelope` lets through has the fields of its
event (`Arrives.carries`), whatever the browser's `Date.parse` says. The frames of one event,
arriving in order at a stream with no group of chunks open, give that event (`run_single`,
`run_chunks`).
-/

namespace KiroCrew.Shell

/-- The payload as the shell has it; the adapter prints the keys in order. -/
def received (payload : KiroCrew.Fields) : Js.Fields := Json.jsFields (Json.sortFields payload)

/-- The shell has received `wire` for the event. -/
def Arrives (dateParse : Str → Bool) (st : EventStamps) (event : RuntimeEvent)
    (wire : ProtocolEnvelope) : Prop :=
  validateEnvelope dateParse (Json.sortKeys (event.envelope (st.messageId event.eventId))).js =
    .ok wire

/-- The envelope is frame `n` of request `r`. -/
structure Carries (r : Str) (f : Frame) (n : ℕ) (wire : ProtocolEnvelope) : Prop where
  requestId : wire.requestId = some (Str.units r)
  operation : wire.operation = .string (Str.units f.1)
  sequence : wire.sequence = n
  payload : wire.payload = received f.2

/-- The envelopes are the frames from the `n`th on. -/
def CarriesAll (r : Str) (n : ℕ) (fs : List Frame) (wires : List ProtocolEnvelope) : Prop :=
  List.Forall₂ (fun f wire => Carries r f.1 f.2 wire) (fs.zipIdx n) wires

/-! ## The fields of an envelope -/

/-- The fields of an envelope, as the shell has them. -/
def envelopeFields (event : RuntimeEvent) (messageId : Str) : Js.Fields :=
  [(Str.ofString "correlationId", .string (Str.units event.correlationId)),
    (Str.ofString "messageId", .string (Str.units messageId)),
    (Str.ofString "operation", .string (Str.units event.operation)),
    (Str.ofString "payload", .object (received event.payload)),
    (Str.ofString "requestId", match event.requestId with
      | some r => .string (Str.units r)
      | none => .null),
    (Str.ofString "sequence", (Json.Value.int event.eventId).js),
      (Str.ofString "timestamp", .string (Str.units event.timestamp)),
    (Str.ofString "version", .string (Str.ofString "kirocrew-agentcore.v1"))]

theorem envelope_js (event : RuntimeEvent) (messageId : Str) :
    (Json.sortKeys (event.envelope messageId)).js = .object (envelopeFields event messageId) := by
  cases h : event.requestId with
  | none =>
    simp only [RuntimeEvent.envelope, envelopeFields, h]
    rfl
  | some r =>
    simp only [RuntimeEvent.envelope, envelopeFields, h]
    rfl

/-- What `validateEnvelope` asks of the envelope of an event. -/
structure Acceptable (dateParse : Str → Bool) (event : RuntimeEvent) (r messageId : Str) :
    Prop where
  messageId : isUlid (Str.units messageId) = true
  requestId : isUlid (Str.units r) = true
  correlationId : isUlid (Str.units event.correlationId) = true
  operation : Str.units event.operation ∈ operations
  sequence : event.eventId < 2 ^ 53
  timestamp : dateParse (Str.units event.timestamp) = true

theorem get_requestId {event : RuntimeEvent} {r : Str} (hr : event.requestId = some r)
    (messageId : Str) :
    Js.get (envelopeFields event messageId) (Str.ofString "requestId") =
      some (.string (Str.units r)) := by
  have hvalue : Js.get (envelopeFields event messageId) (Str.ofString "requestId") =
    some (match event.requestId with
    | some r => .string (Str.units r)
    | none => .null) := rfl
  rw [hvalue, hr]

theorem validSequence_nat (n : ℕ) : validSequence (some (Json.Value.int n).js) =
    if h : n < 2 ^ 53 then some ⟨n, h⟩ else none := by
  rw [validSequence, Js.safeInteger_nat]
  by_cases h : n < 2 ^ 53
  · have hint : 0 ≤ (n : ℤ) ∧ (n : ℤ) < 2 ^ 53 := ⟨by omega, by exact_mod_cast h⟩
    rw [if_pos h, dif_pos h]
    simp only [hint, and_self, dite_true, Int.toNat_natCast]
  · rw [if_neg h, dif_neg h]

theorem validateEnvelope_envelope {event : RuntimeEvent} {r : Str} (hr : event.requestId = some r)
    (dateParse : Str → Bool)
    (messageId : Str) (wire : ProtocolEnvelope) :
    validateEnvelope dateParse (Json.sortKeys (event.envelope messageId)).js = .ok wire ↔
      ∃ h : Acceptable dateParse event r messageId, wire = ⟨Str.units messageId, some (Str.units r),
        .string (Str.units event.operation), event.eventId, Str.units event.timestamp,
        Str.units event.correlationId,
        received event.payload, h.sequence⟩ := by
  have hversion : Js.get (envelopeFields event messageId) (Str.ofString "version") =
      some (.string (Str.ofString "kirocrew-agentcore.v1")) := rfl
  have hmessage : Js.get (envelopeFields event messageId) (Str.ofString "messageId") =
    some (.string (Str.units messageId)) := rfl
  have hcorrelation : Js.get (envelopeFields event messageId) (Str.ofString "correlationId") =
      some (.string (Str.units event.correlationId)) := rfl
  have hoperation : Js.get (envelopeFields event messageId) (Str.ofString "operation") =
      some (.string (Str.units event.operation)) := rfl
  have hsequence : Js.get (envelopeFields event messageId) (Str.ofString "sequence") =
      some (Json.Value.int event.eventId).js := rfl
  have htimestamp : Js.get (envelopeFields event messageId) (Str.ofString "timestamp") =
      some (.string (Str.units event.timestamp)) := rfl
  have hpayload : Js.get (envelopeFields event messageId) (Str.ofString "payload") =
      some (.object (received event.payload)) := rfl
  have hknown : knownOperation (.string (Str.units event.operation)) ↔ Str.units event.operation ∈
      operations := by
    rw [knownOperation, operationName, Option.any_some, decide_eq_true_eq]
  rw [envelope_js]
  simp only [validateEnvelope, hversion, if_true, validateFields, hmessage, get_requestId hr,
    hcorrelation, hoperation, hsequence,
    htimestamp, hpayload, validRequestId, validSequence_nat]
  by_cases hulid : isUlid (Str.units r) = true
  · by_cases hsafe : event.eventId < 2 ^ 53
    · by_cases hrest : isUlid (Str.units messageId) = true ∧
        isUlid (Str.units event.correlationId) = true ∧
          knownOperation (.string (Str.units event.operation)) ∧
          dateParse (Str.units event.timestamp) = true
      · rw [if_pos hulid, dif_pos hsafe]
        simp only [if_pos hrest, Except.ok.injEq]
        constructor
        · rintro rfl
          exact ⟨⟨hrest.1, hulid, hrest.2.1, hknown.1 hrest.2.2.1, hsafe, hrest.2.2.2⟩, rfl⟩
        · rintro ⟨_, rfl⟩
          rfl
      · rw [if_pos hulid, dif_pos hsafe]
        simp only [if_neg hrest]
        constructor
        · rintro ⟨⟩
        · rintro ⟨h, _⟩
          exact absurd ⟨h.messageId, h.correlationId, hknown.2 h.operation, h.timestamp⟩ hrest
    · rw [if_pos hulid, dif_neg hsafe]
      constructor
      · rintro ⟨⟩
      · rintro ⟨h, _⟩
        exact absurd h.sequence hsafe
  · rw [if_neg hulid]
    constructor
    · rintro ⟨⟩
    · rintro ⟨h, _⟩
      exact absurd h.requestId hulid

theorem Arrives.carries {dateParse : Str → Bool} {st : EventStamps} {event : RuntimeEvent}
    {wire : ProtocolEnvelope} {r : Str}
    (h : Arrives dateParse st event wire) (hr : event.requestId = some r) :
    Carries r event.frame event.eventId wire := by
  obtain ⟨_, rfl⟩ := (validateEnvelope_envelope hr _ _ _).1 h
  exact ⟨rfl, rfl, rfl, rfl⟩

/-- What the adapter stamps and the shell checks: identifiers that are ULIDs, times that are
dates. -/
structure Stamped (dateParse : Str → Bool) (st : EventStamps) (requestId : Str) : Prop where
  messageId : ∀ n, isUlid (st.messageId n) = true
  requestId : isUlid requestId = true
  timestamp : ∀ n, dateParse (Str.units (st.timestamp n)) = true

theorem units_ulid {s : Str} (h : isUlid s = true) : Str.units s = s := by
  have hletters : ∀ c ∈ Str.ofString "0123456789ABCDEFGHJKMNPQRSTVWXYZ", c < 0x10000 := by decide
  rw [isUlid, Bool.and_eq_true, List.all_eq_true] at h
  exact Str.units_of_lt fun c hc => hletters c (of_decide_eq_true (h.2 c hc))

theorem acceptable_numbered {dateParse : Str → Bool} {st : EventStamps} {r : Str} {fs : List Frame}
    (hst : Stamped dateParse st r)
    (hops : ∀ f ∈ fs, Str.units f.1 ∈ operations) (hlength : fs.length ≤ 2 ^ 53) :
    ∀ event ∈ numbered st r fs, event.requestId = some r ∧
        Acceptable dateParse event r (st.messageId event.eventId) := by
  intro event hevent
  obtain ⟨i, hi, rfl⟩ := List.mem_mapIdx.1 hevent
  refine ⟨rfl, ?_, ?_, ?_, hops _ (List.getElem_mem hi), hi.trans_le hlength, hst.timestamp i⟩
  · rw [units_ulid (hst.messageId i)]
    exact hst.messageId i
  · rw [units_ulid hst.requestId]
    exact hst.requestId
  · show isUlid (Str.units st.correlationId) = true
    rw [units_ulid st.ulid]
    exact st.ulid

theorem exists_wires {dateParse : Str → Bool} {st : EventStamps} {r : Str}
    {sent : List RuntimeEvent}
    (h : ∀ event ∈ sent, event.requestId = some r ∧
    Acceptable dateParse event r (st.messageId event.eventId)) :
    ∃ wires, List.Forall₂ (Arrives dateParse st) sent wires := by
  induction sent with
  | nil => exact ⟨[], .nil⟩
  | cons event sent ih =>
    obtain ⟨⟨hr, hevent⟩, hsent⟩ := List.forall_mem_cons.1 h
    obtain ⟨wires, hwires⟩ := ih hsent
    exact ⟨_ :: wires, .cons ((validateEnvelope_envelope hr _ _ _).2 ⟨hevent, rfl⟩) hwires⟩

/-! ## One envelope -/

/-- An operation that the wire sequence counts. -/
def Runtime (operation : Str) : Prop := Str.units operation ∈ runtimeOperations

instance (operation : Str) : Decidable (Runtime operation) := inferInstanceAs (Decidable (_ ∈ _))

/-- The stream has seen `n` frames and `k` events of the request, and no group of chunks is open. -/
structure Clean (s : RuntimeEventStream) (r : Str) (n k : ℕ) : Prop where
  wire : (s.wire r).elim 0 (· + 1) = n
  pending : s.pending r = none
  logical : (s.logical r).getD 0 = k

def events (items : List Item) : List Event := items.filterMap Item.event

theorem events_append (items items' : List Item) : events (items ++ items') = events items ++
    events items' :=
  List.filterMap_append

namespace RuntimeEventStream

variable {s : RuntimeEventStream} {r : Str} {f : Frame} {n k : ℕ} {wire : ProtocolEnvelope}

theorem counted_of_runtime (h : Carries r f n wire) (hop : Runtime f.1) :
    counted wire = some (Str.units r, Str.units f.1) := by
  have hop : Str.units f.1 ∈ runtimeOperations := hop
  simp only [counted, h.requestId, h.operation, runtimeOperation, if_pos hop]

theorem counted_of_not_runtime (h : Carries r f n wire) (hop : ¬ Runtime f.1) :
    counted wire = none := by
  have hop : ¬ Str.units f.1 ∈ runtimeOperations := hop
  simp only [counted, h.requestId, h.operation, runtimeOperation, if_neg hop]

theorem checkWire_of_ne (h : Carries r f n wire) (hop : Runtime f.1)
    (hne : (s.wire (Str.units r)).elim 0 (· + 1) ≠ n) :
    s.checkWire wire = .error incomplete := by
  have hsequence : wire.sequence ≠ (s.wire (Str.units r)).elim 0 (· + 1) := by
    rw [h.sequence]
    exact hne.symm
  simp only [checkWire, counted_of_runtime h hop, if_pos hsequence]

theorem checkWire_of_eq (h : Carries r f n wire) (hop : Runtime f.1)
    (heq : (s.wire (Str.units r)).elim 0 (· + 1) = n) :
    s.checkWire wire = .ok { s with wire := Function.update s.wire (Str.units r) (some n) } := by
  have hsequence : ¬ n ≠ (s.wire (Str.units r)).elim 0 (· + 1) := by
    rw [heq]
    exact not_not.2 rfl
  simp only [checkWire, counted_of_runtime h hop, h.sequence, if_neg hsequence]

theorem number_of_counted {envelope : ProtocolEnvelope} {key operation : Str}
    (h : counted envelope = some (key, operation))
    (hk : (s.logical key).getD 0 = k) :
    s.number envelope = ({ s with logical := Function.update s.logical key (some (k + 1)) },
      ⟨envelope, some ⟨key, k, operation, envelope.payload⟩⟩) := by
  simp only [number, h, hk]

end RuntimeEventStream

/-! ## Errors of the assembler -/

theorem frameChunkOf_message {payload : Js.Fields} {error : ProtocolValidationError}
    (h : frameChunkOf payload = .error error) :
    error.message ≠ incomplete.message := by
  unfold frameChunkOf at h
  split_ifs at h
  split at h
  · split_ifs at h
    · cases h
      decide
    · split at h
      · cases h
      · cases h
        decide
  · cases h
    decide

theorem extend_message {chunks : List FrameChunk} {chunk : FrameChunk}
    {error : ProtocolValidationError}
    (h : extend chunks chunk = .error error) : error.message ≠ incomplete.message := by
  unfold extend at h
  split_ifs at h
  cases h
  decide

theorem join_message {chunks : List FrameChunk} {error : ProtocolValidationError}
    (h : (reassembleChunks chunks).bind parseChunkedPayload = .error error) :
    error.message ≠ incomplete.message := by
  cases hbytes : reassembleChunks chunks with
  | error e =>
    rw [hbytes] at h
    cases h
    unfold reassembleChunks at hbytes
    split at hbytes
    · cases hbytes
      decide
    · split_ifs at hbytes
      cases hbytes
      decide
  | ok bytes =>
    rw [hbytes] at h
    have hparse : parseChunkedPayload bytes = .error error := h
    unfold parseChunkedPayload at hparse
    split at hparse
    · cases hparse
      decide
    · cases hparse
    · cases hparse
      decide

/-- A message of the assembler is not the one for the wire sequence. -/
theorem assemble_message {pending : Pending} {wire : ProtocolEnvelope}
    {error : ProtocolValidationError}
    (h : assemble pending wire = .error error) : error.message ≠ incomplete.message := by
  unfold assemble at h
  simp only at h
  split at h
  · next hchunk =>
    cases h
    exact frameChunkOf_message hchunk
  · split_ifs at h
    cases h
    decide
  · split at h
    · next hextend =>
      cases h
      exact extend_message hextend
    · split_ifs at h
      split at h
      · next hjoin =>
        cases h
        exact join_message hjoin
      · cases h

/-- What the assembler gives has the fields of the last envelope, the payload apart. -/
theorem assemble_counted {pending pending' : Pending} {wire envelope : ProtocolEnvelope}
    (h : assemble pending wire = .ok (pending', some envelope)) :
    RuntimeEventStream.counted envelope = RuntimeEventStream.counted wire := by
  unfold assemble at h
  simp only at h
  split at h
  · cases h
  · split_ifs at h
    cases h
    rfl
  · split at h
    · cases h
    · split_ifs at h
      · cases h
      · split at h
        · cases h
        · cases h
          rfl

namespace RuntimeEventStream

variable {s : RuntimeEventStream} {r : Str} {f : Frame} {n k : ℕ} {wire : ProtocolEnvelope}

/-! ## Runs -/

theorem run_of_error {error : ConnectionError} (h : s.accept wire = .error error)
    (ws : List ProtocolEnvelope) :
    s.run (wire :: ws) = (s, [], some error) := by simp only [run, h]

theorem run_of_ok {s' : RuntimeEventStream} {item : Option Item}
    (h : s.accept wire = .ok (s', item)) (ws : List ProtocolEnvelope) :
    s.run (wire :: ws) = ((s'.run ws).1, item.toList ++ (s'.run ws).2.1, (s'.run ws).2.2) := by
      simp only [run, h]

theorem run_append (s : RuntimeEventStream) (ws ws' : List ProtocolEnvelope) :
    s.run (ws ++ ws') =
      if (s.run ws).2.2.isSome then s.run ws
      else (((s.run ws).1.run ws').1, (s.run ws).2.1 ++ ((s.run ws).1.run ws').2.1,
          ((s.run ws).1.run ws').2.2) := by
  induction ws generalizing s with
  | nil => simp [run]
  | cons w ws ih =>
    rw [List.cons_append]
    cases haccept : s.accept w with
    | error e =>
      rw [run_of_error haccept, run_of_error haccept]
      rfl
    | ok p =>
      obtain ⟨s', item⟩ := p
      rw [run_of_ok haccept, run_of_ok haccept, ih]
      dsimp only
      split_ifs
      · rfl
      · rw [List.append_assoc]

theorem events_run_append (s : RuntimeEventStream) (ws ws' : List ProtocolEnvelope) :
    events (s.run (ws ++ ws')).2.1 = events (s.run ws).2.1 ++
      if (s.run ws).2.2.isSome then [] else events ((s.run ws).1.run ws').2.1 := by
  rw [run_append]
  split_ifs
  · rw [List.append_nil]
  · exact events_append _ _

theorem events_accept {s' : RuntimeEventStream} {item : Option Item}
    (h : s.accept wire = .ok (s', item)) :
    (events item.toList).length ≤ 1 ∧
    (counted wire = none → events item.toList = [] ∧ s'.wire = s.wire ∧
    s'.logical = s.logical) := by
  unfold accept at h
  split at h
  · cases h
  · next s₁ hwire =>
    have hsame : counted wire = none → s₁ = s := by
      intro hcounted
      simp only [checkWire, hcounted] at hwire
      cases hwire
      rfl
    split at h
    · cases h
    · cases h
      refine ⟨by simp [events], ?_⟩
      intro hcounted
      rw [hsame hcounted]
      exact ⟨rfl, rfl, rfl⟩
    · next pending envelope hassemble =>
      have hlength : ∀ i : Item, (events (some i).toList).length ≤ 1 := by
        intro i
        exact List.length_filterMap_le _ _
      cases h
      refine ⟨hlength _, ?_⟩
      intro hcounted
      have hnone : counted envelope = none := by rw [assemble_counted hassemble, hcounted]
      rw [hsame hcounted]
      simp [hnone, events]

theorem accept_error {error : ConnectionError} (h : s.accept wire = .error error)
    (hcounted : counted wire = none) :
    error ≠ incomplete := by
  have hwire : s.checkWire wire = .ok s := by simp only [checkWire, hcounted]
  unfold accept at h
  rw [hwire] at h
  dsimp only at h
  split at h
  · next e hassemble =>
    cases h
    intro heq
    exact assemble_message hassemble (congrArg ConnectionError.message heq)
  · cases h
  · cases h

/-- Envelopes of other operations give no event and leave the counters. -/
theorem run_uncounted {ws : List ProtocolEnvelope} (h : ∀ w ∈ ws, counted w = none)
    (s : RuntimeEventStream) :
    events (s.run ws).2.1 = [] ∧ (s.run ws).1.wire = s.wire ∧ (s.run ws).2.2 ≠ some incomplete := by
  induction ws generalizing s with
  | nil => exact ⟨rfl, rfl, by simp [run]⟩
  | cons w ws ih =>
    obtain ⟨hw, hws⟩ := List.forall_mem_cons.1 h
    cases haccept : s.accept w with
    | error e =>
      rw [run_of_error haccept]
      refine ⟨rfl, rfl, ?_⟩
      rw [Ne, Option.some.injEq]
      exact accept_error haccept hw
    | ok p =>
      obtain ⟨s', item⟩ := p
      obtain ⟨hnone, hwire, _⟩ := (events_accept haccept).2 hw
      obtain ⟨hevents, hwires, herror⟩ := ih hws s'
      rw [run_of_ok haccept]
      refine ⟨?_, hwires.trans hwire, herror⟩
      show events (item.toList ++ (s'.run ws).2.1) = []
      rw [events_append, hnone, hevents]
      rfl

/-! ## The frames of one event -/

theorem forall₂_append_left {α β : Type*} {R : α → β → Prop} {as as' : List α} {bs : List β}
    (h : List.Forall₂ R (as ++ as') bs) : ∃ u v, bs = u ++ v ∧ List.Forall₂ R as u ∧
    List.Forall₂ R as' v := by
  induction as generalizing bs with
  | nil => exact ⟨[], bs, rfl, .nil, h⟩
  | cons a as ih =>
    cases h with
    | cons hab hrest =>
      obtain ⟨u, v, rfl, hu, hv⟩ := ih hrest
      exact ⟨_ :: u, v, rfl, .cons hab hu, hv⟩

theorem CarriesAll.append {fs fs' : List Frame} {ws : List ProtocolEnvelope}
    (h : CarriesAll r n (fs ++ fs') ws) :
    ∃ u v, ws = u ++ v ∧ CarriesAll r n fs u ∧ CarriesAll r (n + fs.length) fs' v := by
  rw [CarriesAll, List.zipIdx_append] at h
  exact forall₂_append_left h

theorem CarriesAll.cons_iff {fs : List Frame} {ws : List ProtocolEnvelope} :
    CarriesAll r n (f :: fs) ws ↔ ∃ w ws', ws = w :: ws' ∧ Carries r f n w ∧
    CarriesAll r (n + 1) fs ws' := by
  rw [CarriesAll, List.zipIdx_cons]
  constructor
  · intro h
    cases h with
    | cons hw hws => exact ⟨_, _, rfl, hw, hws⟩
  · rintro ⟨w, ws', rfl, hw, hws⟩
    exact .cons hw hws

/-- Frames after a gap give no event: the first that is counted ends the stream. -/
theorem events_of_gap {fs : List Frame} {ws : List ProtocolEnvelope} (h : CarriesAll r n fs ws)
    (hgap : (s.wire (Str.units r)).elim 0 (· + 1) < n) : events (s.run ws).2.1 = [] := by
  induction fs generalizing s n ws with
  | nil =>
    cases h
    rfl
  | cons f fs ih =>
    obtain ⟨w, ws', rfl, hw, hws⟩ := CarriesAll.cons_iff.1 h
    by_cases hop : Runtime f.1
    · have herror : s.accept w = .error incomplete := by
        rw [accept, checkWire_of_ne hw hop (Nat.ne_of_lt hgap)]
      rw [run_of_error herror]
      rfl
    · cases haccept : s.accept w with
      | error e =>
        rw [run_of_error haccept]
        rfl
      | ok p =>
        obtain ⟨s', item⟩ := p
        obtain ⟨hnone, hwire, _⟩ := (events_accept haccept).2 (counted_of_not_runtime hw hop)
        rw [run_of_ok haccept, events_append, hnone, ih hws (by rw [hwire]; omega)]
        rfl

/-- The counted frame that comes next, when the assembler holds it back. -/
theorem accept_held {pending : Pending} (h : Carries r f n wire) (hop : Runtime f.1)
    (hwire : (s.wire (Str.units r)).elim 0 (· + 1) = n)
    (hassemble : assemble s.pending wire = .ok (pending, none)) :
    s.accept wire = .ok ({ s with
        pending := pending
        wire := Function.update s.wire (Str.units r) (some n) }, none) := by
  simp only [accept, checkWire_of_eq h hop hwire, hassemble]

/-- The counted frame that comes next, when it completes an envelope. -/
theorem accept_complete {pending : Pending} {envelope : ProtocolEnvelope} (h : Carries r f n wire)
    (hop : Runtime f.1)
    (hwire : (s.wire (Str.units r)).elim 0 (· + 1) = n)
    (hlogical : (s.logical (Str.units r)).getD 0 = k)
    (hassemble : assemble s.pending wire = .ok (pending, some envelope)) :
    s.accept wire = .ok (⟨pending, Function.update s.wire (Str.units r) (some n),
      Function.update s.logical (Str.units r) (some (k + 1))⟩,
      some ⟨envelope, some ⟨Str.units r, k, Str.units f.1, envelope.payload⟩⟩) := by
  have hcounted : counted envelope = some (Str.units r, Str.units f.1) := by
    rw [assemble_counted hassemble, counted_of_runtime h hop]
  simp only [accept, checkWire_of_eq h hop hwire, hassemble]
  rw [number_of_counted (s := ⟨pending, _, s.logical⟩) hcounted hlogical]

theorem accept_refused {error : ProtocolValidationError} (h : Carries r f n wire)
    (hop : Runtime f.1)
    (hwire : (s.wire (Str.units r)).elim 0 (· + 1) = n)
    (hassemble : assemble s.pending wire = .error error) :
    s.accept wire = .error ⟨.transportFailed, error.message, false⟩ := by
  simp only [accept, checkWire_of_eq h hop hwire, hassemble]

theorem clean_complete {pending : Pending} (hpending : pending r = none) :
    Clean ⟨pending, Function.update s.wire r (some n), Function.update s.logical r (some (k + 1))⟩ r
      (n + 1) (k + 1) :=
  ⟨by simp, hpending, by simp⟩

theorem run_whole {ws : List ProtocolEnvelope} (h : CarriesAll r n [f] ws) (hop : Runtime f.1)
    (hclean : Clean s (Str.units r) n k) (hshape : ¬ ChunkShaped (received f.2)) :
    (s.run ws).2.2 = none ∧
      events (s.run ws).2.1 = [⟨Str.units r, k, Str.units f.1, received f.2⟩] ∧
      Clean (s.run ws).1 (Str.units r) (n + 1) (k + 1) := by
  obtain ⟨w, ws', rfl, hw, hnil⟩ := CarriesAll.cons_iff.1 h
  cases hnil
  have hchunk : frameChunkOf w.payload = .ok none := by rw [frameChunkOf, hw.payload, if_neg hshape]
  have hkey : w.requestId.getD [] = Str.units r := by rw [hw.requestId, Option.getD_some]
  have hassemble : assemble s.pending w = .ok (s.pending, some w) := by
    simp only [assemble, hkey, hchunk, hclean.pending, Option.isSome_none,
      Bool.false_eq_true, if_false]
  rw [run_of_ok (accept_complete hw hop hclean.wire hclean.logical hassemble)]
  refine ⟨rfl, ?_, clean_complete hclean.pending⟩
  rw [← hw.payload]
  rfl

end RuntimeEventStream

/-! ## Chunks -/

theorem units_encode {bs : List Nat} (h : ∀ b ∈ bs, b < 256) : Str.units (Base64.encode bs) =
    Base64.encode bs := by
  refine Str.units_of_lt fun c hc => ?_
  have hrange := Base64.isText_encode h c hc
  omega

theorem chunkShaped_payload (chunk : FrameChunk) : ChunkShaped (received chunk.payload) := by
  have hkeys : Js.keys (received chunk.payload) = chunkKeys := rfl
  rw [ChunkShaped, hkeys]
  exact ⟨rfl, fun key hkey => hkey⟩

theorem frameChunkOf_payload {chunk : FrameChunk} (hindex : chunk.index < chunk.total)
    (hbytes : ∀ b ∈ chunk.data, b < 256) :
    frameChunkOf (received chunk.payload) =
      if chunk.total < 2 ^ 53 then .ok (some chunk) else .error invalidChunk := by
  have hdata : Js.get (received chunk.payload) (Str.ofString "chunkData") =
      some (.string (Base64.encode chunk.data)) := by
    have hunits : Js.get (received chunk.payload) (Str.ofString "chunkData") =
        some (.string (Str.units (Base64.encode chunk.data))) := rfl
    rw [hunits, units_encode hbytes]
  have hget : Js.get (received chunk.payload) (Str.ofString "chunkIndex") =
    some (Json.Value.int chunk.index).js ∧
      Js.get (received chunk.payload) (Str.ofString "chunkTotal") =
      some (Json.Value.int chunk.total).js := ⟨rfl, rfl⟩
  rw [frameChunkOf, if_pos (chunkShaped_payload chunk), hdata, hget.1, hget.2, Js.safeInteger_nat,
    Js.safeInteger_nat]
  by_cases htotal : chunk.total < 2 ^ 53
  · have hrange : ¬ ((chunk.total : ℤ) < 1 ∨ (chunk.index : ℤ) < 0 ∨
      (chunk.total : ℤ) ≤ chunk.index) := by omega
    rw [if_pos htotal, if_pos (hindex.trans htotal), if_pos htotal]
    simp only [hrange, if_false, Base64.atob_encode hbytes, Int.toNat_natCast]
  · rw [if_neg htotal, if_neg htotal]
    split_ifs <;> rfl

/-- All the chunks of a payload, in order. -/
structure Whole (chunks : List FrameChunk) : Prop where
  index : ∀ i (h : i < chunks.length), chunks[i].index = i
  total : ∀ chunk ∈ chunks, chunk.total = chunks.length
  bytes : ∀ chunk ∈ chunks, ∀ b ∈ chunk.data, b < 256

theorem Whole.at {before after : List FrameChunk} {chunk : FrameChunk}
    (h : Whole (before ++ chunk :: after)) :
    chunk.index = before.length ∧ chunk.total = (before ++ chunk :: after).length ∧
    ∀ b ∈ chunk.data, b < 256 := by
  have hmem : chunk ∈ before ++ chunk :: after := List.mem_append_right _ List.mem_cons_self
  have hindex := h.index before.length (by simp)
  rw [List.getElem_append_right (Nat.le_refl _)] at hindex
  simp only [Nat.sub_self, List.getElem_cons_zero] at hindex
  exact ⟨hindex, h.total chunk hmem, h.bytes chunk hmem⟩

theorem Whole.extend {before after : List FrameChunk} {chunk : FrameChunk}
    (h : Whole (before ++ chunk :: after)) :
    extend before chunk = .ok (before ++ [chunk]) := by
  obtain ⟨hindex, htotal, _⟩ := h.at
  have hfirst : before.head?.any (fun first => decide (chunk.total ≠ first.total)) = false := by
    cases before with
    | nil => rfl
    | cons first before =>
      have hsame : first.total = chunk.total := by rw [h.total first (by simp), htotal]
      simp [hsame]
  rw [Shell.extend, if_neg]
  rintro (hne | hany)
  · exact hne hindex
  · rw [hfirst] at hany
    cases hany

theorem Whole.reassemble {chunks : List FrameChunk} (h : Whole chunks) (hne : chunks ≠ []) :
    reassembleChunks chunks = .ok (chunks.flatMap FrameChunk.data) := by
  cases chunks with
  | nil => exact absurd rfl hne
  | cons first rest =>
    have htotal : first.total = (first :: rest).length := h.total first List.mem_cons_self
    rw [reassembleChunks, if_neg]
    rintro (hlength | hany)
    · exact hlength htotal
    · obtain ⟨⟨chunk, index⟩, hmem, hwrong⟩ := List.any_eq_true.1 hany
      obtain ⟨_, hlt, hget⟩ := List.mem_zipIdx hmem
      simp only [Nat.zero_add, Nat.sub_zero] at hlt hget
      have hindex := h.index index hlt
      have hsame := h.total chunk (hget ▸ List.getElem_mem hlt)
      rw [← hget] at hindex
      simp [hindex, hsame, htotal] at hwrong

theorem whole_chunkPayload {payload : List Nat} {limit : Nat} (h : ∀ b ∈ payload, b < 256) :
    Whole (chunkPayload payload limit) where
  index i hi := by simp [chunkPayload]
  total chunk hchunk := by
    obtain ⟨i, hi, rfl⟩ := List.mem_mapIdx.1 hchunk
    simp [chunkPayload]
  bytes chunk hchunk b hb := h b (mem_of_mem_chunk hchunk b hb)

/-- What the assembler does with a chunk, when it has those before it. -/
theorem Whole.assemble {before after : List FrameChunk} {chunk : FrameChunk}
    (h : Whole (before ++ chunk :: after))
    (hsafe : (before ++ chunk :: after).length < 2 ^ 53) {pending : Pending}
    {wire : ProtocolEnvelope}
    (hpayload : wire.payload = received chunk.payload)
      (hpending : (pending (wire.requestId.getD [])).getD [] = before) :
    assemble pending wire =
      if after = [] then
        match parseChunkedPayload ((before ++ [chunk]).flatMap FrameChunk.data) with
        | .error error => .error error
        | .ok payload =>
          .ok (Function.update pending (wire.requestId.getD []) none,
            some { wire with payload := payload })
      else .ok (Function.update pending (wire.requestId.getD []) (some (before ++ [chunk])),
          none) := by
  obtain ⟨hindex, htotal, hbytes⟩ := h.at
  have hlt : chunk.index < chunk.total := by
    rw [hindex, htotal, List.length_append, List.length_cons]
    omega
  have hchunk : frameChunkOf wire.payload = .ok (some chunk) := by
    rw [hpayload, frameChunkOf_payload hlt hbytes, if_pos (htotal ▸ hsafe)]
  simp only [Shell.assemble, hchunk, hpending, h.extend, htotal, List.length_append,
    List.length_cons, List.length_nil]
  by_cases hafter : after = []
  · subst hafter
    have hlast : ¬ before.length + (0 + 1) < before.length + (0 + 1) := Nat.lt_irrefl _
    rw [List.length_nil, if_neg hlast, if_pos rfl, h.reassemble (by simp)]
    rfl
  · have hpos := List.length_pos_iff.2 hafter
    rw [if_pos (by omega), if_neg hafter]

namespace RuntimeEventStream

variable {s : RuntimeEventStream} {r operation : Str} {n k : ℕ}

/-- The chunks after `before`: the whole payload, or an error of the assembler. -/
theorem run_chunks {before after : List FrameChunk} {ws : List ProtocolEnvelope}
    (hwhole : Whole (before ++ after))
    (hsafe : (before ++ after).length < 2 ^ 53) (hne : after ≠ []) (hop : Runtime operation)
    (h : CarriesAll r n (after.map fun chunk => (operation, chunk.payload)) ws)
    (hwire : (s.wire (Str.units r)).elim 0 (· + 1) = n)
      (hpending : (s.pending (Str.units r)).getD [] = before)
    (hlogical : (s.logical (Str.units r)).getD 0 = k) :
    match parseChunkedPayload ((before ++ after).flatMap FrameChunk.data) with
    | .error _ => events (s.run ws).2.1 = [] ∧ (s.run ws).2.2 ≠ none
    | .ok payload =>
      (s.run ws).2.2 = none ∧
        events (s.run ws).2.1 = [⟨Str.units r, k, Str.units operation, payload⟩] ∧
        Clean (s.run ws).1 (Str.units r) (n + after.length) (k + 1) := by
  induction after generalizing before s n ws with
  | nil => exact absurd rfl hne
  | cons chunk after ih =>
    obtain ⟨w, ws', rfl, hw, hws⟩ := CarriesAll.cons_iff.1 h
    have hkey : w.requestId.getD [] = Str.units r := by rw [hw.requestId, Option.getD_some]
    have hassemble : assemble s.pending w = _ :=
      hwhole.assemble hsafe hw.payload (by rw [hkey]; exact hpending)
    rw [hkey] at hassemble
    by_cases hafter : after = []
    · subst hafter
      cases hws
      rw [if_pos rfl] at hassemble
      cases hparse : parseChunkedPayload ((before ++ [chunk]).flatMap FrameChunk.data) with
      | error e =>
        rw [hparse] at hassemble
        rw [run_of_error (accept_refused hw hop hwire hassemble)]
        exact ⟨rfl, by simp⟩
      | ok payload =>
        rw [hparse] at hassemble
        rw [run_of_ok (accept_complete hw hop hwire hlogical hassemble)]
        exact ⟨rfl, rfl, clean_complete (by simp)⟩
    · rw [if_neg hafter] at hassemble
      have hsplit : before ++ chunk :: after = (before ++ [chunk]) ++ after := by simp
      rw [hsplit] at hwhole hsafe ⊢
      have hrest := ih (s := ⟨Function.update s.pending (Str.units r) (some (before ++ [chunk])),
        Function.update s.wire (Str.units r) (some n), s.logical⟩) hwhole hsafe hafter hws (by simp)
        (by simp) hlogical
      rw [run_of_ok (accept_held hw hop hwire hassemble)]
      have hcount : n + (chunk :: after).length = n + 1 + after.length := by
        rw [List.length_cons]
        omega
      rw [hcount]
      exact hrest

theorem events_accept_chunk {s' : RuntimeEventStream} {item : Option Item} {chunk : FrameChunk}
    {wire : ProtocolEnvelope}
    (hpayload : wire.payload = received chunk.payload) (hlast : chunk.index + 1 < chunk.total)
    (hbytes : ∀ b ∈ chunk.data, b < 256)
    (h : s.accept wire = .ok (s', item)) : item = none := by
  unfold accept at h
  split at h
  · cases h
  · next s₁ hwire =>
    have hchunk := frameChunkOf_payload (by omega : chunk.index < chunk.total) hbytes
    split at h
    · cases h
    · cases h
      rfl
    · next pending envelope hassemble =>
      exfalso
      unfold assemble at hassemble
      simp only at hassemble
      rw [hpayload, hchunk] at hassemble
      by_cases htotal : chunk.total < 2 ^ 53
      · rw [if_pos htotal] at hassemble
        dsimp only at hassemble
        split at hassemble
        · cases hassemble
        · next chunks hextend =>
          have hlength : chunks.length < chunk.total := by
            unfold extend at hextend
            split_ifs at hextend with hgroup
            cases hextend
            have hindex : chunk.index = ((s₁.pending (wire.requestId.getD [])).getD []).length := by
              by_contra hne
              exact hgroup (Or.inl hne)
            rw [List.length_append, List.length_singleton, ← hindex]
            exact hlast
          rw [if_pos hlength] at hassemble
          cases hassemble
      · rw [if_neg htotal] at hassemble
        cases hassemble

end RuntimeEventStream

end KiroCrew.Shell
