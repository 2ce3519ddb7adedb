import KiroCrew.Wire

/-!
# What the shell gets of a request

The adapter numbers all events of a request on one counter; `RuntimeEventStream` checks that number
for the four runtime operations only, with a counter of its own. `accepted_iff` says for which
events of a backend the shell takes the whole stream: no runtime event comes after one of another
kind, and each can be told from its chunks.
-/

namespace KiroCrew.Shell

/-- A request's envelopes as the shell gets them: all, in order, at a stream that has seen nothing
of the request. -/
structure Arrival where
  dateParse : Str → Bool
  stamps : EventStamps
  requestId : Str
  /-- what the backend yields -/
  backend : List (Str × KiroCrew.Fields)
  wires : List ProtocolEnvelope
  stream : RuntimeEventStream
  /-- `json.dumps` prints ASCII -/
  ascii : ∀ e ∈ backend, ∀ b ∈ encodePayload e.2, b < 0x80
  arrives : List.Forall₂ (Arrives dateParse stamps)
    (numbered stamps requestId (frames backend)) wires
  fresh : Clean stream (Str.units requestId) 0 0

/-- The runtime events of a backend, the first with the number `k`. -/
def runtimeEvents (r : Str) : ℕ → List (Str × KiroCrew.Fields) → List Event
  | _, [] => []
  | k, e :: backend =>
    if Runtime e.1 then ⟨Str.units r, k, Str.units e.1, received e.2⟩ :: runtimeEvents r
      (k + 1) backend else runtimeEvents r k backend

/-- The stream is not refused for its sequence, and gives every runtime event, numbered from 0. -/
def Arrival.Accepted (a : Arrival) : Prop :=
  (a.stream.run a.wires).2.2 ≠ some incomplete ∧ events (a.stream.run a.wires).2.1 =
    runtimeEvents a.requestId 0 a.backend

/-- The payload is not taken for a chunk, or it is sent in chunks and its text is JSON to a
browser. -/
def Readable (payload : KiroCrew.Fields) : Prop :=
  if (framePayloads payload).length = 1 then ¬ ChunkShaped (received payload)
  else (framePayloads payload).length < 2 ^ 53 ∧ Js.parse (encodePayload payload) =
    some (.object (received payload))

/-! ## Arrivals -/

theorem carriesAll_of_arrives {dateParse : Str → Bool} {st : EventStamps} {r : Str}
    {fs : List Frame} {wires : List ProtocolEnvelope}
    (h : List.Forall₂ (Arrives dateParse st) (numbered st r fs) wires) :
    CarriesAll r 0 fs wires := by
  rw [numbered, List.mapIdx_eq_zipIdx_map, List.forall₂_map_left_iff] at h
  refine h.imp ?_
  rintro ⟨⟨operation, payload⟩, i⟩ wire harrives
  exact harrives.carries rfl

theorem length_framePayloads_pos (payload : KiroCrew.Fields) : 0 < (framePayloads payload).length :=
  List.length_pos_iff.2 (framePayloads_ne_nil payload)

theorem framePayloads_cases (payload : KiroCrew.Fields) :
    framePayloads payload = [payload] ∨
      framePayloads payload = (chunkPayload (encodePayload payload) eventChunkBytes).map
      FrameChunk.payload ∧
        (framePayloads payload).length =
          (chunkPayload (encodePayload payload) eventChunkBytes).length ∧
        (framePayloads payload).length ≠ 1 := by
  unfold framePayloads
  simp only
  split_ifs with hone
  · exact Or.inl rfl
  · right
    rw [List.length_map]
    exact ⟨rfl, rfl, hone⟩

theorem join_chunks (payload : KiroCrew.Fields) :
    (chunkPayload (encodePayload payload) eventChunkBytes).flatMap FrameChunk.data =
    encodePayload payload :=
  flatMap_chunkPayload _ (by decide)

theorem parseChunkedPayload_ascii {bytes : List Nat} (h : ∀ b ∈ bytes, b < 0x80)
    {payload : Js.Fields} :
    parseChunkedPayload bytes = .ok payload ↔ Js.parse bytes = some (.object payload) := by
  rw [parseChunkedPayload, TextDecoder.decode_ascii h]
  constructor
  · intro hok
    split at hok
    · cases hok
    · next hparse =>
      cases hok
      exact hparse
    · cases hok
  · intro hparse
    rw [hparse]

namespace RuntimeEventStream

variable {s : RuntimeEventStream} {r : Str} {n k : ℕ} {e : Str × KiroCrew.Fields}
    {ws : List ProtocolEnvelope}

/-- The frames of a readable runtime event give it. -/
theorem run_event (h : CarriesAll r n ((framePayloads e.2).map (e.1, ·)) ws) (hop : Runtime e.1)
    (hascii : ∀ b ∈ encodePayload e.2, b < 0x80) (hreadable : Readable e.2)
    (hclean : Clean s (Str.units r) n k) :
    (s.run ws).2.2 = none ∧
      events (s.run ws).2.1 = [⟨Str.units r, k, Str.units e.1, received e.2⟩] ∧
      Clean (s.run ws).1 (Str.units r) (n + (framePayloads e.2).length) (k + 1) := by
  rw [Readable] at hreadable
  rcases framePayloads_cases e.2 with hone | ⟨hchunks, hlength, hne⟩
  · rw [if_pos (by rw [hone]; rfl)] at hreadable
    rw [hone] at h ⊢
    exact run_whole h hop hclean hreadable
  · rw [if_neg hne] at hreadable
    obtain ⟨hsafe, hparse⟩ := hreadable
    have hpos := length_framePayloads_pos e.2
    have hwhole : Whole (chunkPayload (encodePayload e.2) eventChunkBytes) :=
      whole_chunkPayload fun b hb => (hascii b hb).trans (by decide)
    have hjoin := join_chunks e.2
    rw [hchunks, List.map_map] at h
    rw [hlength] at hsafe hpos ⊢
    generalize chunkPayload (encodePayload e.2) eventChunkBytes = chunks at *
    have hcarries : CarriesAll r n (chunks.map fun chunk => (e.1, chunk.payload)) ws := h
    have hall : Whole ([] ++ chunks) := by rwa [List.nil_append]
    have hcount : ([] ++ chunks).length < 2 ^ 53 := by rwa [List.nil_append]
    have hopen : (s.pending (Str.units r)).getD [] = [] := by
      rw [hclean.pending]
      rfl
    have hrun := run_chunks hall hcount (List.length_pos_iff.1 hpos) hop hcarries hclean.wire hopen
      hclean.logical
    rw [List.nil_append, hjoin, (parseChunkedPayload_ascii hascii).2 hparse] at hrun
    exact hrun

theorem parse_chunk_ne {payload : Js.Fields} {data : Str} {bytes : List Nat}
    (hdata : Js.get payload (Str.ofString "chunkData") = some (.string data))
    (hbytes : Base64.atob data = some bytes) :
    parseChunkedPayload bytes ≠ .ok payload := by
  intro hok
  have hparse : Js.parse (TextDecoder.decode bytes) = some (.object payload) := by
    unfold parseChunkedPayload at hok
    split at hok
    · cases hok
    · next hparse =>
      cases hok
      exact hparse
    · cases hok
  have hunits : ∀ c ∈ TextDecoder.decode bytes, c < 0x10000 := fun c hc => Str.lt_of_mem_units hc
  have hstring := Js.length_of_parse hunits hparse hdata
  have hdecode := TextDecoder.length_decode_le bytes
  have hatob := Base64.length_atob hbytes
  omega

theorem frameChunkOf_some {payload : Js.Fields} {chunk : FrameChunk}
    (h : frameChunkOf payload = .ok (some chunk)) :
    ∃ data, Js.get payload (Str.ofString "chunkData") = some (.string data) ∧
    Base64.atob data = some chunk.data := by
  unfold frameChunkOf at h
  split_ifs at h
  · split at h
    · next data _ _ hdata _ _ =>
      split_ifs at h
      split at h
      · next bytes hbytes =>
        cases h
        exact ⟨data, hdata, hbytes⟩
      · cases h
    · cases h
  · cases h

theorem reassembleChunks_singleton {chunk : FrameChunk} {bytes : List Nat}
    (h : reassembleChunks [chunk] = .ok bytes) :
    bytes = chunk.data := by
  unfold reassembleChunks at h
  simp only at h
  split_ifs at h
  cases h
  simp

theorem assemble_shaped {pending pending' : Pending} {wire envelope : ProtocolEnvelope}
    (hshape : ChunkShaped wire.payload)
    (hpending : pending (wire.requestId.getD []) = none)
    (h : assemble pending wire = .ok (pending', some envelope)) :
    envelope.payload ≠ wire.payload := by
  unfold assemble at h
  simp only [hpending, Option.getD_none] at h
  split at h
  · cases h
  · next hchunk =>
    unfold frameChunkOf at hchunk
    rw [if_pos hshape] at hchunk
    split at hchunk
    · split_ifs at hchunk
      split at hchunk <;> cases hchunk
    · cases hchunk
  · next chunk hchunk =>
    obtain ⟨data, hdata, hatob⟩ := frameChunkOf_some hchunk
    split at h
    · cases h
    · next chunks hextend =>
      unfold extend at hextend
      split_ifs at hextend
      cases hextend
      split_ifs at h
      · cases h
      · split at h
        · cases h
        · next payload hjoin =>
          cases h
          cases hbytes : reassembleChunks ([] ++ [chunk]) with
          | error error =>
            rw [hbytes] at hjoin
            cases hjoin
          | ok bytes =>
            rw [hbytes] at hjoin
            obtain rfl := reassembleChunks_singleton hbytes
            intro heq
            dsimp only at heq
            rw [heq] at hjoin
            exact parse_chunk_ne hdata hatob hjoin

theorem accept_payload {wire : ProtocolEnvelope} {s' : RuntimeEventStream} {item : Option Item}
    {event : Event}
    (h : s.accept wire = .ok (s', item)) (hevent : event ∈ events item.toList) :
    ∃ pending envelope, assemble s.pending wire = .ok (pending, some envelope) ∧
        event.payload = envelope.payload := by
  unfold accept at h
  split at h
  · cases h
  · next s₁ hwire =>
    have hsame : s₁.pending = s.pending := by
      unfold checkWire at hwire
      split at hwire
      · split_ifs at hwire
        cases hwire
        rfl
      · cases hwire
        rfl
    split at h
    · cases h
    · cases h
      cases hevent
    · next pending envelope hassemble =>
      cases h
      refine ⟨pending, envelope, hsame ▸ hassemble, ?_⟩
      simp only at hevent
      split at hevent
      · obtain rfl : event = _ := by simpa [events] using hevent
        rfl
      · simp [events] at hevent

theorem events_singleton {f : Frame} (h : CarriesAll r n [f] ws) :
    (events (s.run ws).2.1).length ≤ 1 ∧
    (ChunkShaped (received f.2) → s.pending (Str.units r) = none →
      ∀ event ∈ events (s.run ws).2.1, event.payload ≠ received f.2) := by
  obtain ⟨w, ws', rfl, hw, hnil⟩ := CarriesAll.cons_iff.1 h
  cases hnil
  cases haccept : s.accept w with
  | error error =>
    rw [run_of_error haccept]
    exact ⟨Nat.zero_le 1, fun _ _ event hevent => by cases hevent⟩
  | ok p =>
    obtain ⟨s', item⟩ := p
    have hevents : events (s.run [w]).2.1 = events item.toList := by
      rw [run_of_ok haccept]
      simp [run]
    rw [hevents]
    refine ⟨(events_accept haccept).1, ?_⟩
    intro hshape hpending event hevent
    obtain ⟨pending, envelope, hassemble, hpayload⟩ := accept_payload haccept hevent
    rw [hpayload, ← hw.payload]
    refine assemble_shaped ?_ ?_ hassemble
    · rwa [hw.payload]
    · rwa [hw.requestId, Option.getD_some]

/-- Chunks before the last give no event, so a payload gives at most one. -/
theorem events_chunks {operation : Str} {chunks : List FrameChunk}
    (hchunks : ∀ i (h : i < chunks.length), chunks[i].index + chunks.length = i + chunks[i].total)
    (hbytes : ∀ chunk ∈ chunks, ∀ b ∈ chunk.data, b < 256)
    (h : CarriesAll r n (chunks.map fun chunk => (operation, chunk.payload)) ws) :
        (events (s.run ws).2.1).length ≤ 1 := by
  induction chunks generalizing s n ws with
  | nil =>
    cases h
    exact Nat.zero_le 1
  | cons chunk chunks ih =>
    rw [List.map_cons] at h
    by_cases hlast : chunks = []
    · subst hlast
      exact (events_singleton h).1
    · obtain ⟨w, ws', rfl, hw, hws⟩ := CarriesAll.cons_iff.1 h
      have hpos := List.length_pos_iff.2 hlast
      have hindex := hchunks 0 (by simp)
      simp only [List.getElem_cons_zero, List.length_cons] at hindex
      cases haccept : s.accept w with
      | error error =>
        rw [run_of_error haccept]
        exact Nat.zero_le 1
      | ok p =>
        obtain ⟨s', item⟩ := p
        have hnone :=
          events_accept_chunk hw.payload (by omega) (hbytes chunk List.mem_cons_self) haccept
        subst hnone
        rw [run_of_ok haccept]
        refine ih ?_ (fun c hc => hbytes c (List.mem_cons_of_mem _ hc)) hws
        intro i hi
        have hnext := hchunks (i + 1) (by simpa using hi)
        simp only [List.getElem_cons_succ, List.length_cons] at hnext
        omega

theorem events_event (h : CarriesAll r n ((framePayloads e.2).map (e.1, ·)) ws)
    (hascii : ∀ b ∈ encodePayload e.2, b < 0x80) :
    (events (s.run ws).2.1).length ≤ 1 := by
  rcases framePayloads_cases e.2 with hone | ⟨hchunks, _, _⟩
  · rw [hone] at h
    exact (events_singleton h).1
  · have hwhole : Whole (chunkPayload (encodePayload e.2) eventChunkBytes) :=
      whole_chunkPayload fun b hb => (hascii b hb).trans (by decide)
    rw [hchunks, List.map_map] at h
    generalize chunkPayload (encodePayload e.2) eventChunkBytes = chunks at *
    refine events_chunks ?_ hwhole.bytes h
    intro i hi
    rw [hwhole.index i hi, hwhole.total _ (List.getElem_mem hi)]

/-! ## The whole stream -/

theorem CarriesAll.frames_cons {backend : List (Str × KiroCrew.Fields)}
    (h : CarriesAll r n (frames (e :: backend)) ws) :
    ∃ u v, ws = u ++ v ∧ CarriesAll r n ((framePayloads e.2).map (e.1, ·)) u ∧
      CarriesAll r (n + (framePayloads e.2).length) (frames backend) v := by
  rw [KiroCrew.frames_cons] at h
  obtain ⟨u, v, hws, hu, hv⟩ := CarriesAll.append h
  rw [List.length_map] at hv
  exact ⟨u, v, hws, hu, hv⟩

theorem uncounted_of_not_runtime {payloads : List KiroCrew.Fields}
    (h : CarriesAll r n (payloads.map (e.1, ·)) ws)
    (hop : ¬ Runtime e.1) : ∀ w ∈ ws, counted w = none := by
  induction payloads generalizing n ws with
  | nil =>
    cases h
    simp
  | cons p payloads ih =>
    obtain ⟨w, ws', rfl, hw, hws⟩ := CarriesAll.cons_iff.1 h
    exact List.forall_mem_cons.2 ⟨counted_of_not_runtime hw hop, ih hws⟩

theorem runtimeEvents_eq_nil {k : ℕ} {backend : List (Str × KiroCrew.Fields)} :
    runtimeEvents r k backend = [] ↔ ∀ e ∈ backend, ¬ Runtime e.1 := by
  induction backend generalizing k with
  | nil => simp [runtimeEvents]
  | cons e backend ih =>
    rw [List.forall_mem_cons]
    by_cases hop : Runtime e.1
    · simp [runtimeEvents, hop]
    · rw [runtimeEvents, if_neg hop, ih]
      exact (and_iff_right hop).symm

theorem uncounted_frames {backend : List (Str × KiroCrew.Fields)}
    (hall : ∀ e ∈ backend, ¬ Runtime e.1)
    (h : CarriesAll r n (frames backend) ws) : ∀ w ∈ ws, counted w = none := by
  induction backend generalizing n ws with
  | nil =>
    cases h
    simp
  | cons e backend ih =>
    obtain ⟨hop, hbackend⟩ := List.forall_mem_cons.1 hall
    obtain ⟨u, v, rfl, hu, hv⟩ := CarriesAll.frames_cons h
    exact List.forall_mem_append.2 ⟨uncounted_of_not_runtime hu hop, ih hbackend hv⟩

theorem length_events_le {backend : List (Str × KiroCrew.Fields)}
    (hascii : ∀ e ∈ backend, ∀ b ∈ encodePayload e.2, b < 0x80)
    (h : CarriesAll r n (frames backend) ws) (k : ℕ) : (events (s.run ws).2.1).length ≤
    (runtimeEvents r k backend).length := by
  induction backend generalizing s n ws k with
  | nil =>
    cases h
    exact Nat.zero_le _
  | cons e backend ih =>
    obtain ⟨he, hbackend⟩ := List.forall_mem_cons.1 hascii
    obtain ⟨u, v, rfl, hu, hv⟩ := CarriesAll.frames_cons h
    rw [events_run_append, List.length_append]
    have hrest : ∀ k, (if (s.run u).2.2.isSome then [] else events ((s.run u).1.run v).2.1).length ≤
        (runtimeEvents r k backend).length := by
      intro k
      split_ifs
      · exact Nat.zero_le _
      · exact ih hbackend hv k
    by_cases hop : Runtime e.1
    · have hone : (events (s.run u).2.1).length ≤ 1 := events_event hu he
      rw [runtimeEvents, if_pos hop, List.length_cons]
      exact (Nat.add_le_add hone (hrest (k + 1))).trans_eq (Nat.add_comm 1 _)
    · rw [runtimeEvents, if_neg hop, (run_uncounted (uncounted_of_not_runtime hu hop) s).1,
        List.length_nil, Nat.zero_add]
      exact hrest k

/-- What gives the event as its first one is readable. -/
theorem readable_of_events {rest : List Event}
    (h : CarriesAll r n ((framePayloads e.2).map (e.1, ·)) ws) (hop : Runtime e.1)
    (hascii : ∀ b ∈ encodePayload e.2, b < 0x80) (hclean : Clean s (Str.units r) n k)
    (hevents : events (s.run ws).2.1 = ⟨Str.units r, k, Str.units e.1, received e.2⟩ :: rest) :
        Readable e.2 := by
  rcases framePayloads_cases e.2 with hone | ⟨hchunks, hlength, hne⟩
  · rw [hone] at h
    rw [Readable, if_pos (by rw [hone]; rfl)]
    intro hshape
    have hother := (events_singleton (s := s) h).2 hshape hclean.pending
    rw [hevents] at hother
    exact hother _ List.mem_cons_self rfl
  · have hpos := length_framePayloads_pos e.2
    have hwhole : Whole (chunkPayload (encodePayload e.2) eventChunkBytes) :=
      whole_chunkPayload fun b hb => (hascii b hb).trans (by decide)
    have hjoin := join_chunks e.2
    rw [Readable, if_neg hne, hlength]
    rw [hchunks, List.map_map] at h
    rw [hlength] at hpos
    generalize chunkPayload (encodePayload e.2) eventChunkBytes = chunks at *
    have hcarries : CarriesAll r n (chunks.map fun chunk => (e.1, chunk.payload)) ws := h
    by_cases hcount : chunks.length < 2 ^ 53
    · refine ⟨hcount, ?_⟩
      have hall : Whole ([] ++ chunks) := by rwa [List.nil_append]
      have hcount' : ([] ++ chunks).length < 2 ^ 53 := by rwa [List.nil_append]
      have hopen : (s.pending (Str.units r)).getD [] = [] := by
        rw [hclean.pending]
        rfl
      have hrun := run_chunks hall hcount' (List.length_pos_iff.1 hpos) hop hcarries hclean.wire
        hopen hclean.logical
      rw [List.nil_append, hjoin] at hrun
      cases hparse : parseChunkedPayload (encodePayload e.2) with
      | error error =>
        rw [hparse] at hrun
        rw [hrun.1] at hevents
        cases hevents
      | ok payload =>
        rw [hparse] at hrun
        rw [hrun.2.1] at hevents
        cases hevents
        exact (parseChunkedPayload_ascii hascii).1 hparse
    · exfalso
      cases chunks with
      | nil => exact absurd hpos (Nat.lt_irrefl 0)
      | cons chunk chunks =>
        obtain ⟨w, ws', rfl, hw, _⟩ := CarriesAll.cons_iff.1 hcarries
        have hfirst : Whole ([] ++ chunk :: chunks) := hwhole
        obtain ⟨hindex, htotal, hbytes⟩ := hfirst.at
        have hchunk : frameChunkOf w.payload = .error invalidChunk := by
          rw [hw.payload, frameChunkOf_payload (by rw [hindex, htotal]; exact hpos) hbytes,
            if_neg (by rw [htotal]; exact hcount)]
        have hassemble : assemble s.pending w = .error invalidChunk := by
          unfold assemble
          rw [hchunk]
        rw [run_of_error (accept_refused hw hop hclean.wire hassemble)] at hevents
        cases hevents

/-- The induction: what the stream gives of a backend from where it stands. -/
theorem run_iff {backend : List (Str × KiroCrew.Fields)}
    (hascii : ∀ e ∈ backend, ∀ b ∈ encodePayload e.2, b < 0x80)
    (h : CarriesAll r n (frames backend) ws) (hclean : Clean s (Str.units r) n k) :
    ((s.run ws).2.2 ≠ some incomplete ∧ events (s.run ws).2.1 = runtimeEvents r k backend) ↔
      backend.Pairwise (fun e e' => Runtime e'.1 → Runtime e.1) ∧ ∀ e ∈ backend, Runtime e.1 →
      Readable e.2 := by
  induction backend generalizing s n k ws with
  | nil =>
    cases h
    simp [run, events, runtimeEvents]
  | cons e backend ih =>
    obtain ⟨he, hbackend⟩ := List.forall_mem_cons.1 hascii
    obtain ⟨u, v, rfl, hu, hv⟩ := CarriesAll.frames_cons h
    rw [List.pairwise_cons, List.forall_mem_cons]
    by_cases hop : Runtime e.1
    · rw [events_run_append, runtimeEvents, if_pos hop]
      constructor
      · rintro ⟨herror, hevents⟩
        have hone : (events (s.run u).2.1).length ≤ 1 := events_event hu he
        have hfirst : events (s.run u).2.1 ≠ [] := by
          intro hnone
          have hlength := congrArg List.length hevents
          have hle := length_events_le (s := (s.run u).1) hbackend hv (k + 1)
          rw [hnone, List.nil_append, List.length_cons] at hlength
          by_cases hsome : (s.run u).2.2.isSome
          · rw [if_pos hsome, List.length_nil] at hlength
            exact Nat.succ_ne_zero _ hlength.symm
          · rw [if_neg hsome] at hlength
            omega
        obtain ⟨event, hevent⟩ :=
          List.length_eq_one_iff.1 (Nat.le_antisymm hone (List.length_pos_iff.2 hfirst))
        rw [hevent, List.singleton_append, List.cons.injEq] at hevents
        obtain ⟨rfl, hrest⟩ := hevents
        have hreadable := readable_of_events hu hop he hclean hevent
        obtain ⟨hnone, _, hclean'⟩ := run_event hu hop he hreadable hclean
        rw [run_append, hnone] at herror
        rw [hnone] at hrest
        obtain ⟨horder, hall⟩ := (ih hbackend hv hclean').1 ⟨herror, hrest⟩
        exact ⟨⟨fun _ _ _ => hop, horder⟩, fun _ => hreadable, hall⟩
      · rintro ⟨⟨_, horder⟩, hreadable, hall⟩
        obtain ⟨hnone, hevents, hclean'⟩ := run_event hu hop he (hreadable hop) hclean
        obtain ⟨herror, hrest⟩ := (ih hbackend hv hclean').2 ⟨horder, hall⟩
        rw [run_append, hnone, hevents]
        refine ⟨herror, ?_⟩
        rw [Option.isSome_none, if_neg Bool.false_ne_true, hrest]
        rfl
    · obtain ⟨hnone, hwire, _⟩ := run_uncounted (uncounted_of_not_runtime hu hop) s
      -- the event takes a number that the stream does not count, and the next runtime event comes
      -- after a gap
      have hgap : ((s.run u).1.wire (Str.units r)).elim 0 (· + 1) < n +
          (framePayloads e.2).length := by
        have hpos := length_framePayloads_pos e.2
        rw [hwire, hclean.wire]
        omega
      have hevents : events (s.run (u ++ v)).2.1 = [] := by
        rw [events_run_append, hnone, events_of_gap hv hgap, ite_self, List.append_nil]
      rw [hevents, runtimeEvents, if_neg hop]
      by_cases hlater : ∃ e' ∈ backend, Runtime e'.1
      · have hne : runtimeEvents r k backend ≠ [] := by
          rw [Ne, runtimeEvents_eq_nil]
          exact fun hall => hlater.elim fun e' he' => hall e' he'.1 he'.2
        obtain ⟨e', hmem, hruntime⟩ := hlater
        constructor
        · rintro ⟨_, hnil⟩
          exact absurd hnil.symm hne
        · rintro ⟨⟨horder, _⟩, _⟩
          exact absurd (horder e' hmem hruntime) hop
      · have hall : ∀ e' ∈ backend, ¬ Runtime e'.1 := fun e' hmem hruntime =>
          hlater ⟨e', hmem, hruntime⟩
        have herror :=
          (run_uncounted (List.forall_mem_append.2
            ⟨uncounted_of_not_runtime hu hop, uncounted_frames hall hv⟩) s).2.2
        refine iff_of_true ⟨herror, (runtimeEvents_eq_nil.2 hall).symm⟩ ⟨⟨?_, ?_⟩, ?_, ?_⟩
        · exact fun e' hmem hruntime => absurd hruntime (hall e' hmem)
        · exact List.pairwise_of_forall_mem_list fun _ _ e' hmem hruntime =>
            absurd hruntime (hall e' hmem)
        · exact fun hruntime => absurd hruntime hop
        · exact fun e' hmem hruntime => absurd hruntime (hall e' hmem)

end RuntimeEventStream

/-- The shell takes all of a request's stream exactly when no runtime event comes after another
event and each runtime event's payload is readable. -/
theorem accepted_iff (a : Arrival) : a.Accepted ↔
    a.backend.Pairwise (fun e e' => Runtime e'.1 → Runtime e.1) ∧ ∀ e ∈ a.backend, Runtime e.1 →
    Readable e.2 :=
  RuntimeEventStream.run_iff a.ascii (carriesAll_of_arrives a.arrives) a.fresh

/-! ## A stop -/

/-- The events of `sandbox.prepare_stop`. -/
def stopEvents : List (Str × KiroCrew.Fields) :=
  [(Str.ofString "checkpoint.committed", [(Str.ofString "generation", .int 1)]),
    (Str.ofString "request.completed", [(Str.ofString "checkpointCommitted", .bool true)])]

def stopTime : Str := Str.ofString "2026-01-01T00:00:00Z"

def zeros : Str := List.replicate 26 48

def stopStamps : EventStamps := ⟨zeros, fun _ => stopTime, fun _ => zeros, by decide⟩

theorem stamped_stop : Stamped (fun text => decide (text = stopTime)) stopStamps zeros :=
  ⟨fun _ => stopStamps.ulid, stopStamps.ulid, fun _ =>
    decide_eq_true (show Str.units stopTime = stopTime by decide)⟩

theorem frames_stopEvents : frames stopEvents = stopEvents := by
  have hcommitted : framePayloads [(Str.ofString "generation", .int 1)] =
      [[(Str.ofString "generation", .int 1)]] :=
    framePayloads_of_le (by decide) (by decide)
  have hcompleted : framePayloads [(Str.ofString "checkpointCommitted", .bool true)] =
      [[(Str.ofString "checkpointCommitted", .bool true)]] :=
      framePayloads_of_le (by decide) (by decide)
  simp only [frames, stopEvents, List.flatMap_cons, List.flatMap_nil, hcommitted, hcompleted]
  rfl

theorem stop_refused : ¬ ∀ a : Arrival, a.Accepted := by
  intro h
  have hops : ∀ f ∈ frames stopEvents, Str.units f.1 ∈ operations := by
    rw [frames_stopEvents]
    decide
  have hlength : (frames stopEvents).length ≤ 2 ^ 53 := by
    rw [frames_stopEvents]
    decide
  have hascii : ∀ e ∈ stopEvents, ∀ b ∈ encodePayload e.2, b < 0x80 := by decide
  have hclean : Clean {} (Str.units zeros) 0 0 := ⟨rfl, rfl, rfl⟩
  obtain ⟨wires, harrives⟩ := exists_wires (acceptable_numbered stamped_stop hops hlength)
  have haccepted := h ⟨_, stopStamps, zeros, stopEvents, wires, {}, hascii, harrives, hclean⟩
  obtain ⟨horder, _⟩ :=
    (RuntimeEventStream.run_iff hascii (carriesAll_of_arrives harrives) hclean).1 haccepted
  exact absurd horder (by decide)

end KiroCrew.Shell
