import KiroCrew.Replay

/-!
# What the client of a new request hears

The backend gets up to `max_backend_attempts` attempts at a request; each yields events and
completes, fails transiently or raises an error. `_execute` retries after any transient failure and
answers from the buffer, which keeps the events of every attempt; `_stream_live` retries only while
nothing was sent, and does not catch `AdapterRequestError`. `heard_iff` says for each channel when
the client gets the events and the ending of one attempt.
-/

namespace KiroCrew

open Json (Value)

structure Attempt where
  events : List (Str × Fields)
  ending : Ending

def Ending.code : Ending → Option ErrorCode
  | .completed => none
  | .transient => some unavailable.code
  | .failed error => some error.code

namespace Execution

def emitAll (st : EventStamps) (b : EventBuffer) (x : Execution) (events : List (Str × Fields)) :
    EventBuffer × Execution :=
  events.foldl (fun (b, x) (operation, payload) => x.emit st b operation payload) (b, x)

/-- The attempts, up to the one that gives the answer. -/
def runAttempts (st : EventStamps) (maxAttempts : Nat) : EventBuffer → Execution → List Attempt →
    EventBuffer × Execution
  | b, x, [] => (b, x)
  | b, x, a :: rest =>
    let (b, x) := x.emitAll st b a.events
    let (b, x) := x.finish st maxAttempts b a.ending
    if x.answer.isSome then (b, x) else runAttempts st maxAttempts b x rest

end Execution

/-- A request that is new to the window and goes to the backend. -/
structure NewRequest extends Request where
  stamps : EventStamps
  buffer : EventBuffer
  fresh : Holds stamps requestId [] buffer
  executes : operation ≠ Str.ofString "chat.cancel"
  /-- what `_last_event_id` accepts -/
  accepted : channel ≠ .webSocket → ∃ n, lastEventId = some n ∧ -1 ≤ n

/-- The answer when the backend's attempts are `a` and then `rest`, as many as
`max_backend_attempts` allows. -/
def NewRequest.answer (q : NewRequest) (a : Attempt) (rest : List Attempt) : Option Answer :=
  (Execution.runAttempts q.stamps (rest.length + 1) q.buffer (Execution.start q.toRequest)
    (a :: rest)).2.answer

/-! ## The property -/

/-- What follows an attempt's events: nothing when it completed, otherwise one error event with its
code. -/
def Ending.ToldBy (ending : Ending) (tail : List Frame) : Prop :=
  match ending.code with
  | none => tail = []
  | some code => ∃ payload, tail = [(Str.ofString "error", payload)] ∧
      Value.get payload (Str.ofString "code") = some (.str (Str.ofString code.text))

/-- The answer is the events of the attempt in order and its ending, or its error alone. -/
def Attempt.ToldBy (a : Attempt) : Answer → Prop
  | .list events => a.ending = .completed ∧ events.map RuntimeEvent.frame = frames a.events
  | .error error => a.ending.code = some error.code
  | .frames events none => a.ending = .completed ∧ events.map RuntimeEvent.frame = frames a.events
  | .frames events (some code) => events = [] ∧ a.ending.code = some code
  | .stream events none => ∃ tail, events.map RuntimeEvent.frame = frames a.events ++ tail ∧
      a.ending.ToldBy tail
  | .stream _ (some _) => False

/-- How many of the first events the client says it has. -/
def Request.skipped (q : Request) : Nat := (q.lastEventId.getD (-1) + 1).toNat

/-- The attempt, before which `n` frames were appended, is followed by another one when there is one
left. -/
def Attempt.again (q : Request) (n : Nat) (a : Attempt) : Bool :=
  decide (a.ending = .transient) &&
    (decide (q.channel ≠ .stream) || decide (n + (frames a.events).length ≤ q.skipped))

/-- The attempts before the last one made, and the last one. -/
def attemptsMade (q : Request) (n : Nat) : Attempt → List Attempt → List Attempt × Attempt
  | a, [] => ([], a)
  | a, a' :: rest =>
    if a.again q n then
      let (earlier, last) := attemptsMade q (n + (frames a.events).length) a' rest
      (a :: earlier, last)
    else ([], a)

/-- The client hears the last attempt made, and nothing else. -/
def NewRequest.Heard (q : NewRequest) (a : Attempt) (rest : List Attempt) : Prop :=
  ∃ answer, q.answer a rest = some answer ∧ (attemptsMade q.toRequest 0 a rest).2.ToldBy answer

/-- What the buffer has dropped of `n` frames, or the client skips. -/
def Request.missing (q : Request) (n : Nat) : Nat := min (max (n - maxEvents) q.skipped) n

/-- From the buffer: of an attempt that completes the client misses nothing, and of the earlier ones
everything; over a WebSocket its events fit a frame. In a stream: the last attempt raises no
`AdapterRequestError`, the client skips none of it, and no event of it has more than 512 frames. -/
def NewRequest.Clear (q : NewRequest) (a : Attempt) (rest : List Attempt) : Prop :=
  let (earlier, last) := attemptsMade q.toRequest 0 a rest
  let first := frames (earlier.flatMap Attempt.events)
  let n := first.length + (frames last.events).length
  match q.channel with
  | .list => last.ending = .completed → q.missing n = first.length
  | .webSocket => last.ending = .completed → q.lastEventId ≠ none ∧ q.missing n = first.length ∧
      ∀ event ∈ (numbered q.stamps q.requestId (first ++ frames last.events)).drop first.length,
      event.fits q.stamps = true
  | .stream =>
    (∀ error, last.ending ≠ .failed error) ∧ (last.events = [] ∨ q.skipped ≤ first.length) ∧
      (last.ending = .transient → q.skipped ≤ n) ∧ ∀ e ∈ last.events,
      (framePayloads e.2).length ≤ maxEvents

theorem attemptsMade_of_last {q : Request} {n : Nat} {a : Attempt} (h : a.again q n = false)
    (rest : List Attempt) :
    attemptsMade q n a rest = ([], a) := by
  cases rest <;> simp [attemptsMade, h]

theorem attemptsMade_of_again {q : Request} {n : Nat} {a a' : Attempt} (h : a.again q n = true)
    (rest : List Attempt) :
    attemptsMade q n a (a' :: rest) =
      (a :: (attemptsMade q (n + (frames a.events).length) a' rest).1,
      (attemptsMade q (n + (frames a.events).length) a' rest).2) := by
  simp [attemptsMade, h]

/-! ## The buffered channels -/

namespace Execution

theorem emitAll_buffered (st : EventStamps) (b : EventBuffer) (x : Execution)
    (hchannel : x.request.channel ≠ .stream) (events : List (Str × Fields)) :
    x.emitAll st b events =
      (b.appendEvents st x.request.requestId events,
      { x with appended := x.appended ++ frames events }) := by
  induction events generalizing b x with
  | nil => simp [emitAll, EventBuffer.appendEvents, frames]
  | cons e events ih =>
    have hemit : x.emit st b e.1 e.2 = (b.appendPayload st x.request.requestId e.1 e.2,
        { x with appended := x.appended ++ (framePayloads e.2).map (e.1, ·) }) := by
      unfold emit
      cases hc : x.request.channel with
      | stream => exact absurd hc hchannel
      | list => simp [hc]
      | webSocket => simp [hc]
    show emitAll st (x.emit st b e.1 e.2).1 (x.emit st b e.1 e.2).2 events = _
    rw [hemit]
    dsimp only
    rw [ih _ _ (by exact hchannel)]
    simp [EventBuffer.appendEvents, frames]

/-- The answer of a buffered channel after the last attempt. -/
def lastAnswer (st : EventStamps) (b : EventBuffer) (x : Execution) : Ending → Answer
  | .completed => x.finished st b
  | .failed error => x.raised error
  | .transient => x.raised unavailable

theorem finish_transient_buffered (st : EventStamps) (maxAttempts : Nat) (b : EventBuffer)
    (x : Execution)
    (hchannel : x.request.channel ≠ .stream) : x.finish st maxAttempts b .transient =
      if x.attempt + 1 = maxAttempts then
        (b, { x with attempt := x.attempt + 1, answer := some (x.raised unavailable) })
      else (b, { x with attempt := x.attempt + 1 }) := by
  unfold finish
  cases hc : x.request.channel with
  | stream => exact absurd hc hchannel
  | list => simp [raised, hc]
  | webSocket => simp [raised, hc]

/-- The buffered channels: the buffer has the frames of every attempt made, the answer is that of
the last. -/
theorem runAttempts_buffered (st : EventStamps) (maxAttempts : Nat) (b : EventBuffer)
    (x : Execution)
    (hchannel : x.request.channel ≠ .stream) (a : Attempt) (rest : List Attempt)
    (hnone : x.answer = none) (hmax : x.attempt + rest.length + 1 = maxAttempts)
      (hb : Holds st x.request.requestId x.appended b) :
    ∃ b', Holds st x.request.requestId (x.appended ++
        (frames ((attemptsMade x.request x.appended.length a rest).1.flatMap Attempt.events) ++
          frames (attemptsMade x.request x.appended.length a rest).2.events)) b' ∧
      (runAttempts st maxAttempts b x (a :: rest)).2.answer =
        some (x.lastAnswer st b' (attemptsMade x.request x.appended.length a rest).2.ending) := by
  have hemit := emitAll_buffered st b x hchannel a.events
  have hevents := hb.appendEvents a.events
  cases hending : a.ending with
  | completed =>
    have hlast : a.again x.request x.appended.length = false := by simp [Attempt.again, hending]
    rw [attemptsMade_of_last hlast]
    refine ⟨_, by simpa using hevents, ?_⟩
    simp only [runAttempts, hemit, hending, finish, lastAnswer, Option.isSome_some, if_true]
    rfl
  | failed error =>
    have hlast : a.again x.request x.appended.length = false := by simp [Attempt.again, hending]
    rw [attemptsMade_of_last hlast]
    refine ⟨_, by simpa using hevents, ?_⟩
    simp only [runAttempts, hemit, hending, finish, lastAnswer, Option.isSome_some, if_true]
    rfl
  | transient =>
    have hagain : a.again x.request x.appended.length = true := by
      simp [Attempt.again, hending, hchannel]
    have hfinish := fun b x h => finish_transient_buffered st maxAttempts b x h
    cases rest with
    | nil =>
      have hexhausted : x.attempt + 1 = maxAttempts := by simpa using hmax
      refine ⟨_, by simpa [attemptsMade] using hevents, ?_⟩
      simp only [runAttempts, hemit, hending]
      rw [hfinish _ _ (by exact hchannel), if_pos hexhausted]
      simp only [attemptsMade, hending, lastAnswer, Option.isSome_some, if_true]
      rfl
    | cons a' rest =>
      have hleft : x.attempt + 1 ≠ maxAttempts := by
        simp only [List.length_cons] at hmax
        omega
      obtain ⟨b', hb', hanswer⟩ := runAttempts_buffered st maxAttempts _
        { x with appended := x.appended ++ frames a.events, attempt := x.attempt + 1 } hchannel
          a' rest hnone
        (by simp only [List.length_cons] at hmax; dsimp only; omega) hevents
      rw [attemptsMade_of_again hagain]
      refine ⟨b', ?_, ?_⟩
      · simpa [frames_append, List.length_append, List.append_assoc] using hb'
      · rw [runAttempts, hemit, hending]
        dsimp only
        rw [hfinish _ _ (by exact hchannel), if_neg hleft]
        dsimp only
        rw [hnone, Option.isSome_none, if_neg (by decide)]
        rw [hnone, List.length_append] at hanswer
        refine hanswer.trans ?_
        cases (attemptsMade x.request (x.appended.length + (frames a.events).length) a'
          rest).2.ending <;> rfl

/-! ## The stream -/

/-- A stream's cursor is at the last event appended, or where the client starts. -/
structure Relays (st : EventStamps) (b : EventBuffer) (x : Execution) : Prop where
  channel : x.request.channel = .stream
  accepted : ∃ n, x.request.lastEventId = some n ∧ -1 ≤ n
  holds : Holds st x.request.requestId x.appended b
  cursor : x.cursor = (max x.request.skipped x.appended.length : ℕ) - 1

/-- Of the `n`th and later frames, what a stream sends after the frames `fs` of one event came to
`n` others: what the client does not skip, as far as the buffer has it. -/
def relayed (skipped : Nat) (n : Nat) (fs : List Frame) : List Frame :=
  fs.drop (max (fs.length - maxEvents) (skipped - n))

/-- What a stream sends of events that follow `n` frames. -/
def relayedAll (skipped : Nat) : Nat → List (Str × Fields) → List Frame
  | _, [] => []
  | n, e :: events =>
    let fs := (framePayloads e.2).map (e.1, ·)
    relayed skipped n fs ++ relayedAll skipped (n + fs.length) events

theorem relayed_eq_nil {skipped n : Nat} {fs : List Frame} (h : n + fs.length ≤ skipped) :
    relayed skipped n fs = [] := by
  rw [relayed, List.drop_eq_nil_of_le]
  omega

theorem relayedAll_eq_nil {skipped n : Nat} {events : List (Str × Fields)}
    (h : n + (frames events).length ≤ skipped) :
    relayedAll skipped n events = [] := by
  induction events generalizing n with
  | nil => rfl
  | cons e events ih =>
    rw [frames_cons, List.length_append] at h
    rw [relayedAll, relayed_eq_nil (by omega), List.nil_append, ih (by omega)]

theorem length_relayed_le (skipped n : Nat) (fs : List Frame) : (relayed skipped n fs).length ≤
    fs.length := by
  rw [relayed, List.length_drop]
  exact Nat.sub_le _ _

theorem relayed_eq_self_iff {skipped n : Nat} {fs : List Frame} (h : fs ≠ []) :
    relayed skipped n fs = fs ↔ skipped ≤ n ∧ fs.length ≤ maxEvents := by
  have hpos := List.length_pos_iff.2 h
  constructor
  · intro heq
    have hlength := congrArg List.length heq
    rw [relayed, List.length_drop] at hlength
    omega
  · rintro ⟨hskipped, hsize⟩
    have hzero : max (fs.length - maxEvents) (skipped - n) = 0 := by omega
    rw [relayed, hzero, List.drop_zero]

theorem length_relayedAll_le (skipped n : Nat) (events : List (Str × Fields)) :
    (relayedAll skipped n events).length ≤ (frames events).length := by
  induction events generalizing n with
  | nil => exact Nat.le_refl _
  | cons e events ih =>
    rw [relayedAll, frames_cons, List.length_append, List.length_append]
    exact Nat.add_le_add (length_relayed_le _ _ _) (ih _)

theorem relayedAll_eq_iff {skipped n : Nat} {events : List (Str × Fields)} :
    relayedAll skipped n events = frames events ↔
    (events = [] ∨ skipped ≤ n) ∧ ∀ e ∈ events, (framePayloads e.2).length ≤ maxEvents := by
  induction events generalizing n with
  | nil => simp [relayedAll]
  | cons e events ih =>
    have hne : (framePayloads e.2).map (e.1, ·) ≠ [] := by
      rw [Ne, List.map_eq_nil_iff]
      exact framePayloads_ne_nil e.2
    have hsplit : relayedAll skipped n (e :: events) = frames (e :: events) ↔
        relayed skipped n ((framePayloads e.2).map (e.1, ·)) = (framePayloads e.2).map (e.1, ·) ∧
          relayedAll skipped (n + ((framePayloads e.2).map (e.1, ·)).length) events =
          frames events := by
      rw [relayedAll, frames_cons]
      constructor
      · intro heq
        have hlength := congrArg List.length heq
        have hfirst := length_relayed_le skipped n ((framePayloads e.2).map (e.1, ·))
        have hrest :=
          length_relayedAll_le skipped (n + ((framePayloads e.2).map (e.1, ·)).length) events
        rw [List.length_append, List.length_append] at hlength
        exact List.append_inj heq (by omega)
      · rintro ⟨hfirst, hrest⟩
        rw [hfirst, hrest]
    rw [hsplit, relayed_eq_self_iff hne, ih, List.length_map, List.forall_mem_cons]
    constructor
    · rintro ⟨⟨hskipped, hsize⟩, _, hsizes⟩
      exact ⟨Or.inr hskipped, hsize, hsizes⟩
    · rintro ⟨hskipped, hsize, hsizes⟩
      have hle : skipped ≤ n := hskipped.resolve_left (by simp)
      exact ⟨⟨hle, hsize⟩, Or.inr (by omega), hsizes⟩

theorem Relays.resume {st : EventStamps} {b : EventBuffer} {x : Execution} (h : Relays st b x) :
    x.request.lastEventId.getD (-1) = (x.request.skipped : ℤ) - 1 := by
  obtain ⟨n, hn, hle⟩ := h.accepted
  simp only [Request.skipped, hn, Option.getD_some]
  omega

theorem cursor_drop_numbered (st : EventStamps) (r : Str) (fs : List Frame) (m : Nat) (cursor : ℤ) :
    ((((numbered st r fs).drop m).getLast?.map fun event => (event.eventId : ℤ)).getD cursor) =
      if m < fs.length then (fs.length : ℤ) - 1 else cursor := by
  have hlength : (numbered st r fs).length = fs.length := length_numbered st r fs
  split_ifs with hlt
  · have hpos : fs.length - 1 < (numbered st r fs).length := by omega
    have hcast : ((fs.length - 1 : ℕ) : ℤ) = (fs.length : ℤ) - 1 := by omega
    rw [List.getLast?_drop, if_neg (by omega), List.getLast?_eq_getElem?, hlength,
      List.getElem?_eq_getElem hpos,
      Option.map_some, Holds.eventId_numbered, hcast, Option.getD_some]
  · rw [List.drop_eq_nil_of_le (by omega), List.getLast?_nil, Option.map_none, Option.getD_none]

/-- One event of the backend: what the stream sends of it. -/
theorem emit_stream {st : EventStamps} {b : EventBuffer} {x : Execution} (h : Relays st b x)
    (operation : Str) (payload : Fields) :
    ∃ news, news = (numbered st x.request.requestId
      (x.appended ++ (framePayloads payload).map (operation, ·))).drop
        (x.appended.length + max ((framePayloads payload).length - maxEvents)
          (x.request.skipped - x.appended.length)) ∧
      news.map RuntimeEvent.frame =
        relayed x.request.skipped x.appended.length ((framePayloads payload).map (operation, ·)) ∧
      x.emit st b operation payload =
        (b.appendPayload st x.request.requestId operation payload, { x with
        sent := x.sent ++ news
        cursor :=
          (max x.request.skipped (x.appended ++ (framePayloads payload).map
            (operation, ·)).length : ℕ) - 1
        appended := x.appended ++ (framePayloads payload).map (operation, ·) }) := by
  have hafter := (h.holds.appendPayload operation payload).after_eq x.cursor
  have hpos : 0 < ((framePayloads payload).map (operation, ·)).length := by
    rw [List.length_map]
    exact List.length_pos_iff.2 (framePayloads_ne_nil payload)
  have hcount : (framePayloads payload).length =
    ((framePayloads payload).map (operation, ·)).length := by rw [List.length_map]
  rw [hcount]
  generalize hfs : (framePayloads payload).map (operation, ·) = fs at *
  have hcursor := h.cursor
  -- the events that are new to the client
  have hindex : max ((x.appended ++ fs).length - maxEvents) (x.cursor + 1).toNat =
      x.appended.length + max (fs.length - maxEvents) (x.request.skipped - x.appended.length) := by
    rw [List.length_append, hcursor]
    omega
  rw [hindex] at hafter
  refine ⟨(numbered st x.request.requestId (x.appended ++ fs)).drop
    (x.appended.length + max (fs.length - maxEvents) (x.request.skipped - x.appended.length)),
      rfl, ?_, ?_⟩
  · rw [List.map_drop, map_frame_numbered, ← List.drop_drop, List.drop_left]
    rfl
  · have hnext : (if x.appended.length + max (fs.length - maxEvents)
      (x.request.skipped - x.appended.length) < (x.appended ++ fs).length
        then ((x.appended ++ fs).length : ℤ) - 1 else x.cursor) =
            (max x.request.skipped (x.appended ++ fs).length : ℕ) - 1 := by
      have hmax : 0 < maxEvents := by decide
      rw [List.length_append, hcursor]
      split_ifs <;> omega
    unfold emit
    simp only [h.channel, hfs, hafter, cursor_drop_numbered, hnext]

theorem emitAll_stream {st : EventStamps} {b : EventBuffer} {x : Execution} (h : Relays st b x)
    (events : List (Str × Fields)) :
    Relays st (x.emitAll st b events).1 (x.emitAll st b events).2 ∧
      (x.emitAll st b events).2.sent.map RuntimeEvent.frame =
        x.sent.map RuntimeEvent.frame ++ relayedAll x.request.skipped x.appended.length events ∧
      (x.emitAll st b events).2.appended = x.appended ++ frames events ∧
      (x.emitAll st b events).2.request = x.request ∧
        (x.emitAll st b events).2.attempt = x.attempt ∧
      (x.emitAll st b events).2.answer = x.answer := by
  induction events generalizing b x with
  | nil => exact ⟨h, by simp [emitAll, relayedAll], by simp [emitAll], rfl, rfl, rfl⟩
  | cons e events ih =>
    obtain ⟨news, _, hnews, hemit⟩ := emit_stream h e.1 e.2
    have hstep : x.emitAll st b (e :: events) = (x.emit st b e.1 e.2).2.emitAll st
      (x.emit st b e.1 e.2).1 events := rfl
    rw [hstep, hemit]
    obtain ⟨hrelays, hsent, happended, hrequest, hattempt, hanswer⟩ :=
      ih (b := b.appendPayload st x.request.requestId e.1 e.2) (x := { x with
        sent := x.sent ++ news
        cursor :=
          (max x.request.skipped (x.appended ++ (framePayloads e.2).map (e.1, ·)).length : ℕ) - 1
        appended := x.appended ++ (framePayloads e.2).map (e.1, ·) })
      ⟨h.channel, h.accepted, h.holds.appendPayload e.1 e.2, rfl⟩
    refine ⟨hrelays, hsent.trans ?_, happended.trans ?_, hrequest, hattempt, hanswer⟩
    · rw [List.map_append, hnews, List.length_append, List.append_assoc]
      rfl
    · rw [frames_cons, List.append_assoc]

theorem framePayloads_unavailable (st : EventStamps) :
    framePayloads (unavailablePayload st.correlationId) =
    [unavailablePayload st.correlationId] := by
  obtain ⟨hlength, hchars⟩ := Bool.and_eq_true_iff.1 st.ulid
  have hid : Json.printStr st.correlationId = 34 :: st.correlationId ++ [34] := by
    rw [Json.printStr, Json.escape_printable]
    intro c hc
    have halphabet : ∀ c ∈ Str.ofString "0123456789ABCDEFGHJKMNPQRSTVWXYZ", 32 ≤ c ∧ c ≤ 126 ∧
      c ≠ 34 ∧ c ≠ 92 := by decide
    exact halphabet c (of_decide_eq_true (List.all_eq_true.1 hchars c hc))
  have hsort : Json.sortKeys (.obj (unavailablePayload st.correlationId)) =
      .obj [(Str.ofString "category", .str (Str.ofString "KIROCREW")),
        (Str.ofString "code", .str (Str.ofString "KIROCREW_UNAVAILABLE")),
        (Str.ofString "correlationId", .str st.correlationId),
        (Str.ofString "message",
          .str (Str.ofString "The runtime backend is temporarily unavailable.")),
        (Str.ofString "retryable", .bool true)] := rfl
  have hsize : (encodePayload (unavailablePayload st.correlationId)).length = 175 := by
    rw [encodePayload, hsort]
    simp only [Json.dumps, Json.dumpsFields, hid, List.length_cons, List.length_append,
      List.length_nil,
      of_decide_eq_true hlength]
    decide
  apply framePayloads_of_le
  · intro hnil
    simp [hnil] at hsize
  · rw [hsize]
    decide

/-- A transient failure after something was sent, or at the last attempt, ends the stream with an
error event that is sent unless the client skips it. -/
theorem finish_transient_stream {st : EventStamps} {b : EventBuffer} {x : Execution}
    (h : Relays st b x)
    {maxAttempts : Nat} (htell : x.request.skipped < x.appended.length ∨
    x.attempt + 1 = maxAttempts) :
    ∃ sent, (x.finish st maxAttempts b .transient).2.answer = some (.stream sent none) ∧
      sent.map RuntimeEvent.frame = x.sent.map RuntimeEvent.frame ++
        [(Str.ofString "error", unavailablePayload st.correlationId)].drop
          (x.request.skipped - x.appended.length) := by
  have hcond : x.request.lastEventId.getD (-1) < x.cursor ∨ x.attempt + 1 = maxAttempts := by
    rcases htell with hlt | hmax
    · left
      rw [h.resume, h.cursor]
      omega
    · exact Or.inr hmax
  have hnext : Relays st b { x with attempt := x.attempt + 1 } :=
    ⟨h.channel, h.accepted, h.holds, h.cursor⟩
  obtain ⟨news, _, hnews, hemit⟩ :=
    emit_stream hnext (Str.ofString "error") (unavailablePayload st.correlationId)
  refine ⟨x.sent ++ news, ?_, ?_⟩
  · unfold finish
    simp only [h.channel, if_pos hcond]
    rw [hemit]
    simp only [finished, h.channel]
  · have hone : (1 : Nat) - maxEvents = 0 := by decide
    rw [List.map_append, hnews, framePayloads_unavailable, List.map_singleton, relayed,
      List.length_singleton, hone, Nat.zero_max]

/-- What a stream has sent, and the exception that ends it, when the last attempt is `last` and `n`
frames came before. -/
def Streamed (st : EventStamps) (skipped n : Nat) (last : Attempt) (sent : List RuntimeEvent)
    (failure : Option ErrorCode) : Prop :=
  match last.ending with
  | .completed => failure = none ∧ sent.map RuntimeEvent.frame = relayedAll skipped n last.events
  | .failed error => failure = some error.code
  | .transient => failure = none ∧ sent.map RuntimeEvent.frame = relayedAll skipped n last.events ++
      [(Str.ofString "error", unavailablePayload st.correlationId)].drop
      (skipped - (n + (frames last.events).length))

/-- The stream: only the last attempt made has sent anything. -/
theorem runAttempts_stream (st : EventStamps) (maxAttempts : Nat) (b : EventBuffer) (x : Execution)
    (h : Relays st b x)
    (hsilent : x.sent = []) (hnone : x.answer = none)
    (a : Attempt) (rest : List Attempt) (hmax : x.attempt + rest.length + 1 = maxAttempts) :
    ∃ sent failure, (runAttempts st maxAttempts b x (a :: rest)).2.answer =
      some (.stream sent failure) ∧
      Streamed st x.request.skipped
        (x.appended.length + (frames
          ((attemptsMade x.request x.appended.length a rest).1.flatMap Attempt.events)).length)
        (attemptsMade x.request x.appended.length a rest).2 sent failure := by
  obtain ⟨hrelays, hsent, happended, hrequest, hattempt, hanswer⟩ := emitAll_stream h a.events
  rw [hsilent, List.map_nil, List.nil_append] at hsent
  cases hending : a.ending with
  | completed =>
    have hlast : a.again x.request x.appended.length = false := by simp [Attempt.again, hending]
    rw [attemptsMade_of_last hlast]
    refine ⟨(x.emitAll st b a.events).2.sent, none, ?_, ?_⟩
    · simp only [runAttempts, hending, finish, finished, hrelays.channel,
        Option.isSome_some, if_true]
    · simp only [Streamed, hending]
      exact ⟨trivial, hsent⟩
  | failed error =>
    have hlast : a.again x.request x.appended.length = false := by simp [Attempt.again, hending]
    rw [attemptsMade_of_last hlast]
    refine ⟨(x.emitAll st b a.events).2.sent, some error.code, ?_, ?_⟩
    · simp only [runAttempts, hending, finish, raised, hrelays.channel, Option.isSome_some, if_true]
    · simp only [Streamed, hending]
  | transient =>
    by_cases htell : x.request.skipped < x.appended.length + (frames a.events).length ∨ rest = []
    · -- the error event is the last one
      have hlast : attemptsMade x.request x.appended.length a rest = ([], a) := by
        rcases htell with hlt | rfl
        · exact attemptsMade_of_last (by simp [Attempt.again, h.channel, hlt]) rest
        · rfl
      have hcond : (x.emitAll st b a.events).2.request.skipped <
        (x.emitAll st b a.events).2.appended.length ∨
          (x.emitAll st b a.events).2.attempt + 1 = maxAttempts := by
        rcases htell with hlt | rfl
        · left
          rwa [hrequest, happended, List.length_append]
        · right
          simpa [hattempt] using hmax
      obtain ⟨sent, htold, htail⟩ := finish_transient_stream hrelays hcond
      rw [hlast]
      refine ⟨sent, none, ?_, ?_⟩
      · simp only [runAttempts, hending, htold, Option.isSome_some, if_true]
      · simp only [Streamed, hending]
        rw [htail, hsent, hrequest, happended, List.length_append]
        exact ⟨trivial, rfl⟩
    · -- nothing was sent: the next attempt starts with the cursor where it was
      obtain ⟨hle, hmore⟩ := not_or.1 htell
      rw [Nat.not_lt] at hle
      cases rest with
      | nil => exact absurd rfl hmore
      | cons a' rest =>
        have hagain : a.again x.request x.appended.length = true := by
          simp [Attempt.again, hending, hle]
        have hstill : (x.emitAll st b a.events).2.sent = [] := by
          rw [relayedAll_eq_nil hle] at hsent
          exact List.map_eq_nil_iff.1 hsent
        have hleft : x.attempt + 1 ≠ maxAttempts := by
          simp only [List.length_cons] at hmax
          omega
        have hcond : ¬ ((x.emitAll st b a.events).2.request.lastEventId.getD (-1) <
          (x.emitAll st b a.events).2.cursor ∨
            (x.emitAll st b a.events).2.attempt + 1 = maxAttempts) := by
          rw [hrelays.resume, hrelays.cursor, hattempt, hrequest, happended, List.length_append]
          omega
        obtain ⟨sent, failure, hrest, hstreamed⟩ :=
          runAttempts_stream st maxAttempts (x.emitAll st b a.events).1
          { (x.emitAll st b a.events).2 with attempt := (x.emitAll st b a.events).2.attempt + 1 }
          ⟨hrelays.channel, hrelays.accepted, hrelays.holds, hrelays.cursor⟩ hstill
            (hanswer.trans hnone) a' rest
          (by simp only [List.length_cons] at hmax; dsimp only; omega)
        dsimp only at hstreamed
        rw [hrequest, happended, List.length_append] at hstreamed
        rw [attemptsMade_of_again hagain]
        refine ⟨sent, failure, ?_, ?_⟩
        · rw [runAttempts, hending]
          unfold finish
          simp only [hrelays.channel, if_neg hcond, hanswer, hnone, Option.isSome_none,
            if_neg (by decide : ¬ false = true)]
          simp only [hanswer, hnone] at hrest
          exact hrest
        · rw [List.flatMap_cons, frames_append, List.length_append, ← Nat.add_assoc]
          exact hstreamed

end Execution

/-! ## The attempts as a run of the adapter -/

namespace Adapter

open Machine (Reaches Any)

variable {δ : Type} {sha : Str → δ} {stamps : Str → EventStamps} {maxAttempts : Nat} {s : Adapter δ}
    {r : Str} {x : Execution}

theorem executing_eq_some (hx : s.executions.get? r = some x) (hnone : x.answer = none)
    (hoperation : x.request.operation ≠ Str.ofString "chat.cancel") : s.executing r = some x := by
  simp [executing, pending, hx, hnone, hoperation]

theorem emit_answer (st : EventStamps) (b : EventBuffer) (x : Execution) (operation : Str)
    (payload : Fields) :
    (x.emit st b operation payload).2.answer = x.answer := by
  unfold Execution.emit
  cases hc : x.request.channel <;> simp only [hc]

variable [DecidableEq δ]

theorem reaches_emitAll (hx : s.executions.get? r = some x) (hnone : x.answer = none)
    (hoperation : x.request.operation ≠ Str.ofString "chat.cancel") (events : List (Str × Fields)) :
    ∃ s', Reaches (step sha stamps maxAttempts) Any s s' ∧
      s'.buffer = (x.emitAll (stamps r) s.buffer events).1 ∧
      s'.executions.get? r = some (x.emitAll (stamps r) s.buffer events).2 ∧
      (x.emitAll (stamps r) s.buffer events).2.request = x.request ∧
      (x.emitAll (stamps r) s.buffer events).2.answer = none := by
  induction events generalizing s x with
  | nil => exact ⟨s, .refl, rfl, hx, rfl, hnone⟩
  | cons e events ih =>
    have hstep : step sha stamps maxAttempts s (.emit r e.1 e.2) =
        some (s.put r (x.emit (stamps r) s.buffer e.1 e.2)) := by
      rw [step, executing_eq_some hx hnone hoperation, Option.map_some]
    have hrequest : (x.emit (stamps r) s.buffer e.1 e.2).2.request = x.request :=
      (Execution.emit_advance e.1 e.2).request
    obtain ⟨s', hreach, hbuffer, hexecution, hsame, hanswer⟩ :=
      ih (s := s.put r (x.emit (stamps r) s.buffer e.1 e.2))
      (Dict.get?_set_self _ _ _) (by rw [emit_answer, hnone]) (by rw [hrequest]; exact hoperation)
    exact ⟨s', (Reaches.single trivial hstep).trans hreach, hbuffer, hexecution,
      hsame.trans hrequest, hanswer⟩

theorem reaches_runAttempts (hx : s.executions.get? r = some x) (hnone : x.answer = none)
    (hoperation : x.request.operation ≠ Str.ofString "chat.cancel") (attempts : List Attempt) :
    ∃ s', Reaches (step sha stamps maxAttempts) Any s s' ∧
      s'.buffer = (x.runAttempts (stamps r) maxAttempts s.buffer attempts).1 ∧
      s'.executions.get? r = some (x.runAttempts (stamps r) maxAttempts s.buffer attempts).2 := by
  induction attempts generalizing s x with
  | nil => exact ⟨s, .refl, rfl, hx⟩
  | cons a rest ih =>
    obtain ⟨s₁, (hreach : Reaches (step sha stamps maxAttempts) Any s s₁), hbuffer, hexecution,
        hrequest, hopen⟩ :=
      reaches_emitAll hx hnone hoperation a.events
    rw [Execution.runAttempts]
    generalize x.emitAll (stamps r) s.buffer a.events = next at *
    obtain ⟨b₁, x₁⟩ := next
    dsimp only at hbuffer hexecution hrequest hopen ⊢
    have hstep : step sha stamps maxAttempts s₁ (.finish r a.ending) =
        some (s₁.put r (x₁.finish (stamps r) maxAttempts s₁.buffer a.ending)) := by
      rw [step, executing_eq_some hexecution hopen (by rw [hrequest]; exact hoperation),
        Option.map_some]
    have hfinish : (x₁.finish (stamps r) maxAttempts s₁.buffer a.ending).2.request = x₁.request :=
      (Execution.finish_advance maxAttempts a.ending).request
    rw [hbuffer] at hstep hfinish
    generalize x₁.finish (stamps r) maxAttempts b₁ a.ending = next at *
    have hreach' := hreach.trans (Reaches.single trivial hstep)
    split_ifs with hdone
    · exact ⟨s₁.put r next, hreach', rfl, Dict.get?_set_self _ _ _⟩
    · obtain ⟨s', hrest, hend⟩ :=
        ih (s := s₁.put r next) (Dict.get?_set_self _ _ _) (by simpa using hdone)
        (by rw [hfinish, hrequest]; exact hoperation)
      exact ⟨s', hreach'.trans hrest, hend⟩

end Adapter

section

variable {δ : Type} [DecidableEq δ] {sha : Str → δ} {stamps : Str → EventStamps} {maxAttempts : Nat}
    {s : Adapter δ} {q : Request}

def Adapter.newRequest (hreach : Machine.Reaches (Adapter.step sha stamps maxAttempts) Machine.Any
    {} s)
    (hnew : s.digests.get? q.requestId = none)
    (hexecutes : q.operation ≠ Str.ofString "chat.cancel")
    (haccepted : q.channel ≠ .webSocket → ∃ n, q.lastEventId = some n ∧ -1 ≤ n) : NewRequest where
  toRequest := q
  stamps := stamps q.requestId
  buffer := s.buffer
  fresh := (Adapter.fresh_of_reaches hreach hnew).2
  executes := hexecutes
  accepted := haccepted

/-- Its answer is the one of the run that goes on with the request and the attempts of the
backend. -/
theorem Adapter.newRequest_answer (a : Attempt) (rest : List Attempt)
    (hreach : Machine.Reaches (Adapter.step sha stamps (rest.length + 1)) Machine.Any {} s)
    (hnew : s.digests.get? q.requestId = none)
      (hexecutes : q.operation ≠ Str.ofString "chat.cancel")
    (haccepted : q.channel ≠ .webSocket → ∃ n, q.lastEventId = some n ∧ -1 ≤ n) :
    ∃ s' x, Machine.Reaches (Adapter.step sha stamps (rest.length + 1)) Machine.Any s s' ∧
      s'.executions.get? q.requestId = some x ∧
      x.answer = (Adapter.newRequest hreach hnew hexecutes haccepted).answer a rest := by
  have hrejection : Adapter.rejection q = none := by
    have hresume : ¬ (q.channel ≠ .webSocket ∧ q.lastEventId = none) := by
      rintro ⟨hchannel, hnone⟩
      obtain ⟨n, hn, _⟩ := haccepted hchannel
      rw [hnone] at hn
      cases hn
    rw [Adapter.rejection, if_neg hresume, if_neg fun h => hexecutes h.1]
  have harrive : (s.arrive sha stamps q).1 = _ := Adapter.arrive_of_new hnew
  rw [hrejection] at harrive
  have hstep : Adapter.step sha stamps (rest.length + 1) s (.arrive q) =
    some (s.arrive sha stamps q).1 := rfl
  obtain ⟨s', hrun, _, hexecution⟩ :=
    Adapter.reaches_runAttempts (s := (s.arrive sha stamps q).1) (r := q.requestId)
    (x := Execution.start q) (by rw [harrive]; exact Dict.get?_set_self _ _ _) rfl hexecutes
      (a :: rest)
  refine ⟨s', _, (Machine.Reaches.single trivial hstep).trans hrun, hexecution, ?_⟩
  rw [harrive]
  rfl

end

/-! ## When the client hears it -/

theorem drop_append_eq_right_iff {α : Type*} {first others : List α} {n : Nat}
    (h : n ≤ (first ++ others).length) :
    (first ++ others).drop n = others ↔ n = first.length := by
  constructor
  · intro heq
    have hlength := congrArg List.length heq
    rw [List.length_drop] at hlength
    rw [List.length_append] at h hlength
    omega
  · rintro rfl
    exact List.drop_left

theorem Request.missing_le (q : Request) (n : Nat) : q.missing n ≤ n := Nat.min_le_right _ _

theorem Holds.after_missing {st : EventStamps} {q : Request} {fs : List Frame} {b : EventBuffer}
    (h : Holds st q.requestId fs b) :
    b.after q.requestId (q.lastEventId.getD (-1)) = (numbered st q.requestId fs).drop
      (q.missing fs.length) := by
  rw [h.after_eq, Request.missing, Request.skipped]
  rcases Nat.le_total (max (fs.length - maxEvents) (q.lastEventId.getD (-1) + 1).toNat)
    fs.length with hle | hle
  · rw [Nat.min_eq_left hle]
  · have hlength : (numbered st q.requestId fs).length = fs.length :=
      length_numbered st q.requestId fs
    rw [Nat.min_eq_right hle, List.drop_eq_nil_of_le (by rwa [hlength]), List.drop_eq_nil_of_le
      (by rw [hlength])]

theorem Attempt.toldBy_sendEvents {a : Attempt} (h : a.ending = .completed) (st : EventStamps)
    (events : List RuntimeEvent) :
    a.ToldBy (.frames (sendEvents st events).1 (sendEvents st events).2) ↔
      events.map RuntimeEvent.frame = frames a.events ∧ ∀ event ∈ events, event.fits st = true := by
  constructor
  · intro htold
    cases hfailure : (sendEvents st events).2 with
    | none =>
      have hfits := fits_of_sendEvents hfailure
      rw [sendEvents_of_fits hfits] at htold
      exact ⟨htold.2, hfits⟩
    | some code =>
      rw [hfailure] at htold
      have hcode : a.ending.code = some code := htold.2
      rw [h] at hcode
      cases hcode
  · rintro ⟨hframes, hfits⟩
    rw [sendEvents_of_fits hfits]
    exact ⟨h, hframes⟩

namespace NewRequest

variable (q : NewRequest) (a : Attempt) (rest : List Attempt)

theorem answer_buffered (hchannel : q.channel ≠ .stream) :
    ∃ b, Holds q.stamps q.requestId
      (frames ((attemptsMade q.toRequest 0 a rest).1.flatMap Attempt.events) ++
        frames (attemptsMade q.toRequest 0 a rest).2.events) b ∧
      q.answer a rest =
        some ((Execution.start q.toRequest).lastAnswer q.stamps b
          (attemptsMade q.toRequest 0 a rest).2.ending) := by
  exact Execution.runAttempts_buffered q.stamps (rest.length + 1) q.buffer
    (Execution.start q.toRequest) hchannel a rest rfl
    (by simp [Execution.start]) q.fresh

theorem heard_list_iff (hchannel : q.channel = .list) : q.Heard a rest ↔ q.Clear a rest := by
  obtain ⟨b, hb, hanswer⟩ := q.answer_buffered a rest (by simp [hchannel])
  unfold Heard Clear
  rw [hanswer]
  simp only [Option.some.injEq, exists_eq_left', hchannel]
  generalize attemptsMade q.toRequest 0 a rest = made at *
  obtain ⟨earlier, last⟩ := made
  cases hending : last.ending with
  | completed =>
    have hfinished : (Execution.start q.toRequest).finished q.stamps b =
        .list (b.after q.requestId (q.lastEventId.getD (-1))) := by
      simp only [Execution.finished, Execution.start, hchannel]
    simp only [Execution.lastAnswer, hfinished, Attempt.ToldBy, hending, true_and, true_implies]
    rw [hb.after_missing, List.map_drop, map_frame_numbered, drop_append_eq_right_iff
      (q.missing_le _), List.length_append]
  | transient =>
    simp [Execution.lastAnswer, Execution.raised, Execution.start, hchannel, Attempt.ToldBy,
      hending, Ending.code]
  | failed error =>
    simp [Execution.lastAnswer, Execution.raised, Execution.start, hchannel, Attempt.ToldBy,
      hending, Ending.code]

theorem heard_webSocket_iff (hchannel : q.channel = .webSocket) : q.Heard a rest ↔
    q.Clear a rest := by
  obtain ⟨b, hb, hanswer⟩ := q.answer_buffered a rest (by simp [hchannel])
  unfold Heard Clear
  rw [hanswer]
  simp only [Option.some.injEq, exists_eq_left', hchannel]
  generalize attemptsMade q.toRequest 0 a rest = made at *
  obtain ⟨earlier, last⟩ := made
  cases hending : last.ending with
  | completed =>
    cases hresume : q.lastEventId with
    | none =>
      have hfinished : (Execution.start q.toRequest).finished q.stamps b = .frames []
          (some .invalidMessage) := by
        simp only [Execution.finished, Execution.start, hchannel, hresume]
      simp [Execution.lastAnswer, hfinished, Attempt.ToldBy, hending, Ending.code]
    | some n =>
      have hfinished : (Execution.start q.toRequest).finished q.stamps b =
          .frames (sendEvents q.stamps (b.after q.requestId n)).1
          (sendEvents q.stamps (b.after q.requestId n)).2 := by
        simp only [Execution.finished, Execution.start, hchannel, hresume]
      have hafter := hb.after_missing
      rw [hresume, Option.getD_some, List.length_append] at hafter
      simp only [Execution.lastAnswer, hfinished]
      rw [Attempt.toldBy_sendEvents hending, hafter, List.map_drop, map_frame_numbered,
        drop_append_eq_right_iff (by rw [List.length_append]; exact q.missing_le _)]
      constructor
      · rintro ⟨hmissing, hfits⟩ _
        exact ⟨by simp, hmissing, by rwa [hmissing] at hfits⟩
      · intro hclear
        obtain ⟨_, hmissing, hfits⟩ := hclear trivial
        exact ⟨hmissing, by rwa [hmissing]⟩
  | transient =>
    simp [Execution.lastAnswer, Execution.raised, Execution.start, hchannel, Attempt.ToldBy,
      hending, Ending.code]
  | failed error =>
    simp [Execution.lastAnswer, Execution.raised, Execution.start, hchannel, Attempt.ToldBy,
      hending, Ending.code]

theorem heard_stream_iff (hchannel : q.channel = .stream) : q.Heard a rest ↔ q.Clear a rest := by
  have haccepted := q.accepted (by simp [hchannel])
  have hresume : q.lastEventId.getD (-1) = (q.skipped : ℤ) - 1 := by
    obtain ⟨n, hn, hle⟩ := haccepted
    simp only [Request.skipped, hn, Option.getD_some]
    omega
  have hrelays : Execution.Relays q.stamps q.buffer (Execution.start q.toRequest) :=
    ⟨hchannel, haccepted, q.fresh, by simp [Execution.start, hresume]⟩
  obtain ⟨sent, failure, hanswer, hstreamed⟩ :=
    Execution.runAttempts_stream q.stamps (rest.length + 1) q.buffer _ hrelays rfl rfl
    a rest (by simp [Execution.start])
  have hanswer : q.answer a rest = some (.stream sent failure) := hanswer
  unfold Heard Clear
  rw [hanswer]
  simp only [Option.some.injEq, exists_eq_left', hchannel]
  simp only [Execution.start, List.length_nil, Nat.zero_add] at hstreamed
  generalize attemptsMade q.toRequest 0 a rest = made at *
  obtain ⟨earlier, last⟩ := made
  dsimp only at hstreamed ⊢
  cases hending : last.ending with
  | completed =>
    rw [Execution.Streamed, hending] at hstreamed
    obtain ⟨rfl, hsent⟩ := hstreamed
    simp [Attempt.ToldBy, Ending.ToldBy, hending, Ending.code, hsent, Execution.relayedAll_eq_iff]
  | failed error =>
    rw [Execution.Streamed, hending] at hstreamed
    subst hstreamed
    simp [Attempt.ToldBy]
  | transient =>
    rw [Execution.Streamed, hending] at hstreamed
    obtain ⟨rfl, hsent⟩ := hstreamed
    constructor
    · rintro ⟨tail, htail, htold⟩
      rw [Ending.ToldBy, hending] at htold
      obtain ⟨payload, rfl, _⟩ := htold
      rw [hsent] at htail
      -- the error event is there, so it is not skipped
      have hlength := congrArg List.length htail
      have hle := Execution.length_relayedAll_le q.skipped
        (frames (earlier.flatMap Attempt.events)).length last.events
      simp only [List.length_append, List.length_drop, List.length_singleton] at hlength
      have hreached : q.skipped -
        ((frames (earlier.flatMap Attempt.events)).length + (frames last.events).length) = 0 := by
          omega
      rw [hreached, List.drop_zero] at htail
      obtain ⟨hskipped, hsizes⟩ := Execution.relayedAll_eq_iff.1 (List.append_inj' htail rfl).1
      exact ⟨by simp, hskipped, fun _ => by omega, hsizes⟩
    · rintro ⟨_, hskipped, hreached, hsizes⟩
      have hzero : q.skipped -
          ((frames (earlier.flatMap Attempt.events)).length + (frames last.events).length) = 0 := by
        have := hreached rfl
        omega
      refine ⟨[(Str.ofString "error", unavailablePayload q.stamps.correlationId)], ?_, ?_⟩
      · rw [hsent, Execution.relayedAll_eq_iff.2 ⟨hskipped, hsizes⟩, hzero, List.drop_zero]
      · rw [Ending.ToldBy, hending]
        exact ⟨_, rfl, rfl⟩

end NewRequest

/-- The client of a new request hears the events and the ending of the last attempt made exactly
when `Clear` says. -/
theorem heard_iff (q : NewRequest) (a : Attempt) (rest : List Attempt) : q.Heard a rest ↔
    q.Clear a rest := by
  cases hchannel : q.channel with
  | list => exact q.heard_list_iff a rest hchannel
  | webSocket => exact q.heard_webSocket_iff a rest hchannel
  | stream => exact q.heard_stream_iff a rest hchannel

namespace Endings

/-- A streamed request with nothing to resume after. -/
def streamed : NewRequest where
  channel := .stream
  requestId := List.replicate 26 48
  operation := Str.ofString "kirocrew.http"
  payload := []
  bindingToken := List.replicate 32 65
  lastEventId := some (-1)
  token_safe := Replay.request.token_safe
  stamps := blankStamps
  buffer := {}
  fresh := Holds.empty _ _
  executes := by decide
  accepted := fun _ => ⟨-1, rfl, Int.le_refl _⟩

/-- `_http` has yielded the head of the answer when its body exceeds 8 MiB. -/
def tooLarge : Attempt where
  events := [(Str.ofString "request.accepted", [(Str.ofString "status", .int 200)])]
  ending := .failed ⟨413, .frameTooLarge, .transport, "Loopback response body is too large.", false⟩

/-- The stream just ends. -/
theorem large_body_unheard : ¬ ∀ (q : NewRequest) (a : Attempt) (rest : List Attempt),
    q.Heard a rest := by
  intro h
  obtain ⟨answer, hanswer, htold⟩ := h streamed tooLarge []
  have hfailure : answer = .stream _ (some .frameTooLarge) := (Option.some.inj hanswer).symm
  rw [hfailure] at htold
  exact htold

end Endings

end KiroCrew
