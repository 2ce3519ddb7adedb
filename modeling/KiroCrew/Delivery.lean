import KiroCrew.Endings

/-!
# One request, three answers

A list and the frames of a WebSocket are read from the buffer when the backend is done, a live
stream reads it after every event. `delivered_iff` says when the three are the same: all the events
appended, numbered from 0.
-/

namespace KiroCrew

namespace Execution

variable {st : EventStamps} {b : EventBuffer} {x : Execution}

theorem numbered_append_drop (st : EventStamps) (r : Str) (fs fs' : List Frame) :
    numbered st r fs ++ (numbered st r (fs ++ fs')).drop fs.length = numbered st r (fs ++ fs') := by
  have htake : (numbered st r (fs ++ fs')).take fs.length = numbered st r fs := by
    apply List.ext_getElem
    · simp
    · intro i hi hi'
      rw [length_numbered] at hi'
      simp [numbered, List.getElem_append_left hi']
  rw [← htake, List.take_append_drop]

/-- A stream whose client skips nothing has sent what was appended, when no event overflows the
buffer. -/
theorem emitAll_numbered (h : Relays st b x) (hskipped : x.request.skipped = 0)
    (hsent : x.sent = numbered st x.request.requestId x.appended) {events : List (Str × Fields)}
    (hsizes : ∀ e ∈ events, (framePayloads e.2).length ≤ maxEvents) :
    (x.emitAll st b events).2.sent = numbered st x.request.requestId
        (x.appended ++ frames events) := by
  induction events generalizing b x with
  | nil => simpa [emitAll] using hsent
  | cons e events ih =>
    obtain ⟨hsize, hrest⟩ := List.forall_mem_cons.1 hsizes
    obtain ⟨news, hnews, _, hemit⟩ := emit_stream h e.1 e.2
    have hindex : x.appended.length + max ((framePayloads e.2).length - maxEvents)
      (x.request.skipped - x.appended.length) =
        x.appended.length := by omega
    rw [hindex] at hnews
    have hstep : x.emitAll st b (e :: events) = (x.emit st b e.1 e.2).2.emitAll st
      (x.emit st b e.1 e.2).1 events := rfl
    rw [hstep, hemit, frames_cons, ← List.append_assoc]
    refine ih (b := b.appendPayload st x.request.requestId e.1 e.2) (x := { x with
      sent := x.sent ++ news
      cursor :=
        (max x.request.skipped (x.appended ++ (framePayloads e.2).map (e.1, ·)).length : ℕ) - 1
      appended := x.appended ++ (framePayloads e.2).map (e.1, ·) }) ?_ hskipped ?_ hrest
    · exact ⟨h.channel, h.accepted, h.holds.appendPayload e.1 e.2, rfl⟩
    · show x.sent ++ news = _
      rw [hsent, hnews, numbered_append_drop]

end Execution

/-- A request that is new to the window, over any channel; it may resume after an event. -/
structure Delivery extends NewRequest where
  resumes : ∃ n, lastEventId = some n ∧ -1 ≤ n

def Delivery.on (d : Delivery) (c : Channel) : NewRequest :=
  { d.toNewRequest with channel := c, accepted := fun _ => d.resumes }

/-- All of the events `all`, and no error. -/
def Answer.Delivers (all : List RuntimeEvent) : Answer → Prop
  | .list events => events = all
  | .error _ => False
  | .stream events failure => events = all ∧ failure = none
  | .frames events failure => events = all ∧ failure = none

/-- Whatever the channel, the client gets every event appended, with the numbers `0 … n - 1`. -/
def Delivery.Agrees (d : Delivery) (events : List (Str × Fields)) (rest : List Attempt) : Prop :=
  ∀ c, ∃ answer, (d.on c).answer ⟨events, .completed⟩ rest = some answer ∧
    answer.Delivers (numbered d.stamps d.requestId (frames events))

theorem frames_eq_nil_iff {events : List (Str × Fields)} : frames events = [] ↔ events = [] := by
  cases events with
  | nil => simp
  | cons e events => simp [frames_cons, framePayloads_ne_nil]

theorem length_frames_replicate (operation : Str) (n : Nat) :
    (frames (List.replicate n (operation, []))).length = n := by
  have hone : (framePayloads []).length = 1 := by
    rw [framePayloads_of_le (by decide) (by decide)]
    rfl
  rw [frames, List.length_flatMap, List.map_replicate, List.sum_replicate]
  simp only [List.length_map, hone, smul_eq_mul, Nat.mul_one]

theorem drop_eq_self_iff {α : Type*} {xs : List α} {n : Nat} : xs.drop n = xs ↔ n = 0 ∨
    xs = [] := by
  constructor
  · intro h
    have hlength := congrArg List.length h
    rw [List.length_drop] at hlength
    rcases Nat.eq_zero_or_pos xs.length with hzero | hpos
    · exact Or.inr (List.length_eq_zero_iff.1 hzero)
    · exact Or.inl (by omega)
  · rintro (rfl | rfl)
    · rfl
    · exact List.drop_nil

namespace Delivery

variable (d : Delivery) (events : List (Str × Fields)) (rest : List Attempt)

theorem attemptsMade_completed (c : Channel) :
    attemptsMade (d.on c).toRequest 0 ⟨events, .completed⟩ rest = ([], ⟨events, .completed⟩) :=
  attemptsMade_of_last (by simp [Attempt.again]) rest

theorem answer_buffered {c : Channel} (hc : c ≠ .stream) :
    ∃ b, Holds d.stamps d.requestId (frames events) b ∧
      (d.on c).answer ⟨events, .completed⟩ rest =
        some ((Execution.start (d.on c).toRequest).finished d.stamps b) := by
  obtain ⟨b, hb, hanswer⟩ := (d.on c).answer_buffered ⟨events, .completed⟩ rest hc
  rw [attemptsMade_completed] at hb hanswer
  rw [List.flatMap_nil, frames_nil, List.nil_append] at hb
  exact ⟨b, hb, hanswer⟩

theorem after_eq_numbered_iff {b : EventBuffer} (hb : Holds d.stamps d.requestId (frames events) b)
    {n : ℤ} (hn : -1 ≤ n) :
    b.after d.requestId n = numbered d.stamps d.requestId (frames events) ↔
      events = [] ∨ n = -1 ∧ (frames events).length ≤ maxEvents := by
  have hnil : numbered d.stamps d.requestId (frames events) = [] ↔ events = [] := by
    rw [← List.length_eq_zero_iff, length_numbered, List.length_eq_zero_iff, frames_eq_nil_iff]
  rw [hb.after_eq, drop_eq_self_iff, hnil]
  constructor
  · rintro (hzero | hempty)
    · exact Or.inr ⟨by omega, by omega⟩
    · exact Or.inl hempty
  · rintro (hempty | ⟨rfl, hle⟩)
    · exact Or.inr hempty
    · exact Or.inl (by omega)

theorem list_iff {n : ℤ} (hn : d.lastEventId = some n) (hle : -1 ≤ n) :
    (∃ answer, (d.on .list).answer ⟨events, .completed⟩ rest = some answer ∧
        answer.Delivers (numbered d.stamps d.requestId (frames events))) ↔
      events = [] ∨ n = -1 ∧ (frames events).length ≤ maxEvents := by
  obtain ⟨b, hb, hanswer⟩ := d.answer_buffered events rest (c := .list) (by simp)
  have hfinished : (Execution.start (d.on .list).toRequest).finished d.stamps b =
      .list (b.after d.requestId n) := by
    show Answer.list (b.after d.requestId (d.lastEventId.getD (-1))) = _
    rw [hn, Option.getD_some]
  rw [hanswer, hfinished]
  simp only [Option.some.injEq, exists_eq_left', Answer.Delivers]
  exact d.after_eq_numbered_iff events hb hle

theorem webSocket_iff {n : ℤ} (hn : d.lastEventId = some n) (hle : -1 ≤ n) :
    (∃ answer, (d.on .webSocket).answer ⟨events, .completed⟩ rest = some answer ∧
        answer.Delivers (numbered d.stamps d.requestId (frames events))) ↔
      events = [] ∨ n = -1 ∧ (frames events).length ≤ maxEvents ∧
        ∀ event ∈ numbered d.stamps d.requestId (frames events), event.fits d.stamps = true := by
  obtain ⟨b, hb, hanswer⟩ := d.answer_buffered events rest (c := .webSocket) (by simp)
  have hfinished : (Execution.start (d.on .webSocket).toRequest).finished d.stamps b =
      .frames (sendEvents d.stamps (b.after d.requestId n)).1
      (sendEvents d.stamps (b.after d.requestId n)).2 := by
    have hresume : (d.on .webSocket).lastEventId = some n := hn
    have hchannel : (d.on .webSocket).channel = .webSocket := rfl
    simp only [Execution.finished, Execution.start, hchannel, hresume]
    rfl
  rw [hanswer, hfinished]
  simp only [Option.some.injEq, exists_eq_left', Answer.Delivers]
  have hafter := d.after_eq_numbered_iff events hb hle
  constructor
  · rintro ⟨hsent, hfailure⟩
    have hfits := fits_of_sendEvents hfailure
    rw [sendEvents_of_fits hfits] at hsent
    dsimp only at hsent
    rcases hafter.1 hsent with hempty | ⟨hfirst, hsize⟩
    · exact Or.inl hempty
    · rw [hsent] at hfits
      exact Or.inr ⟨hfirst, hsize, hfits⟩
  · intro h
    have hall : b.after d.requestId n = numbered d.stamps d.requestId (frames events) := by
      rcases h with hempty | ⟨hfirst, hsize, _⟩
      · exact hafter.2 (Or.inl hempty)
      · exact hafter.2 (Or.inr ⟨hfirst, hsize⟩)
    have hfits : ∀ event ∈ b.after d.requestId n, event.fits d.stamps = true := by
      rw [hall]
      rcases h with rfl | ⟨_, _, hfits⟩
      · intro event hevent
        cases hevent
      · exact hfits
    rw [sendEvents_of_fits hfits]
    exact ⟨hall, rfl⟩

/-- A live stream sends everything, when the buffer keeps each payload whole. -/
theorem stream_answer (h : events = [] ∨ d.lastEventId = some (-1) ∧
    ∀ e ∈ events, (framePayloads e.2).length ≤ maxEvents) :
    (d.on .stream).answer ⟨events, .completed⟩ rest =
      some (.stream (numbered d.stamps d.requestId (frames events)) none) := by
  obtain ⟨n, hn, hle⟩ := d.resumes
  have hskipped : (d.on .stream).toRequest.skipped = (d.lastEventId.getD (-1) + 1).toNat := rfl
  have hrelays : Execution.Relays d.stamps d.buffer (Execution.start (d.on .stream).toRequest) := by
    refine ⟨rfl, d.resumes, d.fresh, ?_⟩
    show d.lastEventId.getD (-1) = (max (d.on .stream).toRequest.skipped 0 : ℕ) - 1
    rw [hskipped, hn, Option.getD_some]
    omega
  have hsent : ((Execution.start (d.on .stream).toRequest).emitAll d.stamps d.buffer
    events).2.sent =
      numbered d.stamps d.requestId (frames events) := by
    rcases h with rfl | ⟨hfirst, hsizes⟩
    · rfl
    · refine Execution.emitAll_numbered hrelays ?_ rfl hsizes
      show (d.on .stream).toRequest.skipped = 0
      rw [hskipped, hfirst]
      rfl
  have hchannel := (Execution.emitAll_stream hrelays events).1.channel
  show (Execution.runAttempts d.stamps (rest.length + 1) d.buffer
    (Execution.start (d.on .stream).toRequest) _).2.answer = _
  simp only [Execution.runAttempts, Execution.finish, Execution.finished, hchannel,
    Option.isSome_some, if_true, hsent]

theorem stream_delivers (h : events = [] ∨ d.lastEventId = some (-1) ∧
    (frames events).length ≤ maxEvents) :
    ∃ answer, (d.on .stream).answer ⟨events, .completed⟩ rest = some answer ∧
      answer.Delivers (numbered d.stamps d.requestId (frames events)) := by
  refine ⟨_, d.stream_answer events rest (h.imp_right ?_), rfl, rfl⟩
  rintro ⟨hfirst, hsize⟩
  refine ⟨hfirst, fun e he => ?_⟩
  obtain ⟨first, last, rfl⟩ := List.append_of_mem he
  rw [frames_append, frames_cons, List.length_append, List.length_append, List.length_map] at hsize
  omega

end Delivery

/-- The three channels give the client all events of a new request exactly when there are none, or
it resumes after none of them, the buffer keeps them all and each fits a WebSocket frame. -/
theorem delivered_iff (d : Delivery) (events : List (Str × Fields)) (rest : List Attempt) :
    d.Agrees events rest ↔ events = [] ∨ d.lastEventId = some (-1) ∧
    (frames events).length ≤ maxEvents ∧
      ∀ event ∈ numbered d.stamps d.requestId (frames events), event.fits d.stamps = true := by
  obtain ⟨n, hn, hle⟩ := d.resumes
  have hfirst : d.lastEventId = some (-1) ↔ n = -1 := by rw [hn, Option.some.injEq]
  rw [hfirst]
  constructor
  · intro h
    exact (d.webSocket_iff events rest hn hle).1 (h .webSocket)
  · intro h c
    have hbuffered : events = [] ∨ n = -1 ∧ (frames events).length ≤ maxEvents :=
      h.imp_right fun h => ⟨h.1, h.2.1⟩
    cases c with
    | list => exact (d.list_iff events rest hn hle).2 hbuffered
    | webSocket => exact (d.webSocket_iff events rest hn hle).2 h
    | stream => exact d.stream_delivers events rest (by rwa [hfirst])

namespace Delivery

/-- A request that resumes after nothing. -/
def plain : Delivery where
  toNewRequest := Endings.streamed
  resumes := ⟨-1, rfl, Int.le_refl _⟩

/-- An answer in 513 pieces; the buffer has dropped the first when the list is made. -/
def pieces : List (Str × Fields) := List.replicate 513 (Str.ofString "output.delta", [])

theorem long_list_cut : ¬ ∀ (d : Delivery) (events : List (Str × Fields)) (rest : List Attempt),
    d.Agrees events rest := by
  intro h
  have hlength : (frames pieces).length = 513 := length_frames_replicate _ _
  have hlist := (plain.list_iff pieces [] rfl (Int.le_refl _)).1 (h plain pieces [] .list)
  rw [hlength] at hlist
  rcases hlist with hnil | ⟨_, hle⟩
  · exact absurd (congrArg List.length hnil) (by rw [pieces, List.length_replicate]; decide)
  · exact absurd hle (by decide)

end Delivery

end KiroCrew
