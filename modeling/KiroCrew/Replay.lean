import KiroCrew.Invocation
import KiroCrew.Lib.Machine

/-!
# Repeated requests

The idempotency window records a request when it arrives, and only its digest; a repeated request is
answered from what the buffer has when it comes. `replayed_iff` says when that is the outcome of the
original: the key must be the same, the original must end without an exception, and all its events
must be there and fit.
-/

namespace KiroCrew

open Json (Value)
open Machine (Reaches Any)

/-! ## The key -/

/-- Both come over a WebSocket, or both over HTTP with one token. -/
def Request.SameKey (q q' : Request) : Prop :=
  (q.channel = .webSocket ↔ q'.channel = .webSocket) ∧
    (q.channel = .webSocket ∨ q.bindingToken = q'.bindingToken)

namespace Request

/-- What follows the token, or the bracket, in the digested text. -/
def rest (q : Request) : Str :=
  Json.printStr (Str.ofString "operation") ++ 58 :: Json.printStr q.operation ++ 44 ::
    (Json.printStr (Str.ofString "payload") ++ 58 :: Json.dumps (Json.sortKeys (.obj q.payload)) ++
    44 ::
      (Json.printStr (Str.ofString "requestId") ++ 58 :: Json.printStr q.requestId))

theorem encoded_http {q : Request} (h : q.channel ≠ .webSocket) : q.encoded =
    123 :: (Json.printStr (Str.ofString "bindingToken") ++ 58 :: Json.printStr q.bindingToken ++
    44 :: (q.rest ++ 44 ::
      (Json.printStr (Str.ofString "version") ++ 58 :: Json.printStr
        (Str.ofString "kirocrew-agentcore.v1")) ++ [125])) := by
  have hsort : Json.sortKeys q.invocation =
    .obj [(Str.ofString "bindingToken", .str q.bindingToken),
      (Str.ofString "operation", .str q.operation),
      (Str.ofString "payload", Json.sortKeys (.obj q.payload)),
      (Str.ofString "requestId", .str q.requestId),
          (Str.ofString "version", .str (Str.ofString "kirocrew-agentcore.v1"))] := by
    unfold invocation
    cases hc : q.channel with
    | webSocket => exact absurd hc h
    | list => rfl
    | stream => rfl
  rw [encoded, hsort]
  simp [Json.dumps, Json.dumpsFields, rest]

theorem encoded_webSocket {q : Request} (h : q.channel = .webSocket) :
    q.encoded = 123 :: (q.rest ++ [125]) := by
  have hsort : Json.sortKeys q.invocation = .obj [(Str.ofString "operation", .str q.operation),
      (Str.ofString "payload", Json.sortKeys (.obj q.payload)),
      (Str.ofString "requestId", .str q.requestId)] := by
    unfold invocation
    rw [h]
    rfl
  rw [encoded, hsort]
  simp [Json.dumps, Json.dumpsFields, rest]

theorem printStr_injective {s s' : Str} (h : s.safe = true) (h' : s'.safe = true)
    (heq : Json.printStr s = Json.printStr s') :
    s = s' := by
  have hread := Json.loads_dumps (v := .str s) h
  have hread' := Json.loads_dumps (v := .str s') h'
  rw [Json.dumps, heq, ← Json.dumps, hread'] at hread
  simpa using hread.symm

/-- The third character is the first letter of the first key. -/
theorem encoded_ne_of_channel {q q' : Request} (h : q.channel = .webSocket)
    (h' : q'.channel ≠ .webSocket) :
    q.encoded ≠ q'.encoded := by
  rw [encoded_webSocket h, encoded_http h']
  intro heq
  have hthird := congrArg (fun s : Str => s[2]?) heq
  have hleft : (123 :: (q.rest ++ [125]))[2]? = some 111 := rfl
  have hright : (123 :: (Json.printStr (Str.ofString "bindingToken") ++ 58 ::
    Json.printStr q'.bindingToken ++ 44 :: (q'.rest ++ 44 ::
      (Json.printStr (Str.ofString "version") ++ 58 :: Json.printStr
      (Str.ofString "kirocrew-agentcore.v1")) ++ [125])))[2]? =
        some 98 := rfl
  rw [hleft, hright] at hthird
  cases hthird

/-- With the same id, operation and payload, the digested texts are equal exactly when the keys
are. -/
theorem encoded_eq_iff {q q' : Request} (hid : q.requestId = q'.requestId)
    (hoperation : q.operation = q'.operation)
    (hpayload : Json.sortKeys (.obj q.payload) = Json.sortKeys (.obj q'.payload)) :
    q.encoded = q'.encoded ↔ q.SameKey q' := by
  have hrest : q.rest = q'.rest := by simp only [rest, hid, hoperation, hpayload]
  unfold SameKey
  by_cases hc : q.channel = .webSocket
  · by_cases hc' : q'.channel = .webSocket
    · rw [encoded_webSocket hc, encoded_webSocket hc', hrest]
      simp [hc, hc']
    · exact iff_of_false (encoded_ne_of_channel hc hc') fun hkey => hc' (hkey.1.1 hc)
  · by_cases hc' : q'.channel = .webSocket
    · exact iff_of_false (encoded_ne_of_channel hc' hc).symm fun hkey => hc (hkey.1.2 hc')
    · rw [encoded_http hc, encoded_http hc', hrest]
      constructor
      · intro heq
        have hfield := List.append_cancel_left (List.append_cancel_right (List.cons.inj heq).2)
        have htoken := printStr_injective q.token_safe q'.token_safe (List.cons.inj hfield).2
        exact ⟨iff_of_false hc hc', Or.inr htoken⟩
      · rintro ⟨_, hwebSocket | htoken⟩
        · exact absurd hwebSocket hc
        · rw [htoken]

end Request

/-! ## Steps of one execution -/

/-- What a step of the backend does to an execution and the buffer. -/
structure Execution.Advance (st : EventStamps) (b : EventBuffer) (x : Execution)
    (next : EventBuffer × Execution) : Prop where
  request : next.2.request = x.request
  holds : Holds st x.request.requestId x.appended b →
    Holds st x.request.requestId next.2.appended next.1
  other : ∀ {st' : EventStamps} {r : Str} {fs : List Frame}, r ≠ x.request.requestId →
    Holds st' r fs b → Holds st' r fs next.1

namespace Execution

variable {st : EventStamps} {b : EventBuffer} {x : Execution}

theorem emit_advance (operation : Str) (payload : Fields) :
    Advance st b x (x.emit st b operation payload) := by
  have hbuffer : (x.emit st b operation payload).1 =
      b.appendPayload st x.request.requestId operation payload := by
    unfold emit
    cases hc : x.request.channel <;> simp only [hc]
  have hrequest : (x.emit st b operation payload).2.request = x.request := by
    unfold emit
    cases hc : x.request.channel <;> simp only [hc]
  have happended : (x.emit st b operation payload).2.appended =
      x.appended ++ (framePayloads payload).map (operation, ·) := by
    unfold emit
    cases hc : x.request.channel <;> simp only [hc]
  refine ⟨hrequest, ?_, ?_⟩
  · intro h
    rw [hbuffer, happended]
    exact h.appendPayload operation payload
  · intro st' r fs hr h
    rw [hbuffer]
    exact h.appendPayload_of_ne hr

theorem finish_advance (maxAttempts : Nat) (ending : Ending) :
    Advance st b x (x.finish st maxAttempts b ending) := by
  have hsame : ∀ {x' : Execution}, x'.request = x.request → x'.appended = x.appended →
      Advance st b x (b, x') := by
    intro x' hrequest happended
    exact ⟨hrequest, fun h => by rwa [happended], fun _ h => h⟩
  cases ending with
  | completed => exact hsame rfl rfl
  | failed error => exact hsame rfl rfl
  | transient =>
    unfold finish
    cases hc : x.request.channel with
    | stream =>
      simp only [hc]
      split_ifs
      · have hemit : Advance st b { x with attempt := x.attempt + 1 } _ :=
          emit_advance (Str.ofString "error") (unavailablePayload st.correlationId)
        exact ⟨hemit.request, hemit.holds, hemit.other⟩
      · exact hsame rfl rfl
    | list =>
      simp only [hc]
      split_ifs <;> exact hsame rfl rfl
    | webSocket =>
      simp only [hc]
      split_ifs <;> exact hsame rfl rfl

end Execution

theorem Adapter.cancelled_advance {st : EventStamps} {b : EventBuffer} {x : Execution}
    (target : Str) (done : Bool) :
    Execution.Advance st b x (Adapter.cancelled st b x target done) :=
  ⟨rfl, fun h => h.appendPayload _ _, fun hr h => h.appendPayload_of_ne hr⟩

/-! ## What the adapter keeps of a request -/

namespace Adapter

variable {δ : Type} {sha : Str → δ} {stamps : Str → EventStamps} {maxAttempts : Nat}
    {s s' : Adapter δ}
  {r : Str} {x : Execution} {next : EventBuffer × Execution}

/-- An id is new to the window and the buffer, or it has an execution, whose digest and events they
have. -/
def Keeps (sha : Str → δ) (stamps : Str → EventStamps) (s : Adapter δ) (r : Str) : Prop :=
  match s.executions.get? r with
  | none => s.digests.get? r = none ∧ Holds (stamps r) r [] s.buffer
  | some x => x.request.requestId = r ∧ s.digests.get? r = some (sha x.request.encoded) ∧
      Holds (stamps r) r x.appended s.buffer

theorem keeps_of_some (h : s.Keeps sha stamps r) (hx : s.executions.get? r = some x) :
    x.request.requestId = r ∧
    s.digests.get? r = some (sha x.request.encoded) ∧ Holds (stamps r) r x.appended s.buffer := by
  rw [Keeps, hx] at h
  exact h

theorem keeps_of_none (h : s.Keeps sha stamps r) (hnone : s.executions.get? r = none) :
    s.digests.get? r = none ∧ Holds (stamps r) r [] s.buffer := by
  rw [Keeps, hnone] at h
  exact h

theorem Keeps.put (h : ∀ r, s.Keeps sha stamps r) (hx : s.executions.get? r = some x)
    (hadvance : Execution.Advance (stamps r) s.buffer x next) (r' : Str) :
    (s.put r next).Keeps sha stamps r' := by
  obtain ⟨hid, hdigest, hbuffer⟩ := keeps_of_some (h r) hx
  by_cases hr : r' = r
  · subst hr
    rw [Keeps, Adapter.put, Dict.get?_set_self]
    refine ⟨by rw [hadvance.request, hid], by rw [hadvance.request]; exact hdigest, ?_⟩
    have hholds := hadvance.holds
    rw [hid] at hholds
    exact hholds hbuffer
  · have hkeeps := h r'
    have hother : ∀ fs, Holds (stamps r') r' fs s.buffer → Holds (stamps r') r' fs next.1 := by
      intro fs
      exact hadvance.other (by rw [hid]; exact hr)
    unfold Keeps at hkeeps ⊢
    rw [Adapter.put, Dict.get?_set_of_ne _ _ hr]
    cases hx' : s.executions.get? r' with
    | none =>
      rw [hx'] at hkeeps
      exact ⟨hkeeps.1, hother _ hkeeps.2⟩
    | some x' =>
      rw [hx'] at hkeeps
      exact ⟨hkeeps.1, hkeeps.2.1, hother _ hkeeps.2.2⟩

variable [DecidableEq δ]

/-- A request reaches the window, or one execution advances. -/
theorem step_cases {e : Event} (h : step sha stamps maxAttempts s e = some s') :
    (∃ q, s' = (s.arrive sha stamps q).1) ∨
      ∃ r x next, s.executions.get? r = some x ∧ Execution.Advance (stamps r) s.buffer x next ∧
      s' = s.put r next := by
  have hexecution : ∀ {r : Str} {x : Execution}, s.pending r = some x →
      s.executions.get? r = some x := by
    intro r x hx
    exact (Option.filter_eq_some_iff.1 hx).1
  cases e with
  | arrive q => exact Or.inl ⟨q, (Option.some.inj h).symm⟩
  | emit r operation payload =>
    obtain ⟨x, hx, rfl⟩ := Option.map_eq_some_iff.1 h
    exact Or.inr ⟨r, x, _, hexecution (Option.filter_eq_some_iff.1 hx).1,
      Execution.emit_advance operation payload, rfl⟩
  | finish r ending =>
    obtain ⟨x, hx, rfl⟩ := Option.map_eq_some_iff.1 h
    exact Or.inr ⟨r, x, _, hexecution (Option.filter_eq_some_iff.1 hx).1,
      Execution.finish_advance maxAttempts ending, rfl⟩
  | cancelled r done =>
    obtain ⟨x, hx, htarget⟩ := Option.bind_eq_some_iff.1 h
    obtain ⟨other, _, rfl⟩ := Option.map_eq_some_iff.1 htarget
    exact Or.inr ⟨r, x, _, hexecution (Option.filter_eq_some_iff.1 hx).1,
      cancelled_advance other done, rfl⟩

theorem arrive_of_known {q : Request} (hkeeps : s.Keeps sha stamps q.requestId)
    (hx : s.executions.get? q.requestId = some x) :
    s.arrive sha stamps q =
      (s, some (if sha x.request.encoded = sha q.encoded then replay (stamps q.requestId) s.buffer q
      else refused q conflict)) := by
  obtain ⟨_, hdigest, _⟩ := keeps_of_some hkeeps hx
  unfold arrive idempotencyCheck
  rw [hdigest]
  dsimp only
  split_ifs <;> rfl

theorem arrive_of_new {q : Request} (hdigest : s.digests.get? q.requestId = none) :
    (s.arrive sha stamps q).1 = { s with
    digests := s.digests.set q.requestId (sha q.encoded)
    executions :=
      s.executions.set q.requestId { Execution.start q with answer := rejection q } } := by
  unfold arrive idempotencyCheck
  rw [hdigest]

theorem Keeps.arrive (h : ∀ r, s.Keeps sha stamps r) (q : Request) (r : Str) :
    (s.arrive sha stamps q).1.Keeps sha stamps r := by
  cases hx : s.executions.get? q.requestId with
  | some x =>
    rw [arrive_of_known (h q.requestId) hx]
    exact h r
  | none =>
    obtain ⟨hdigest, hbuffer⟩ := keeps_of_none (h q.requestId) hx
    rw [arrive_of_new hdigest]
    by_cases hr : r = q.requestId
    · subst hr
      rw [Keeps, Dict.get?_set_self]
      exact ⟨rfl, Dict.get?_set_self _ _ _, hbuffer⟩
    · have hkeeps := h r
      unfold Keeps at hkeeps ⊢
      rwa [Dict.get?_set_of_ne _ _ hr, Dict.get?_set_of_ne _ _ hr]

theorem Keeps.step {e : Event} (h : ∀ r, s.Keeps sha stamps r)
    (he : Adapter.step sha stamps maxAttempts s e = some s') (r : Str) :
    s'.Keeps sha stamps r := by
  obtain ⟨q, rfl⟩ | ⟨r', x, next, hx, hadvance, rfl⟩ := step_cases he
  · exact Keeps.arrive h q r
  · exact Keeps.put h hx hadvance r

/-- In every state of every run the window, the buffer and the executions agree. -/
theorem keeps_of_reaches (h : Reaches (Adapter.step sha stamps maxAttempts) Any {} s) (r : Str) :
    s.Keeps sha stamps r :=
  h.invariant (I := fun s => ∀ r, s.Keeps sha stamps r) (fun _ _ _ hI _ he => Keeps.step hI he)
    (fun r => ⟨rfl, Holds.empty (stamps r) r⟩) r

/-- The buffer has nothing of a request that is new to the window. -/
theorem fresh_of_reaches (h : Reaches (Adapter.step sha stamps maxAttempts) Any {} s)
    (hdigest : s.digests.get? r = none) :
    s.executions.get? r = none ∧ Holds (stamps r) r [] s.buffer := by
  have hkeeps := keeps_of_reaches h r
  cases hx : s.executions.get? r with
  | none => exact ⟨rfl, (keeps_of_none hkeeps hx).2⟩
  | some x =>
    have hknown := (keeps_of_some hkeeps hx).2.1
    rw [hdigest] at hknown
    cases hknown

theorem step_execution {e : Event} (h : ∀ r, s.Keeps sha stamps r)
    (he : Adapter.step sha stamps maxAttempts s e = some s')
    (hx : s.executions.get? r = some x) : ∃ x', s'.executions.get? r = some x' ∧
    x'.request = x.request := by
  obtain ⟨q, rfl⟩ | ⟨r', x', next, hx', hadvance, rfl⟩ := step_cases he
  · by_cases hr : r = q.requestId
    · subst hr
      rw [arrive_of_known (h q.requestId) hx]
      exact ⟨x, hx, rfl⟩
    · cases hq : s.executions.get? q.requestId with
      | some x' =>
        rw [arrive_of_known (h q.requestId) hq]
        exact ⟨x, hx, rfl⟩
      | none =>
        rw [arrive_of_new (keeps_of_none (h q.requestId) hq).1]
        exact ⟨x, (Dict.get?_set_of_ne _ _ hr).trans hx, rfl⟩
  · by_cases hr : r = r'
    · subst hr
      rw [hx] at hx'
      obtain rfl := Option.some.inj hx'
      exact ⟨next.2, Dict.get?_set_self _ _ _, hadvance.request⟩
    · exact ⟨x, (Dict.get?_set_of_ne _ _ hr).trans hx, rfl⟩

theorem execution_of_reaches (hs : ∀ r, s.Keeps sha stamps r)
    (h : Reaches (Adapter.step sha stamps maxAttempts) Any s s')
    (hx : s.executions.get? r = some x) : ∃ x', s'.executions.get? r = some x' ∧
    x'.request = x.request := by
  refine (h.invariant (I := fun s' => (∀ r, s'.Keeps sha stamps r) ∧
    ∃ x', s'.executions.get? r = some x' ∧ x'.request = x.request) ?_ ⟨hs, x, hx, rfl⟩).2
  rintro t e t' ⟨hkeeps, x', hx', hrequest⟩ _ he
  obtain ⟨x'', hx'', hrequest'⟩ := step_execution hkeeps he hx'
  exact ⟨Keeps.step hkeeps he, x'', hx'', hrequest'.trans hrequest⟩

end Adapter

/-! ## The answer to a repeated request -/

def Answer.failure : Answer → Option ErrorCode
  | .list _ => none
  | .error cause => some cause.code
  | .stream _ failure | .frames _ failure => failure

def Answer.events : Answer → List RuntimeEvent
  | .list events | .stream events _ | .frames events _ => events
  | .error _ => []

/-- A repeated request in a run of the adapter: it comes in `before`, where `original` is the
execution of its id, and in `later` that execution, now `final`, has its answer. -/
structure Repeated {δ : Type} [DecidableEq δ] (sha : Str → δ) (stamps : Str → EventStamps)
    (maxAttempts : Nat) where
  before : Adapter δ
  later : Adapter δ
  reached : Reaches (Adapter.step sha stamps maxAttempts) Any {} before
  continued : Reaches (Adapter.step sha stamps maxAttempts) Any before later
  request : Request
  original : Execution
  final : Execution
  answer : Answer
  original_eq : before.executions.get? request.requestId = some original
  final_eq : later.executions.get? request.requestId = some final
  answer_eq : final.answer = some answer
  /-- the same request, its payload the same object -/
  operation_eq : original.request.operation = request.operation
  payload_eq : Json.sortKeys (.obj original.request.payload) = Json.sortKeys (.obj request.payload)
  whole : request.lastEventId = some (-1)
  /-- the digests of the two requests do not collide -/
  digest_eq : sha original.request.encoded = sha request.encoded → original.request.encoded =
    request.encoded

namespace Repeated

variable {δ : Type} [DecidableEq δ] {sha : Str → δ} {stamps : Str → EventStamps} {maxAttempts : Nat}

def events (d : Repeated sha stamps maxAttempts) : List RuntimeEvent :=
  numbered (stamps d.request.requestId) d.request.requestId d.final.appended

/-- The backend is not asked again, and the answer is the outcome of the original: its events, or
its error. -/
def Replayed (d : Repeated sha stamps maxAttempts) : Prop :=
  d.final.request = d.original.request ∧
    ∃ answer, d.before.arrive sha stamps d.request = (d.before, some answer) ∧
    answer.failure ≠ some .idempotencyConflict ∧
      match d.answer.failure with
      | none => answer.failure = none ∧ answer.events = d.events
      | some code => answer.failure = some code

/-- The key is that of the original, which ends without an exception, and when the repeated request
comes all its events, at most 512, are there and fit a frame where one is needed. (Over a WebSocket
the error of a frame that is too large comes again.) -/
def Faithful (d : Repeated sha stamps maxAttempts) : Prop :=
  d.original.request.SameKey d.request ∧
    match d.answer.failure with
    | none => d.original.appended = d.final.appended ∧ d.final.appended.length ≤ maxEvents ∧
        (d.request.channel = .webSocket → ∀ event ∈ d.events,
        event.fits (stamps d.request.requestId) = true)
    | some code => d.request.channel = .webSocket ∧ code = .frameTooLarge ∧
        ∃ event ∈ lastN maxEvents (numbered (stamps d.request.requestId) d.request.requestId
        d.original.appended),
          event.fits (stamps d.request.requestId) = false

end Repeated

/-- What the buffer has is the whole list only when it has dropped nothing and the list has not
grown since. -/
theorem lastN_numbered_eq_iff {st : EventStamps} {r : Str} {fs gs : List Frame} :
    lastN maxEvents (numbered st r fs) = numbered st r gs ↔ fs = gs ∧ gs.length ≤ maxEvents := by
  constructor
  · intro heq
    have hle : fs.length ≤ maxEvents := by
      by_contra hlt
      -- the first event that is left is not event 0
      have hlength : (numbered st r fs).length = fs.length := length_numbered st r fs
      have hpos : (numbered st r fs).length - maxEvents < (numbered st r fs).length := by
        have hmax : 0 < maxEvents := by decide
        omega
      have hlast : (lastN maxEvents (numbered st r fs))[0]? =
          some (numbered st r fs)[(numbered st r fs).length - maxEvents] := by
        rw [lastN, List.getElem?_drop, Nat.add_zero, List.getElem?_eq_getElem hpos]
      rw [heq] at hlast
      obtain ⟨hgs, hevent⟩ := List.getElem?_eq_some_iff.1 hlast
      have hid := congrArg RuntimeEvent.eventId hevent
      rw [Holds.eventId_numbered, Holds.eventId_numbered] at hid
      omega
    have hwhole := heq
    rw [lastN_of_le (by simpa using hle)] at hwhole
    have hframes := congrArg (List.map RuntimeEvent.frame) hwhole
    rw [map_frame_numbered, map_frame_numbered] at hframes
    exact ⟨hframes, hframes ▸ hle⟩
  · rintro ⟨rfl, hle⟩
    exact lastN_of_le (by simpa using hle)

namespace Repeated

variable {δ : Type} [DecidableEq δ] {sha : Str → δ} {stamps : Str → EventStamps} {maxAttempts : Nat}
  (d : Repeated sha stamps maxAttempts)

def buffered : List RuntimeEvent :=
  lastN maxEvents (numbered (stamps d.request.requestId) d.request.requestId d.original.appended)

theorem keeps : d.original.request.requestId = d.request.requestId ∧
    d.before.digests.get? d.request.requestId = some (sha d.original.request.encoded) ∧
    Holds (stamps d.request.requestId) d.request.requestId d.original.appended d.before.buffer :=
  Adapter.keeps_of_some (Adapter.keeps_of_reaches d.reached _) d.original_eq

theorem final_request : d.final.request = d.original.request := by
  obtain ⟨x, hx, hrequest⟩ :=
    Adapter.execution_of_reaches (Adapter.keeps_of_reaches d.reached) d.continued d.original_eq
  rw [d.final_eq] at hx
  rw [Option.some.inj hx, hrequest]

theorem sha_eq_iff : sha d.original.request.encoded = sha d.request.encoded ↔
    d.original.request.SameKey d.request := by
  rw [← Request.encoded_eq_iff d.keeps.1 d.operation_eq d.payload_eq]
  exact ⟨d.digest_eq, congrArg sha⟩

theorem arrive_of_not_key (h : ¬ d.original.request.SameKey d.request) :
    d.before.arrive sha stamps d.request =
      (d.before, some (Adapter.refused d.request Adapter.conflict)) := by
  rw [Adapter.arrive_of_known (Adapter.keeps_of_reaches d.reached _) d.original_eq,
    if_neg (mt d.sha_eq_iff.1 h)]

theorem failure_conflict (q : Request) : (Adapter.refused q Adapter.conflict).failure =
    some .idempotencyConflict := by
  unfold Adapter.refused
  cases q.channel <;> rfl

theorem arrive_of_key (h : d.original.request.SameKey d.request) :
    ∃ answer, d.before.arrive sha stamps d.request = (d.before, some answer) ∧
      if d.request.channel = .webSocket then answer.failure =
        (sendEvents (stamps d.request.requestId) d.buffered).2 ∧
        answer.events = (sendEvents (stamps d.request.requestId) d.buffered).1
      else answer.failure = none ∧ answer.events = d.buffered := by
  refine ⟨Adapter.replay (stamps d.request.requestId) d.before.buffer d.request, ?_, ?_⟩
  · rw [Adapter.arrive_of_known (Adapter.keeps_of_reaches d.reached _) d.original_eq,
      if_pos (d.sha_eq_iff.2 h)]
  · have hafter := d.keeps.2.2.after_neg_one
    unfold Adapter.replay
    cases hc : d.request.channel with
    | list => simp [d.whole, hafter, Answer.failure, Answer.events, buffered]
    | stream => simp [d.whole, hafter, Answer.failure, Answer.events, buffered]
    | webSocket => simp [d.whole, hafter, Answer.failure, Answer.events, buffered]

end Repeated

theorem Repeated.buffered_eq_events_iff {δ : Type} [DecidableEq δ] {sha : Str → δ}
    {stamps : Str → EventStamps} {maxAttempts : Nat}
    (d : Repeated sha stamps maxAttempts) :
    d.buffered = d.events ↔ d.original.appended = d.final.appended ∧ d.final.appended.length ≤
        maxEvents :=
  lastN_numbered_eq_iff

/-- A repeated request gets the original's outcome exactly when `Faithful` says. -/
theorem replayed_iff {δ : Type} [DecidableEq δ] {sha : Str → δ} {stamps : Str → EventStamps}
    {maxAttempts : Nat}
    (d : Repeated sha stamps maxAttempts) : d.Replayed ↔ d.Faithful := by
  unfold Repeated.Replayed Repeated.Faithful
  by_cases hkey : d.original.request.SameKey d.request
  · obtain ⟨answer, harrive, hanswer⟩ := d.arrive_of_key hkey
    have hthis : ∀ {answer'}, d.before.arrive sha stamps d.request = (d.before, some answer') →
        answer' = answer := by
      intro answer' harrive'
      rw [harrive] at harrive'
      exact (Option.some.inj (Prod.mk.inj harrive').2).symm
    by_cases hchannel : d.request.channel = .webSocket
    · rw [if_pos hchannel] at hanswer
      obtain ⟨hend, hsent⟩ := hanswer
      cases hfailure : d.answer.failure with
      | none =>
        constructor
        · rintro ⟨_, answer', harrive', _, hnone, hevents⟩
          obtain rfl := hthis harrive'
          have hfits := fits_of_sendEvents (hend.symm.trans hnone)
          rw [hsent, sendEvents_of_fits hfits] at hevents
          dsimp only at hevents
          obtain ⟨happended, hle⟩ := d.buffered_eq_events_iff.1 hevents
          rw [hevents] at hfits
          exact ⟨hkey, happended, hle, fun _ => hfits⟩
        · rintro ⟨_, happended, hle, hfits⟩
          have hevents := d.buffered_eq_events_iff.2 ⟨happended, hle⟩
          rw [hevents, sendEvents_of_fits (hfits hchannel)] at hend hsent
          exact ⟨d.final_request, answer, harrive, by rw [hend]; simp, hend, hsent⟩
      | some code =>
        constructor
        · rintro ⟨_, answer', harrive', _, hcode⟩
          obtain rfl := hthis harrive'
          obtain ⟨hlarge, hevent⟩ := sendEvents_eq_some_iff.1 (hend.symm.trans hcode)
          exact ⟨hkey, hchannel, hlarge, hevent⟩
        · rintro ⟨_, _, hlarge, hevent⟩
          have hcode := hend.trans (sendEvents_eq_some_iff.2 ⟨hlarge, hevent⟩)
          exact ⟨d.final_request, answer, harrive, by rw [hcode, hlarge]; simp, hcode⟩
    · rw [if_neg hchannel] at hanswer
      obtain ⟨hend, hsent⟩ := hanswer
      cases hfailure : d.answer.failure with
      | none =>
        constructor
        · rintro ⟨_, answer', harrive', _, _, hevents⟩
          obtain rfl := hthis harrive'
          obtain ⟨happended, hle⟩ := d.buffered_eq_events_iff.1 (hsent.symm.trans hevents)
          exact ⟨hkey, happended, hle, fun hwebSocket => absurd hwebSocket hchannel⟩
        · rintro ⟨_, happended, hle, _⟩
          exact ⟨d.final_request, answer, harrive, by rw [hend]; simp, hend,
            hsent.trans (d.buffered_eq_events_iff.2 ⟨happended, hle⟩)⟩
      | some code =>
        constructor
        · rintro ⟨_, answer', harrive', _, hcode⟩
          obtain rfl := hthis harrive'
          rw [hend] at hcode
          cases hcode
        · rintro ⟨_, hwebSocket, _⟩
          exact absurd hwebSocket hchannel
  · constructor
    · rintro ⟨_, answer, harrive, hconflict, _⟩
      rw [d.arrive_of_not_key hkey] at harrive
      obtain rfl := Option.some.inj (Prod.mk.inj harrive).2
      exact absurd (Repeated.failure_conflict d.request) hconflict
    · rintro ⟨hsame, _⟩
      exact absurd hsame hkey

namespace Replay

/-- A request for a list of events. -/
def request : Request where
  channel := .list
  requestId := List.replicate 26 48
  operation := Str.ofString "kirocrew.http"
  payload := []
  bindingToken := List.replicate 32 65
  lastEventId := some (-1)
  token_safe := by decide

/-- The execution after its only attempt has failed. -/
def refusedExecution : Execution :=
  { Execution.start request with attempt := 1, answer := some (.error unavailable) }

def refusedAdapter : Adapter Str where
  digests := [(request.requestId, request.encoded)]
  executions := [(request.requestId, refusedExecution)]

def retried : Repeated (id : Str → Str) (fun _ => blankStamps) 1 where
  before := refusedAdapter
  later := refusedAdapter
  reached :=
    Reaches.of_runAlong (show Machine.runAlong (Adapter.step id (fun _ => blankStamps) 1) Any {}
    [.arrive request, .finish request.requestId .transient] = some refusedAdapter from rfl)
  continued := .refl
  request := request
  original := refusedExecution
  final := refusedExecution
  answer := .error unavailable
  original_eq := rfl
  final_eq := rfl
  answer_eq := rfl
  operation_eq := rfl
  payload_eq := rfl
  whole := rfl
  digest_eq := fun _ => rfl

/-- It gets status 200 and no events. -/
theorem failure_not_replayed : ¬ ∀ (δ : Type) [DecidableEq δ] (sha : Str → δ) (stamps : Str →
    EventStamps) (maxAttempts : Nat)
    (d : Repeated sha stamps maxAttempts), d.Replayed := by
  intro h
  obtain ⟨_, answer, harrive, _, hcode⟩ := h Str id (fun _ => blankStamps) 1 retried
  obtain ⟨answer', harrive', hanswer⟩ := retried.arrive_of_key ⟨Iff.rfl, Or.inr rfl⟩
  rw [harrive'] at harrive
  obtain rfl := Option.some.inj (Prod.mk.inj harrive).2
  rw [if_neg (by decide)] at hanswer
  have hfailure : answer'.failure = some .kirocrewUnavailable := hcode
  rw [hanswer.1] at hfailure
  cases hfailure

end Replay

end KiroCrew
