import KiroCrew.Lib.Machine
import KiroCrew.Limits

/-!
# The order of a socket's frames

`KiroCrewRemoteWebSocket` queues the frames that the page sends, and `#drain` takes them off 256 at
a time, one invocation in flight. When an invocation fails, `#drain` goes on with the next batch;
and an `ArrayBuffer` is queued as a view of it, which is read when its chunk is encoded. What
arrives is a prefix of what was sent as long as no invocation goes through after a failure, and none
with a buffer that was changed in between (`keepsOrder_iff`).
-/

namespace KiroCrew.Shell

open Machine (runAlong Any)

/-! ## The socket -/

inductive ReadyState
  | connecting | opened | closing | closed
deriving DecidableEq, Repr

/-- The page's `ArrayBuffer`s; `none` is detached. -/
abbrev Memory := Nat → Option (List (Fin 256))

/-- What the page passes to `send`. The bytes of a view are copied at once. -/
inductive Data
  | text (units : List Nat)
  | view (bs : List (Fin 256))
  | buffer (id : Nat)
  | sharedBuffer (bs : List (Fin 256))
  | blob (bs : List (Fin 256))
deriving DecidableEq, Repr

namespace Data

variable (memory : Memory)

/-- What the page sends. -/
def sent : Data → OutFrame
  | .text units => .text units
  | .view bs | .sharedBuffer bs | .blob bs => .binary (bs.map Fin.val)
  | .buffer id => .binary (((memory id).getD []).map Fin.val)

/-- What the queued frame holds when it is read: `new Uint8Array(data)` is a view of the buffer, and
a `SharedArrayBuffer` is neither an `ArrayBuffer` nor a view and becomes an empty array. -/
def frame : Data → OutFrame
  | .text units => .text units
  | .view bs | .blob bs => .binary (bs.map Fin.val)
  | .sharedBuffer _ => .binary []
  | .buffer id => .binary (((memory id).getD []).map Fin.val)

/-- There is no view of a detached buffer. -/
def isDetached : Data → Bool
  | .buffer id => (memory id).isNone
  | _ => false

end Data

def Data.isBlob : Data → Bool
  | .blob _ => true
  | _ => false

/-- A frame, how many were sent before it, and the page's memory when it was sent. -/
structure Entry where
  index : Nat
  data : Data
  memory : Memory

namespace Entry

/-- The frame as it should reach the upstream socket. -/
def arrival (e : Entry) : Nat × SocketFrame := (e.index, (e.data.sent e.memory).delivered)

/-- The frame as `tunnelSend` encodes it. -/
def encoded (memory : Memory) (e : Entry) : OutFrame := e.data.frame memory

/-- The buffer holds what it held when it was sent, and no bytes were in a `SharedArrayBuffer`. -/
def Kept (memory : Memory) (e : Entry) : Prop :=
  match e.data with
  | .buffer id => (memory id).getD [] = (e.memory id).getD []
  | .sharedBuffer bs => bs = []
  | _ => True

instance (memory : Memory) (e : Entry) : Decidable (e.Kept memory) := by
  unfold Kept
  split <;> infer_instance

end Entry

/-- `chunkFrames` -/
def chunks (memory : Memory) (batch : List Entry) : List (List Entry) :=
  Batches.pack (fun e => (e.encoded memory).encoded) maxTunnelBatchChars batch

/-- Where a call of `#drain` waits: for the frames of the batch, or for the invocation with the
first chunk, whose frames were encoded in `memory`. -/
inductive Await
  | gathering (batch : List Entry)
  | sending (chunk : List Entry) (memory : Memory) (later : List (List Entry))

/-- A call of `#drain` that has not returned. -/
structure Loop where
  tunnelId : Str
  await : Await

structure Socket where
  memory : Memory := fun _ => none
  readyState : ReadyState := .connecting
  aborted : Bool := false
  tunnelId : Option Str := none
  outbox : List Entry := []
  draining : Bool := false
  loops : List Loop := []
  /-- the adapter has the tunnel's socket, and it is not closed -/
  tunnelOpen : Bool := false
  /-- what the upstream socket got -/
  upstream : List (Nat × SocketFrame) := []
  /-- what the page sent while the socket was open -/
  sent : List Entry := []
  /-- what the `catch` of `#drain` let go -/
  lost : List Entry := []

namespace Socket

/-- The call returns. -/
def leave (s : Socket) (i : Nat) : Socket :=
  { s with draining := false, loops := s.loops.eraseIdx i }

/-- The head of the loop. -/
def next (s : Socket) (i : Nat) (tunnelId : Str) : Socket :=
  if s.outbox = [] then s.leave i
  else { s with
    outbox := s.outbox.drop maxTunnelBatchFrames
    loops := s.loops.set i ⟨tunnelId, .gathering (s.outbox.take maxTunnelBatchFrames)⟩ }

/-- The loop over the chunks. -/
def sends (s : Socket) (i : Nat) (tunnelId : Str) : List (List Entry) → Socket
  | [] => s.next i tunnelId
  | chunk :: later => { s with loops := s.loops.set i ⟨tunnelId, .sending chunk s.memory later⟩ }

def enter (s : Socket) (tunnelId : Str) : Socket :=
  { s with draining := true, loops := s.loops ++ [⟨tunnelId, .gathering []⟩] }

def drain (s : Socket) (tunnelId : Str) : Socket := (s.enter tunnelId).next s.loops.length tunnelId

/-- The next frame that is sent. -/
def entry (s : Socket) (data : Data) : Entry := ⟨s.sent.length, data, s.memory⟩

def push (s : Socket) (data : Data) : Socket :=
  { s with sent := s.sent ++ [s.entry data], outbox := s.outbox ++ [s.entry data] }

def deliver (s : Socket) (arrivals : List (Nat × SocketFrame)) : Socket :=
  { s with upstream := s.upstream ++ arrivals }

def letGo (s : Socket) (frames : List Entry) : Socket := { s with lost := s.lost ++ frames }

/-- After the `catch`: `#failed` may run a handler that throws. -/
def caught (s : Socket) (i : Nat) (tunnelId : Str) (throws : Bool) : Socket :=
  if s.readyState = .opened ∧ throws = true then s.leave i else s.next i tunnelId

end Socket

/-- aiohttp can send the frame: a lone surrogate has no UTF-8. -/
def sendable : SocketFrame → Bool
  | .text s => (Str.utf8Length s).isSome
  | .bytes _ => true

/-- `_tunnel_send`, when it sends all the frames. -/
def tunnelSend (x : Session) (frames : List OutFrame) : Option (List SocketFrame) :=
  (receiveFrames x frames).filter fun decoded => decoded.all sendable

inductive SocketEvent
  /-- the page makes a buffer, writes to it or detaches it -/
  | write (id : Nat) (bs : Option (List (Fin 256)))
  /-- `#connect` -/
  | connect (requestId : Str)
  | registered
  | unregistered
  /-- `#open`, on `request.accepted` -/
  | accepted
  | send (data : Data)
  /-- `Promise.all` resolves -/
  | gathered (i : Nat)
  /-- a blob cannot be read -/
  | rejected (i : Nat) (throws : Bool)
  /-- the invocation ends without an error -/
  | acknowledged (i : Nat) (requestId bindingToken : Str)
  /-- the invocation fails and has delivered nothing -/
  | failed (i : Nat) (throws : Bool)
  | close
  /-- the stream of the tunnel ends -/
  | ended

def SocketEvent.acknowledges : SocketEvent → Bool
  | .acknowledged .. => true
  | _ => false

namespace Socket

def step (s : Socket) : SocketEvent → Option Socket
  | .write id bs => some { s with memory := Function.update s.memory id bs }
  | .connect requestId =>
    if s.aborted ∨ s.tunnelId.isSome then none else some { s with tunnelId := some requestId }
  | .registered => some { s with tunnelOpen := true }
  | .unregistered => some { s with tunnelOpen := false }
  | .accepted =>
    if s.tunnelId = none then none
    else if s.aborted ∨ s.readyState ≠ .connecting then some s
    else some { s with readyState := .opened }
  | .send data =>
    -- `InvalidStateError`
    if s.readyState ≠ .opened then some s
    else
      match s.tunnelId with
      | none => some { s with sent := s.sent ++ [s.entry data], lost := s.lost ++ [s.entry data] }
      | some tunnelId =>
        -- `new Uint8Array` throws
        if data.isDetached s.memory then some s
        else some (if s.draining then s.push data else (s.push data).drain tunnelId)
  | .gathered i =>
    match s.loops[i]? with
    | some ⟨tunnelId, .gathering batch⟩ => some (s.sends i tunnelId (chunks s.memory batch))
    | _ => none
  | .rejected i throws =>
    match s.loops[i]? with
    | some ⟨tunnelId, .gathering batch⟩ =>
      if batch.any fun e => e.data.isBlob then some ((s.letGo batch).caught i tunnelId throws)
        else none
    | _ => none
  | .acknowledged i requestId bindingToken =>
    match s.loops[i]? with
    | some ⟨tunnelId, .sending chunk memory later⟩ =>
      if s.tunnelOpen then
        (tunnelSend ⟨requestId, bindingToken, tunnelId⟩
            (chunk.map (Entry.encoded memory))).map fun frames =>
          (s.deliver ((chunk.map Entry.index).zip frames)).sends i tunnelId later
      else none
    | _ => none
  | .failed i throws =>
    match s.loops[i]? with
    | some ⟨tunnelId, .sending chunk _ later⟩ =>
      some ((s.letGo (chunk ++ later.flatten)).caught i tunnelId throws)
    | _ => none
  | .close =>
    some (if s.readyState = .closed then s else { s with readyState := .closed, aborted := true })
  | .ended => some { s with readyState := .closed }

/-- What arrived is a prefix of what was sent, nothing arrived twice, and nothing after a frame that
was lost. -/
structure KeepsOrder (s : Socket) : Prop where
  initial : s.upstream <+: s.sent.map Entry.arrival
  nodup : s.upstream.Nodup
  before_lost : ∀ e ∈ s.lost, ∀ arrived ∈ s.upstream, arrived.1 < e.index

/-- No buffer of the chunk had changed when its frames were encoded. -/
def Unchanged (s : Socket) (i : Nat) : Prop :=
  match s.loops[i]? with
  | some ⟨_, .sending chunk memory _⟩ => ∀ e ∈ chunk, e.Kept memory
  | _ => True

instance (s : Socket) (i : Nat) : Decidable (s.Unchanged i) := by
  unfold Unchanged
  split <;> infer_instance

/-- No invocation goes through once the `catch` of `#drain` has let frames go, and none with a
buffer that was changed after it was sent. -/
def Steady (s : Socket) : SocketEvent → Prop
  | .acknowledged i _ _ => s.lost = [] ∧ s.Unchanged i
  | _ => True

instance (s : Socket) (e : SocketEvent) : Decidable (Steady s e) := by
  unfold Steady
  split
  · exact decidable_of_iff (s.lost.isEmpty = true ∧ s.Unchanged _) (by rw [List.isEmpty_iff])
  · infer_instance

end Socket

/-! ## What one invocation delivers -/

theorem Entry.octets (memory : Memory) (e : Entry) :
    ∀ bs, e.encoded memory = .binary bs → ∀ b ∈ bs, b < 256 := by
  have hval (bs : List (Fin 256)) : ∀ b ∈ bs.map Fin.val, b < 256 := by
    intro b hb
    obtain ⟨c, _, rfl⟩ := List.mem_map.1 hb
    exact c.isLt
  intro bs h
  unfold Entry.encoded at h
  cases hdata : e.data with
  | text units =>
    rw [hdata] at h
    cases h
  | view bs | buffer id | blob bs =>
    rw [hdata] at h
    cases h
    exact hval _
  | sharedBuffer bs =>
    rw [hdata] at h
    cases h
    exact fun b hb => absurd hb List.not_mem_nil

/-- A frame as an invocation delivers it. -/
def Entry.carried (memory : Memory) (e : Entry) : Nat × SocketFrame :=
  (e.index, (e.encoded memory).delivered)

/-- A frame arrives as it was sent when its buffer is as it was. -/
theorem Entry.carried_eq_iff {memory : Memory} {e : Entry} : e.carried memory = e.arrival ↔
    e.Kept memory := by
  have hbytes {bs bs' : List (Fin 256)} :
      (OutFrame.binary (bs.map Fin.val)).delivered = (OutFrame.binary (bs'.map Fin.val)).delivered ↔
      bs = bs' := by
    constructor
    · intro h
      exact List.map_injective_iff.2 Fin.val_injective (SocketFrame.bytes.inj h)
    · rintro rfl
      rfl
  unfold carried arrival Kept encoded
  rw [Prod.mk.injEq, and_iff_right rfl]
  cases e.data with
  | text units | view bs | blob bs => exact iff_of_true rfl trivial
  | buffer id => exact hbytes
  | sharedBuffer bs => exact (@hbytes [] bs).trans eq_comm

/-- An invocation delivers the frames of its chunk as they were encoded. -/
theorem tunnelSend_eq {x : Session} {memory : Memory} {chunk : List Entry}
    {frames : List SocketFrame}
    (h : tunnelSend x (chunk.map (Entry.encoded memory)) = some frames) :
    (chunk.map Entry.index).zip frames = chunk.map (Entry.carried memory) := by
  have hreceived := (Option.filter_eq_some_iff.1 h).1
  have hbytes : ∀ bs, .binary bs ∈ chunk.map (Entry.encoded memory) → ∀ b ∈ bs, b < 256 := by
    intro bs hbs
    obtain ⟨e, _, he⟩ := List.mem_map.1 hbs
    exact e.octets memory bs he
  rw [delivered_of_receiveFrames hbytes hreceived, List.map_map, List.zip_map']
  rfl

/-! ## The invariant -/

namespace Await

/-- The frames that the call has taken off the outbox. -/
def entries : Await → List Entry
  | .gathering batch => batch
  | .sending chunk _ later => chunk ++ later.flatten

def WellFormed : Await → Prop
  | .gathering batch => batch ≠ []
  | .sending chunk _ later => ∀ c ∈ chunk :: later, c ≠ []

end Await

namespace Socket

variable {s s' : Socket}

/-- The frames are counted: those that are done, then `held`, then the outbox. -/
structure Accounts (s : Socket) (held : List Entry) : Prop where
  addressed : s.readyState = .opened → s.tunnelId.isSome = true
  indexed : s.sent.map Entry.index = List.range s.sent.length
  split : ∃ done, s.sent = done ++ (held ++ s.outbox) ∧ done.length = s.upstream.length +
    s.lost.length

/-- At most one call of `#drain` runs. -/
inductive Guarded (s : Socket) : Prop
  | idle (hloops : s.loops = []) (hdraining : s.draining = false) (h : s.Accounts [])
  | busy (loop : Loop) (hloops : s.loops = [loop]) (hdraining : s.draining = true)
      (hformed : loop.await.WellFormed)
    (h : s.Accounts loop.await.entries)

theorem range_split {xs ys zs : List Entry}
    (h : (xs ++ (ys ++ zs)).map Entry.index = List.range (xs ++ (ys ++ zs)).length) :
    xs.map Entry.index = List.range xs.length ∧
    ys.map Entry.index = List.range' xs.length ys.length := by
  rw [List.length_append, List.range_add, List.map_append] at h
  obtain ⟨hxs, h⟩ := List.append_inj h (by simp)
  rw [List.length_append, List.range_add, List.map_append, List.map_append] at h
  obtain ⟨hys, _⟩ := List.append_inj h (by simp)
  refine ⟨hxs, hys.trans ?_⟩
  rw [List.range'_eq_map_range]

theorem Accounts.held_index {held : List Entry} (h : s.Accounts held) :
    held.map Entry.index = List.range' (s.upstream.length + s.lost.length) held.length := by
  obtain ⟨done, hsent, hdone⟩ := h.split
  have hindexed := h.indexed
  rw [hsent] at hindexed
  rw [← hdone]
  exact (range_split hindexed).2

theorem Accounts.leave {held : List Entry} (h : s.Accounts held) (i : Nat) :
    (s.leave i).Accounts held :=
  ⟨h.addressed, h.indexed, h.split⟩

theorem Guarded.leave {loop : Loop} (hloops : s.loops = [loop]) (h : s.Accounts []) :
    (s.leave 0).Guarded := by
  refine .idle ?_ rfl (h.leave 0)
  show s.loops.eraseIdx 0 = []
  rw [hloops]
  rfl

theorem Guarded.next {loop : Loop} (hloops : s.loops = [loop]) (hdraining : s.draining = true)
    (h : s.Accounts []) (tunnelId : Str) :
    (s.next 0 tunnelId).Guarded := by
  rw [Socket.next]
  split_ifs with hempty
  · exact .leave hloops h
  · obtain ⟨done, hsent, hdone⟩ := h.split
    refine .busy ⟨tunnelId, .gathering (s.outbox.take maxTunnelBatchFrames)⟩ ?_ hdraining ?_
      ⟨h.addressed, h.indexed, done, ?_, hdone⟩
    · show s.loops.set 0 _ = _
      rw [hloops]
      rfl
    · show ¬ s.outbox.take maxTunnelBatchFrames = []
      rw [List.take_eq_nil_iff, not_or]
      exact ⟨by decide, hempty⟩
    · show s.sent = done ++ (s.outbox.take maxTunnelBatchFrames ++
        s.outbox.drop maxTunnelBatchFrames)
      rw [List.take_append_drop]
      exact hsent

theorem Guarded.sends {loop : Loop} (hloops : s.loops = [loop]) (hdraining : s.draining = true)
    {later : List (List Entry)}
    (hformed : ∀ chunk ∈ later, chunk ≠ []) (h : s.Accounts later.flatten) (tunnelId : Str) :
    (s.sends 0 tunnelId later).Guarded := by
  cases later with
  | nil => exact .next hloops hdraining h tunnelId
  | cons chunk later =>
    refine .busy ⟨tunnelId, .sending chunk s.memory later⟩ ?_ hdraining hformed
      ⟨h.addressed, h.indexed, h.split⟩
    show s.loops.set 0 _ = _
    rw [hloops]
    rfl

theorem Accounts.letGo {held : List Entry} (h : s.Accounts held) : (s.letGo held).Accounts [] := by
  obtain ⟨done, hsent, hdone⟩ := h.split
  refine ⟨h.addressed, h.indexed, done ++ held, ?_, ?_⟩
  · rw [List.append_assoc, List.nil_append]
    exact hsent
  · show (done ++ held).length = s.upstream.length + (s.lost ++ held).length
    rw [List.length_append, List.length_append, hdone, Nat.add_assoc]

theorem Guarded.caught {loop : Loop} (hloops : s.loops = [loop]) (hdraining : s.draining = true)
    (h : s.Accounts [])
    (tunnelId : Str) (throws : Bool) : (s.caught 0 tunnelId throws).Guarded := by
  rw [Socket.caught]
  split_ifs
  · exact .leave hloops h
  · exact .next hloops hdraining h tunnelId

/-! ## One step -/

/-- What arrived, what was sent and what was lost. -/
def frames (s : Socket) : List (Nat × SocketFrame) × List Entry × List Entry :=
  (s.upstream, s.sent, s.lost)

@[simp] theorem next_frames (i : Nat) (tunnelId : Str) : (s.next i tunnelId).frames = s.frames := by
  rw [next]
  split_ifs <;> rfl

@[simp] theorem sends_frames (i : Nat) (tunnelId : Str) (later : List (List Entry)) :
    (s.sends i tunnelId later).frames = s.frames := by
  cases later with
  | nil => exact next_frames i tunnelId
  | cons chunk later => rfl

@[simp] theorem drain_frames (tunnelId : Str) : (s.drain tunnelId).frames = s.frames :=
  next_frames _ _

@[simp] theorem caught_frames (i : Nat) (tunnelId : Str) (throws : Bool) :
    (s.caught i tunnelId throws).frames = s.frames := by
  rw [caught]
  split_ifs
  · rfl
  · exact next_frames i tunnelId

/-- What a step does to the frames. -/
inductive Moves (s : Socket) (e : SocketEvent) (s' : Socket) : Prop
  | keeps (he : e.acknowledges = false) (h : s'.frames = s.frames)
  | sends (he : e.acknowledges = false) (entry : Entry)
      (h : s'.frames = (s.upstream, s.sent ++ [entry], s.lost))
  | loses (he : e.acknowledges = false) (held : List Entry) (hheld : s.Accounts held)
    (h : s'.frames = (s.upstream, s.sent, s.lost ++ held))
  | delivers (memory : Memory) (chunk later : List Entry)
    (hsteady : Steady s e ↔ s.lost = [] ∧ ∀ entry ∈ chunk, entry.Kept memory) (hne : chunk ≠ [])
    (hheld : s.Accounts (chunk ++ later))
    (h : s'.frames = (s.upstream ++ chunk.map (Entry.carried memory), s.sent, s.lost))

/-- The only call of `#drain`, and what it holds. -/
theorem Guarded.loop (hs : s.Guarded) {i : Nat} {loop : Loop} (h : s.loops[i]? = some loop) :
    i = 0 ∧ s.loops = [loop] ∧ s.draining = true ∧ loop.await.WellFormed ∧
    s.Accounts loop.await.entries := by
  cases hs with
  | idle hloops =>
    rw [hloops] at h
    cases h
  | busy only hloops hdraining hformed hheld =>
    rw [hloops] at h
    cases i with
    | zero =>
      cases h
      exact ⟨rfl, hloops, hdraining, hformed, hheld⟩
    | succ i => cases h

theorem Accounts.push {held : List Entry} (h : s.Accounts held) (data : Data) :
    (s.push data).Accounts held := by
  obtain ⟨done, hsent, hdone⟩ := h.split
  refine ⟨h.addressed, ?_, done, ?_, hdone⟩
  · show (s.sent ++ [_]).map Entry.index = List.range (s.sent ++ [_]).length
    rw [List.map_append, h.indexed, List.length_append, List.length_singleton, List.range_succ]
    rfl
  · show s.sent ++ _ = done ++ (held ++ (s.outbox ++ _))
    rw [← List.append_assoc held, ← List.append_assoc done, ← hsent]

theorem Guarded.push (hs : s.Guarded) (data : Data) (tunnelId : Str) :
    Guarded (if s.draining then s.push data else (s.push data).drain tunnelId) := by
  cases hs with
  | idle hloops hdraining h =>
    rw [if_neg (by rw [hdraining]; exact Bool.false_ne_true), drain]
    have hone : ((s.push data).enter tunnelId).loops = [⟨tunnelId, .gathering []⟩] := by
      show s.loops ++ [_] = [_]
      rw [hloops]
      rfl
    have hzero : (s.push data).loops.length = 0 := List.length_eq_zero_iff.2 hloops
    have haccounts : ((s.push data).enter tunnelId).Accounts [] :=
      ⟨(h.push data).addressed, (h.push data).indexed, (h.push data).split⟩
    rw [hzero]
    exact .next hone rfl haccounts tunnelId
  | busy loop hloops hdraining hformed h =>
    rw [if_pos hdraining]
    exact .busy loop hloops hdraining hformed (h.push data)

theorem Guarded.addressed (hs : s.Guarded) : s.readyState = .opened → s.tunnelId.isSome = true := by
  cases hs with
  | idle _ _ h => exact h.addressed
  | busy _ _ _ _ h => exact h.addressed

/-- The state of the socket and of the tunnel does not matter to the frames, and neither does the
memory to those already taken. -/
theorem Guarded.congr (hs : s.Guarded) {memory : Memory} {readyState : ReadyState} {aborted : Bool}
    {tunnelId : Option Str} {tunnelOpen : Bool} (haddressed : readyState = .opened →
    tunnelId.isSome = true) :
    Guarded { s with
      memory := memory, readyState := readyState, aborted := aborted,
      tunnelId := tunnelId, tunnelOpen := tunnelOpen } := by
  cases hs with
  | idle hloops hdraining h => exact .idle hloops hdraining ⟨haddressed, h.indexed, h.split⟩
  | busy loop hloops hdraining hformed h =>
    exact .busy loop hloops hdraining hformed ⟨haddressed, h.indexed, h.split⟩

theorem Accounts.deliver {chunk later : List Entry} (h : s.Accounts (chunk ++ later))
    (memory : Memory) :
    (s.deliver (chunk.map (Entry.carried memory))).Accounts later := by
  obtain ⟨done, hsent, hdone⟩ := h.split
  refine ⟨h.addressed, h.indexed, done ++ chunk, ?_, ?_⟩
  · rw [List.append_assoc, ← List.append_assoc chunk]
    exact hsent
  · show (done ++ chunk).length = (s.upstream ++ chunk.map (Entry.carried memory)).length +
      s.lost.length
    rw [List.length_append, List.length_append, List.length_map, hdone]
    omega

theorem step_send (hs : s.Guarded) {data : Data} (h : step s (.send data) = some s') : s'.Guarded ∧
    Moves s (.send data) s' := by
  unfold step at h
  dsimp only at h
  by_cases hopen : s.readyState ≠ .opened
  · rw [if_pos hopen] at h
    cases h
    exact ⟨hs, .keeps rfl rfl⟩
  · rw [if_neg hopen] at h
    obtain ⟨tunnelId, hid⟩ := Option.isSome_iff_exists.1 (hs.addressed (not_not.1 hopen))
    rw [hid] at h
    dsimp only at h
    by_cases hdetached : data.isDetached s.memory = true
    · rw [if_pos hdetached] at h
      cases h
      exact ⟨hs, .keeps rfl rfl⟩
    · rw [if_neg hdetached] at h
      cases h
      refine ⟨hs.push data tunnelId, .sends rfl (s.entry data) ?_⟩
      split_ifs
      · rfl
      · exact drain_frames tunnelId

theorem step_gathered (hs : s.Guarded) {i : Nat} (h : step s (.gathered i) = some s') : s'.Guarded ∧
    Moves s (.gathered i) s' := by
  unfold step at h
  dsimp only at h
  split at h
  · next tunnelId batch hloop =>
    cases h
    obtain ⟨rfl, hloops, hdraining, hformed, hheld⟩ := hs.loop hloop
    have hflatten : (chunks s.memory batch).flatten = batch := Batches.flatten_pack batch
    have hchunks : ∀ chunk ∈ chunks s.memory batch, chunk ≠ [] := fun chunk hchunk =>
      (Batches.fits_of_mem_pack hchunk).1
    refine ⟨.sends hloops hdraining hchunks ?_ tunnelId, .keeps rfl (sends_frames ..)⟩
    rw [hflatten]
    exact hheld
  · cases h

theorem step_rejected (hs : s.Guarded) {i : Nat} {throws : Bool}
    (h : step s (.rejected i throws) = some s') :
    s'.Guarded ∧ Moves s (.rejected i throws) s' := by
  unfold step at h
  dsimp only at h
  split at h
  · next tunnelId batch hloop =>
    split_ifs at h
    cases h
    obtain ⟨rfl, hloops, hdraining, _, hheld⟩ := hs.loop hloop
    exact ⟨.caught (s := s.letGo batch) hloops hdraining hheld.letGo tunnelId throws,
      .loses rfl batch hheld (caught_frames ..)⟩
  · cases h

theorem step_failed (hs : s.Guarded) {i : Nat} {throws : Bool}
    (h : step s (.failed i throws) = some s') :
    s'.Guarded ∧ Moves s (.failed i throws) s' := by
  unfold step at h
  dsimp only at h
  split at h
  · next tunnelId chunk memory later hloop =>
    cases h
    obtain ⟨rfl, hloops, hdraining, _, hheld⟩ := hs.loop hloop
    exact ⟨.caught (s := s.letGo _) hloops hdraining hheld.letGo tunnelId throws, .loses rfl _ hheld
      (caught_frames ..)⟩
  · cases h

theorem step_acknowledged (hs : s.Guarded) {i : Nat} {requestId bindingToken : Str}
    (h : step s (.acknowledged i requestId bindingToken) = some s') :
    s'.Guarded ∧ Moves s (.acknowledged i requestId bindingToken) s' := by
  unfold step at h
  dsimp only at h
  split at h
  · next tunnelId chunk memory later hloop =>
    have hsteady : Steady s (.acknowledged i requestId bindingToken) ↔
        s.lost = [] ∧ ∀ entry ∈ chunk, entry.Kept memory := by
      simp only [Steady, Unchanged, hloop]
    split_ifs at h
    obtain ⟨frames, hframes, rfl⟩ := Option.map_eq_some_iff.1 h
    obtain ⟨rfl, hloops, hdraining, hformed, hheld⟩ := hs.loop hloop
    rw [tunnelSend_eq hframes]
    have hguarded :=
      Guarded.sends (s := s.deliver (chunk.map (Entry.carried memory))) hloops hdraining
      (fun c hc => hformed c (List.mem_cons_of_mem _ hc)) (hheld.deliver memory) tunnelId
    have hne : chunk ≠ [] := hformed chunk List.mem_cons_self
    exact ⟨hguarded, .delivers memory chunk later.flatten hsteady hne hheld (sends_frames ..)⟩
  · cases h

/-- What one step does; the guard of `#drain` is kept. -/
theorem step_cases (hs : s.Guarded) {e : SocketEvent} (h : step s e = some s') : s'.Guarded ∧
    Moves s e s' := by
  cases e with
  | write id bs =>
    cases h
    exact ⟨hs.congr hs.addressed, .keeps rfl rfl⟩
  | connect requestId =>
    unfold step at h
    dsimp only at h
    split_ifs at h
    cases h
    exact ⟨hs.congr fun _ => rfl, .keeps rfl rfl⟩
  | registered | unregistered =>
    cases h
    exact ⟨hs.congr hs.addressed, .keeps rfl rfl⟩
  | accepted =>
    unfold step at h
    dsimp only at h
    split_ifs at h with hid hopen <;> cases h
    · exact ⟨hs, .keeps rfl rfl⟩
    · exact ⟨hs.congr fun _ => Option.isSome_iff_ne_none.2 hid, .keeps rfl rfl⟩
  | send data => exact step_send hs h
  | gathered i => exact step_gathered hs h
  | rejected i throws => exact step_rejected hs h
  | acknowledged i requestId bindingToken => exact step_acknowledged hs h
  | failed i throws => exact step_failed hs h
  | close =>
    unfold step at h
    dsimp only at h
    split_ifs at h <;> cases h
    · exact ⟨hs, .keeps rfl rfl⟩
    · exact ⟨hs.congr fun h => (by cases h), .keeps rfl rfl⟩
  | ended =>
    cases h
    exact ⟨hs.congr fun h => (by cases h), .keeps rfl rfl⟩

/-! ## Runs -/

/-- The frames arrived in order so far, and no later frame than those was let go before them. -/
structure InOrder (s : Socket) : Prop where
  arrived : s.upstream = (s.sent.take s.upstream.length).map Entry.arrival
  before_lost : ∀ e ∈ s.lost, s.upstream.length ≤ e.index

theorem Guarded.accounts (hs : s.Guarded) : ∃ held, s.Accounts held := by
  cases hs with
  | idle _ _ h => exact ⟨[], h⟩
  | busy loop _ _ _ h => exact ⟨loop.await.entries, h⟩

theorem Guarded.length_le (hs : s.Guarded) : s.upstream.length ≤ s.sent.length := by
  obtain ⟨held, haccounts⟩ := hs.accounts
  obtain ⟨done, hsent, hdone⟩ := haccounts.split
  rw [hsent, List.length_append, hdone, Nat.add_assoc]
  exact Nat.le_add_right _ _

theorem frames_eq {upstream : List (Nat × SocketFrame)} {sent lost : List Entry}
    (h : s.frames = (upstream, sent, lost)) :
    s.upstream = upstream ∧ s.sent = sent ∧ s.lost = lost := by
  cases h
  exact ⟨rfl, rfl, rfl⟩

theorem InOrder.step (hs : s.Guarded) (horder : s.InOrder) {e : SocketEvent} (hsteady : Steady s e)
    (h : Moves s e s') : s'.InOrder := by
  obtain ⟨harrived, hlost⟩ := horder
  cases h with
  | keeps _ h =>
    obtain ⟨hu, hse, hl⟩ := frames_eq h
    rw [← hu, ← hse] at harrived
    rw [← hu, ← hl] at hlost
    exact ⟨harrived, hlost⟩
  | sends _ entry h =>
    obtain ⟨hu, hse, hl⟩ := frames_eq h
    constructor
    · rw [hu, hse, List.take_append_of_le_length hs.length_le]
      exact harrived
    · rw [hu, hl]
      exact hlost
  | loses _ held hheld h =>
    obtain ⟨hu, hse, hl⟩ := frames_eq h
    constructor
    · rw [hu, hse]
      exact harrived
    · rw [hu, hl]
      intro e he
      rcases List.mem_append.1 he with he | he
      · exact hlost e he
      · have hindex : e.index ∈ held.map Entry.index := List.mem_map_of_mem he
        rw [hheld.held_index, List.mem_range'_1] at hindex
        exact (Nat.le_add_right _ _).trans hindex.1
  | delivers memory chunk later hiff hne hheld h =>
    obtain ⟨hu, hse, hl⟩ := frames_eq h
    obtain ⟨done, hsent, hdone⟩ := hheld.split
    obtain ⟨hnone, hkept⟩ := hiff.1 hsteady
    have hcarried : chunk.map (Entry.carried memory) = chunk.map Entry.arrival :=
      List.map_congr_left fun e he => Entry.carried_eq_iff.2 (hkept e he)
    rw [hcarried] at hu
    rw [hnone, List.length_nil, Nat.add_zero] at hdone
    have hlength : s'.upstream.length = (done ++ chunk).length := by
      rw [hu, List.length_append, List.length_append, List.length_map, hdone]
    constructor
    · have hdones : s.upstream = done.map Entry.arrival := by
        rw [harrived, hsent, ← hdone, List.take_left]
      rw [hlength, hse, hsent, List.append_assoc chunk, ← List.append_assoc done, List.take_left,
        List.map_append, hu, hdones]
    · rw [hl, hnone]
      exact fun e he => absurd he List.not_mem_nil

theorem map_fst_arrival (es : List Entry) : (es.map Entry.arrival).map Prod.fst =
    es.map Entry.index := by
  rw [List.map_map]
  rfl

theorem map_fst_carried (memory : Memory) (es : List Entry) :
    (es.map (Entry.carried memory)).map Prod.fst = es.map Entry.index := by
  rw [List.map_map]
  rfl

theorem Guarded.numbered (hs : s.Guarded) (h : s.upstream <+: s.sent.map Entry.arrival) :
    s.upstream.map Prod.fst = List.range s.upstream.length := by
  obtain ⟨held, haccounts⟩ := hs.accounts
  have hfst := h.map Prod.fst
  rw [map_fst_arrival, haccounts.indexed, List.prefix_iff_eq_take, List.length_map, List.take_range,
    min_eq_left hs.length_le] at hfst
  exact hfst

theorem InOrder.keepsOrder (hs : s.Guarded) (h : s.InOrder) : s.KeepsOrder := by
  have hinitial : s.upstream <+: s.sent.map Entry.arrival := by
    rw [h.arrived, List.map_take]
    exact List.take_prefix _ _
  have hnumbered := hs.numbered hinitial
  refine ⟨hinitial, ?_, ?_⟩
  · refine List.Nodup.of_map Prod.fst ?_
    rw [hnumbered]
    exact List.nodup_range
  · intro e he arrived harrived
    have hmem : arrived.1 ∈ s.upstream.map Prod.fst := List.mem_map_of_mem harrived
    rw [hnumbered, List.mem_range] at hmem
    exact hmem.trans_le (h.before_lost e he)

/-- Some frame arrived out of turn, or other than it was sent. -/
def OutOfTurn (s : Socket) : Prop := ¬ s.upstream <+: s.sent.map Entry.arrival

theorem Moves.grows {e : SocketEvent} (h : Moves s e s') :
    (∃ arrivals, s'.upstream = s.upstream ++ arrivals) ∧ ∃ entries, s'.sent = s.sent ++
    entries := by
  cases h with
  | keeps _ h =>
    exact ⟨⟨[], by rw [(frames_eq h).1, List.append_nil]⟩,
      [], by rw [(frames_eq h).2.1, List.append_nil]⟩
  | sends _ entry h => exact ⟨⟨[], by rw [(frames_eq h).1, List.append_nil]⟩, _, (frames_eq h).2.1⟩
  | loses _ held _ h =>
    exact ⟨⟨[], by rw [(frames_eq h).1, List.append_nil]⟩,
      [], by rw [(frames_eq h).2.1, List.append_nil]⟩
  | delivers _ chunk later _ _ _ h =>
    exact ⟨⟨_, (frames_eq h).1⟩, [], by rw [(frames_eq h).2.1, List.append_nil]⟩

theorem range_append {arrived arrivals : List (Nat × SocketFrame)}
    (h : (arrived ++ arrivals).map Prod.fst = List.range (arrived ++ arrivals).length) :
    arrivals.map Prod.fst = List.range' arrived.length arrivals.length := by
  rw [List.map_append, List.length_append, List.range_add] at h
  obtain ⟨_, harrivals⟩ := List.append_inj h (by simp)
  refine harrivals.trans ?_
  rw [List.range'_eq_map_range]

theorem OutOfTurn.of_moves (hs : s.Guarded) {e : SocketEvent} (h : Moves s e s')
    (hout : s.OutOfTurn) : s'.OutOfTurn := by
  obtain ⟨⟨arrivals, harrivals⟩, entries, hentries⟩ := h.grows
  intro hinitial
  rw [harrivals, hentries, List.map_append] at hinitial
  refine hout (List.prefix_of_prefix_length_le ((List.prefix_append _ _).trans hinitial)
    (List.prefix_append _ _) ?_)
  rw [List.length_map]
  exact hs.length_le

/-- The frames of a chunk that arrive in turn, as they were sent, were not changed, and none was let
go before them. -/
theorem prefix_keeps_steady {memory : Memory} {chunk later : List Entry} (hs' : s'.Guarded)
    (hne : chunk ≠ [])
    (hheld : s.Accounts (chunk ++ later))
    (h : s'.frames = (s.upstream ++ chunk.map (Entry.carried memory), s.sent, s.lost))
    (hinitial : s'.upstream <+: s'.sent.map Entry.arrival) : s.lost = [] ∧ ∀ entry ∈ chunk,
        entry.Kept memory := by
  have hnumbered := hs'.numbered hinitial
  obtain ⟨hu, hse, -⟩ := frames_eq h
  rw [hu] at hnumbered hinitial
  have hindex : chunk.map Entry.index = List.range' s.upstream.length chunk.length := by
    rw [← map_fst_carried memory, range_append hnumbered, List.length_map]
  have hlost : s.lost = [] := by
    have hcounted := hheld.held_index
    cases chunk with
    | nil => exact absurd rfl hne
    | cons first chunk =>
      -- the first index of the chunk counts the frames that were let go, too
      have hfirst := (List.cons.inj hindex).1
      rw [List.cons_append, List.map_cons, List.length_cons, List.range'_succ,
        List.cons.injEq] at hcounted
      rw [hfirst] at hcounted
      exact List.length_eq_zero_iff.1 (Nat.left_eq_add.1 hcounted.1)
  refine ⟨hlost, ?_⟩
  obtain ⟨done, hsent, hdone⟩ := hheld.split
  rw [hlost, List.length_nil, Nat.add_zero] at hdone
  obtain ⟨rest, hrest⟩ := hinitial
  rw [hse, hsent, List.map_append, List.append_assoc, List.append_assoc chunk,
    List.map_append] at hrest
  have hchunk := (List.append_inj hrest (by rw [List.length_map, hdone])).2
  have hcarried := (List.append_inj hchunk (by rw [List.length_map, List.length_map])).1
  intro entry hentry
  exact Entry.carried_eq_iff.1 (List.map_inj_left.1 hcarried entry hentry)

/-- A frame that arrives after one was let go is out of turn. -/
theorem outOfTurn_of_not_steady (hs' : s'.Guarded) {e : SocketEvent} (h : Moves s e s')
    (hunsteady : ¬ Steady s e) :
    s'.OutOfTurn := by
  have hacknowledges : e.acknowledges = true := by
    cases e with
    | acknowledged => rfl
    | _ => exact absurd trivial hunsteady
  cases h with
  | keeps he => exact absurd hacknowledges (by rw [he]; exact Bool.false_ne_true)
  | sends he => exact absurd hacknowledges (by rw [he]; exact Bool.false_ne_true)
  | loses he => exact absurd hacknowledges (by rw [he]; exact Bool.false_ne_true)
  | delivers memory chunk later hiff hne hheld h =>
    exact fun hinitial => hunsteady (hiff.2 (prefix_keeps_steady hs' hne hheld h hinitial))

/-- A frame that arrived out of turn stays so. -/
theorem OutOfTurn.run (hs : s.Guarded) (hout : s.OutOfTurn) {es : List SocketEvent}
    (h : runAlong step Any s es = some s') :
    ¬ s'.KeepsOrder := by
  induction es generalizing s with
  | nil =>
    cases h
    exact fun h => hout h.initial
  | cons e es ih =>
    rw [Machine.runAlong_cons trivial] at h
    obtain ⟨s₁, he, hrest⟩ := Option.bind_eq_some_iff.1 h
    obtain ⟨hs₁, hmoves⟩ := step_cases hs he
    exact ih hs₁ (hout.of_moves hs hmoves) hrest

theorem runAlong_iff (hs : s.Guarded) (horder : s.InOrder) {es : List SocketEvent}
    (h : runAlong step Any s es = some s') :
    s'.KeepsOrder ↔ runAlong step Steady s es = some s' := by
  induction es generalizing s with
  | nil =>
    cases h
    exact iff_of_true (horder.keepsOrder hs) rfl
  | cons e es ih =>
    rw [Machine.runAlong_cons trivial] at h
    obtain ⟨s₁, he, hrest⟩ := Option.bind_eq_some_iff.1 h
    obtain ⟨hs₁, hmoves⟩ := step_cases hs he
    by_cases hsteady : Steady s e
    · rw [Machine.runAlong_cons hsteady, he, Option.bind_some]
      exact ih hs₁ (horder.step hs hsteady hmoves) hrest
    · rw [Machine.runAlong_cons_of_not hsteady]
      exact iff_of_false (OutOfTurn.run hs₁ (outOfTurn_of_not_steady hs₁ hmoves hsteady) hrest)
        (fun h => by cases h)

end Socket

/-- After any run the frames that reached the upstream socket are a prefix of those sent, exactly
when no invocation of the run went through after the `catch` of `#drain` had let frames go, and none
with a buffer that was changed between `send` and the encoding. -/
theorem keepsOrder_iff {es : List SocketEvent} {s : Socket}
    (h : runAlong Socket.step Any {} es = some s) :
    s.KeepsOrder ↔ runAlong Socket.step Socket.Steady {} es = some s := by
  have hguarded : ({} : Socket).Guarded :=
    .idle rfl rfl ⟨fun h => (by cases h), rfl, [], rfl, rfl⟩
  exact Socket.runAlong_iff hguarded ⟨rfl, fun e he => absurd he List.not_mem_nil⟩ h

/-- Two keys are typed, and both arrive. -/
def Socket.typed : List SocketEvent :=
  [.connect (Str.ofString "tunnel"), .registered, .accepted, .send (.text [97]), .send (.text [98]),
    .gathered 0,
    .acknowledged 0 (Str.ofString "request") (Str.ofString "token"), .gathered 0,
    .acknowledged 0 (Str.ofString "request") (Str.ofString "token")]

theorem typed_keepsOrder : ∃ s, runAlong Socket.step Any {} Socket.typed = some s ∧ s.KeepsOrder ∧
    s.upstream.length = 2 := by
  have hrun : (runAlong Socket.step Socket.Steady {} Socket.typed).map
    (fun s => s.upstream.length) = some 2 := by decide +kernel
  obtain ⟨s, hsteady, hlength⟩ := Option.map_eq_some_iff.1 hrun
  have hs : runAlong Socket.step Any {} Socket.typed = some s := Machine.runAlong_any hsteady
  exact ⟨s, hs, (keepsOrder_iff hs).2 hsteady, hlength⟩

namespace Socket

/-- Two keys are typed; the invocation with the first one fails, and the second one goes through. -/
def skips : List SocketEvent :=
  [.connect (Str.ofString "tunnel"), .registered, .accepted, .send (.text [97]), .gathered 0,
    .failed 0 false,
    .send (.text [98]), .gathered 0, .acknowledged 0 (Str.ofString "request")
    (Str.ofString "token")]

end Socket

theorem skips_loses_order :
    ¬ ∀ (es : List SocketEvent) (s : Socket), runAlong Socket.step Any {} es = some s →
    s.KeepsOrder := by
  intro h
  have hrun : (runAlong Socket.step Any {} Socket.skips).map
    (fun s => (s.lost.map Entry.index, s.upstream)) =
      some ([0], [(1, .text [98])]) := by decide +kernel
  obtain ⟨s, hs, hframes⟩ := Option.map_eq_some_iff.1 hrun
  have hlost : s.lost.map Entry.index = [0] := congrArg Prod.fst hframes
  have hupstream : s.upstream = [(1, .text [98])] := congrArg Prod.snd hframes
  obtain ⟨e, he, hindex⟩ := List.mem_map.1 (hlost ▸ List.mem_singleton_self 0)
  have hbefore := (h Socket.skips s hs).before_lost e he
  rw [hindex, hupstream] at hbefore
  exact absurd (hbefore _ List.mem_cons_self) (by decide)

end KiroCrew.Shell
