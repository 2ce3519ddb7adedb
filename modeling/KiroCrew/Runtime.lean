import KiroCrew.Lib.Machine

/-!
# Checkpoints inside one container

An initialized runtime process: the gateway process group, the readiness flags the transport's gate
reads, the checkpoint lock and the checkpoint attempts. An attempt is a call of
`_commit_checkpoint`; it waits for the lock, publishes the schedule, asks for the next generation
and runs `CheckpointEngine.checkpoint` in a worker thread, then sends the receipt. Its stage is what
it does next, and each stage is an event of its own that succeeds (`advance`) or raises (`fail`).
Cancelling the awaiting coroutine releases the lock but not the worker thread, which runs on
(`detached`).

`accepted` records that the broker accepted the receipt of a final checkpoint. The program does not
keep it.
-/

namespace KiroCrew.Runtime

inductive Gateway
  | running
  /-- `SIGSTOP` was sent to the process group. -/
  | stopped
  | exited
deriving DecidableEq, Repr

/-- `supervisor.pause`; `none` is the `GatewayExitedError`. -/
def Gateway.pause : Gateway → Option Gateway
  | .exited => none
  | .running | .stopped => some .stopped

/-- `supervisor.resume`; `none` is the `GatewayExitedError`. -/
def Gateway.resume : Gateway → Option Gateway
  | .exited => none
  | .running | .stopped => some .running

inductive Origin
  /-- A `sandbox.prepare_stop` request. -/
  | prepareStop
  /-- A tick of `run_periodic_checkpoints`. -/
  | periodic
  /-- `_schedule_durability_checkpoint` after a login, a logout or the end of background work. -/
  | scheduled
  /-- `checkpoint_on_shutdown` -/
  | shutdown
deriving DecidableEq, Repr

def Origin.final : Origin → Bool
  | .prepareStop | .shutdown => true
  | .periodic | .scheduled => false

/-- What an attempt does next. -/
inductive Stage
  | lock | publish | number
  | pause | flush | build
  /-- The `resume` of a checkpoint that is not final. -/
  | release
  | chunks | manifest | commit | localState | journal
  | receipt
deriving DecidableEq, Repr

/-- The stage is part of `CheckpointEngine.checkpoint`. -/
def Stage.engine : Stage → Bool
  | .lock | .publish | .number | .receipt => false
  | .pause | .flush | .build | .release | .chunks | .manifest | .commit | .localState | .journal =>
    true

/-- The stage that follows; `none` after the receipt. -/
def Stage.next (final : Bool) : Stage → Option Stage
  | .lock => some .publish
  | .publish => some .number
  | .number => some .pause
  | .pause => some .flush
  | .flush => some .build
  | .build => some (if final then .chunks else .release)
  | .release => some .chunks
  | .chunks => some .manifest
  | .manifest => some .commit
  | .commit => some .localState
  | .localState => some .journal
  | .journal => some .receipt
  | .receipt => none

structure Attempt where
  origin : Origin
  stage : Stage := .lock
  detached : Bool := false
deriving DecidableEq, Repr

/-- `paused and (not final or not completed)` of the engine: an exception now resumes the gateway.
(The engine's own `_read_only` flag is read by nothing in the runtime.) -/
def Attempt.paused (a : Attempt) : Bool :=
  match a.stage with
  | .flush | .build | .release => true
  | .chunks | .manifest | .commit | .localState | .journal => a.origin.final
  | .lock | .publish | .number | .pause | .receipt => false

/-- How a request reaches the adapter. -/
inductive Channel
  /-- An HTTP invocation. -/
  | invocation
  /-- A new WebSocket, which starts with `connection.hello`. -/
  | hello
  /-- A WebSocket whose `connection.hello` was accepted before. -/
  | socket
deriving DecidableEq, Repr

end Runtime

/-- A runtime process after its `initialize` succeeded. -/
structure Runtime where
  gateway : Runtime.Gateway := .running
  restoreComplete : Bool := true
  loopbackReady : Bool := true
  readOnly : Bool := false
  lock : Option Nat := none
  attempts : Nat → Option Runtime.Attempt := fun _ => none
  accepted : Bool := false

namespace Runtime

def healthy (r : Runtime) : Bool := r.restoreComplete && r.loopbackReady && !r.readOnly

/-- A request of this session reaches the backend. `initialize` returns at once in an initialized
process and touches no flag; then `_assert_ready` decides, once for each invocation or WebSocket. -/
def admits (r : Runtime) : Channel → Bool
  | .invocation | .hello => r.healthy
  | .socket => true

inductive Event
  | prepareStop (id : Nat) (channel : Channel)
  | periodic (id : Nat)
  | schedule (id : Nat)
  | shutdown (id : Nat)
  | advance (id : Nat)
  | fail (id : Nat)
  /-- The broker accepts the receipt, its response is lost. -/
  | lose (id : Nat)
  | cancel (id : Nat)
  /-- The gateway dies or is terminated. -/
  | exit
  /-- `ensure_gateway`, with the outcome of `supervisor.start` if it is called. -/
  | ensureGateway (started : Bool)
deriving DecidableEq, Repr

def put (r : Runtime) (id : Nat) (a : Option Attempt) : Runtime :=
  { r with attempts := Function.update r.attempts id a }

/-- The lock after the coroutine of an attempt has left `_commit_checkpoint`. -/
def unlock (r : Runtime) (id : Nat) : Runtime :=
  { r with lock := if r.lock = some id then none else r.lock }

/-- A new attempt queues for the lock. -/
def enqueue (r : Runtime) (id : Nat) (origin : Origin) : Option Runtime :=
  if r.attempts id = none then some (r.put id (some { origin := origin })) else none

/-- The attempt is over and its coroutine has returned. -/
def finish (r : Runtime) (id : Nat) : Runtime := (r.put id none).unlock id

/-- An exception in the attempt: the engine's `finally`, then the caller's `except`. -/
def raised (r : Runtime) (id : Nat) (a : Attempt) : Runtime :=
  { r.finish id with
    gateway := if a.paused then r.gateway.resume.getD r.gateway else r.gateway
    readOnly := r.readOnly || (a.origin = .prepareStop && !a.detached) }

/-- The stage succeeds. -/
def advanced (r : Runtime) (id : Nat) (a : Attempt) : Option Runtime :=
  match a.stage with
  | .lock =>
    if r.lock = none then some { r.put id (some { a with stage := .publish }) with lock := some id }
      else none
  | .pause => r.gateway.pause.map fun g =>
    { r.put id (some { a with stage := .flush }) with gateway := g }
  | .release => r.gateway.resume.map fun g =>
    { r.put id (some { a with stage := .chunks }) with gateway := g }
  | .journal =>
    -- a worker thread whose coroutine is gone sends no receipt
    if a.detached then some (r.put id none) else some (r.put id (some { a with stage := .receipt }))
  | .receipt => some { r.finish id with accepted := r.accepted || a.origin.final }
  | .publish | .number | .flush | .build | .chunks | .manifest | .commit | .localState =>
    some (r.put id ((a.stage.next a.origin.final).map fun s => { a with stage := s }))

/-- The coroutine is cancelled: a running worker thread stays, anything else is gone. -/
def cancelled (r : Runtime) (id : Nat) (a : Attempt) : Runtime :=
  if a.stage.engine ∨ a.stage = .receipt then
    (r.put id (some { a with detached := true })).unlock id
  else r.finish id

def step (r : Runtime) : Event → Option Runtime
  | .prepareStop id channel => if r.admits channel then r.enqueue id .prepareStop else some r
  | .periodic id => if r.readOnly then some r else r.enqueue id .periodic
  | .schedule id => r.enqueue id .scheduled
  | .shutdown id => r.enqueue id .shutdown
  | .advance id => (r.attempts id).bind (r.advanced id)
  | .fail id => (r.attempts id).bind fun a => if a.stage = .lock then none else some (r.raised id a)
  | .lose id => (r.attempts id).bind fun a =>
      if a.stage = .receipt then some { r.raised id a with
          accepted := r.accepted || a.origin.final } else none
  | .cancel id => (r.attempts id).bind fun a => if a.detached then none else some (r.cancelled id a)
  | .exit => some { r with gateway := .exited }
  | .ensureGateway started =>
    if r.gateway ≠ .exited then some r
    else if started then some { r with gateway := .running, loopbackReady := true }
    else some { r with loopbackReady := false }

/-- A container that has just become ready. -/
def init : Runtime := {}

def Reachable (r : Runtime) : Prop := Machine.Reaches step Machine.Any init r

variable {r r' : Runtime} {e : Event} {id i : Nat} {a b : Attempt}

@[simp] theorem put_attempts (r : Runtime) (id : Nat) (a : Option Attempt) (i : Nat) :
    (r.put id a).attempts i = if i = id then a else r.attempts i := by
  simp [put, Function.update_apply]

@[simp] theorem put_gateway (r : Runtime) (id : Nat) (a : Option Attempt) :
    (r.put id a).gateway = r.gateway := rfl
@[simp] theorem put_readOnly (r : Runtime) (id : Nat) (a : Option Attempt) :
    (r.put id a).readOnly = r.readOnly := rfl
@[simp] theorem unlock_attempts (r : Runtime) (id : Nat) : (r.unlock id).attempts = r.attempts :=
  rfl
@[simp] theorem unlock_gateway (r : Runtime) (id : Nat) : (r.unlock id).gateway = r.gateway := rfl
@[simp] theorem unlock_readOnly (r : Runtime) (id : Nat) : (r.unlock id).readOnly = r.readOnly :=
  rfl

theorem Gateway.resume_ne_stopped {g : Gateway} : g.resume.getD g ≠ .stopped := by
  cases g <;> simp [Gateway.resume]

theorem Gateway.pause_eq_some {g g' : Gateway} (h : g.pause = some g') : g' = .stopped := by
  cases g <;> simp_all [Gateway.pause]

/-- What an event does to the gateway and to the attempts; `none` in the place of an attempt is its
end. -/
inductive Change (r : Runtime) : Event → Runtime → Prop
  | enqueued {e : Event} {id : Nat} {origin : Origin} {r' : Runtime} (hnew : r.attempts id = none)
      (hput : r' = r.put id (some { origin := origin })) : Change r e r'
  | moved {id : Nat} {a : Attempt} {next : Option Stage} {r' : Runtime}
      (ha : r.attempts id = some a)
      (hnot : a.stage ≠ .pause ∧ a.stage ≠ .release) (hnext : ∀ s, next = some s →
        a.stage.next a.origin.final = some s)
      (hattempts : r'.attempts = Function.update r.attempts id
        (next.map fun s => { a with stage := s }))
      (hgateway : r'.gateway = r.gateway) (hreadOnly : r'.readOnly = r.readOnly) :
        Change r (.advance id) r'
  | paused {id : Nat} {a : Attempt} {r' : Runtime} (ha : r.attempts id = some a)
      (hstage : a.stage = .pause)
      (hattempts : r'.attempts = Function.update r.attempts id (some { a with stage := .flush }))
      (hgateway : r'.gateway = .stopped) (hreadOnly : r'.readOnly = r.readOnly) :
        Change r (.advance id) r'
  | released {id : Nat} {a : Attempt} {g : Gateway} {r' : Runtime} (ha : r.attempts id = some a)
      (hstage : a.stage = .release)
      (hattempts : r'.attempts = Function.update r.attempts id (some { a with stage := .chunks }))
      (hresume : r.gateway.resume = some g) (hgateway : r'.gateway = g)
        (hreadOnly : r'.readOnly = r.readOnly) :
      Change r (.advance id) r'
  | raised {e : Event} {id : Nat} {a : Attempt} {r' : Runtime} (he : e = .fail id ∨ e = .lose id)
      (ha : r.attempts id = some a) (hattempts : r'.attempts = Function.update r.attempts id none)
      (hgateway : r'.gateway = if a.paused then r.gateway.resume.getD r.gateway else r.gateway)
      (hreadOnly : r'.readOnly = (r.readOnly || (a.origin = .prepareStop && !a.detached))) :
        Change r e r'
  | cancelled {id : Nat} {a : Attempt} {a' : Option Attempt} {r' : Runtime}
      (ha : r.attempts id = some a)
      (hdetached : ∀ b, a' = some b → b = { a with detached := true })
      (hattempts : r'.attempts = Function.update r.attempts id a')
        (hgateway : r'.gateway = r.gateway)
      (hreadOnly : r'.readOnly = r.readOnly) : Change r (.cancel id) r'
  | exited : Change r .exit { r with gateway := .exited }
  | restarted {r' : Runtime} {started : Bool} (hexited : r.gateway = .exited)
      (hattempts : r'.attempts = r.attempts)
      (hgateway : r'.gateway = if started then .running else .exited)
        (hreadOnly : r'.readOnly = r.readOnly) :
      Change r (.ensureGateway started) r'
  | same {e : Event} : Change r e r

theorem enqueue_change {origin : Origin} (h : r.enqueue id origin = some r') : Change r e r' := by
  unfold enqueue at h
  split at h
  · next hnew => exact .enqueued hnew (by simpa using h.symm)
  · simp at h

theorem advanced_change (ha : r.attempts id = some a) (h : r.advanced id a = some r') :
    Change r (.advance id) r' := by
  unfold advanced at h
  split at h
  · next hs =>
    split at h
    · obtain rfl := Option.some.inj h
      exact @Change.moved _ id a (some .publish) _ ha (by simp [hs])
        (by simp [hs, Stage.next]) rfl rfl rfl
    · simp at h
  · next hs =>
    obtain ⟨g, hg, rfl⟩ := Option.map_eq_some_iff.1 h
    exact .paused ha hs rfl (Gateway.pause_eq_some hg) rfl
  · next hs =>
    obtain ⟨g, hg, rfl⟩ := Option.map_eq_some_iff.1 h
    exact .released ha hs rfl hg rfl rfl
  · next hs =>
    split at h <;> obtain rfl := Option.some.inj h
    · exact @Change.moved _ id a none _ ha (by simp [hs]) (by simp) rfl rfl rfl
    · exact @Change.moved _ id a (some .receipt) _ ha (by simp [hs])
        (by simp [hs, Stage.next]) rfl rfl rfl
  · next hs =>
    obtain rfl := Option.some.inj h
    exact @Change.moved _ id a none _ ha (by simp [hs]) (by simp) rfl rfl rfl
  all_goals
    next hs =>
      obtain rfl := Option.some.inj h
      exact @Change.moved _ id a (a.stage.next a.origin.final) _ ha (by simp [hs])
        (fun s hs => hs) rfl rfl rfl

theorem step_change (h : r.step e = some r') : Change r e r' := by
  cases e with
  | prepareStop id channel =>
    simp only [step] at h
    split at h
    · exact enqueue_change h
    · obtain rfl := Option.some.inj h; exact .same
  | periodic id =>
    simp only [step] at h
    split at h
    · obtain rfl := Option.some.inj h; exact .same
    · exact enqueue_change h
  | schedule id | shutdown id => exact enqueue_change h
  | advance id =>
    obtain ⟨a, ha, h⟩ := Option.bind_eq_some_iff.1 h
    exact advanced_change ha h
  | fail id =>
    obtain ⟨a, ha, h⟩ := Option.bind_eq_some_iff.1 h
    split at h
    · simp at h
    · obtain rfl := Option.some.inj h
      exact .raised (.inl rfl) ha rfl rfl rfl
  | lose id =>
    obtain ⟨a, ha, h⟩ := Option.bind_eq_some_iff.1 h
    split at h
    · obtain rfl := Option.some.inj h
      exact .raised (.inr rfl) ha rfl rfl rfl
    · simp at h
  | cancel id =>
    obtain ⟨a, ha, h⟩ := Option.bind_eq_some_iff.1 h
    split at h
    · simp at h
    · obtain rfl := Option.some.inj h
      unfold cancelled
      split
      · exact @Change.cancelled _ id a (some { a with detached := true }) _ ha (by simp) rfl rfl rfl
      · exact @Change.cancelled _ id a none _ ha (by simp) rfl rfl rfl
  | exit =>
    obtain rfl := Option.some.inj h
    exact .exited
  | ensureGateway started =>
    simp only [step] at h
    split at h
    · obtain rfl := Option.some.inj h; exact .same
    · next hg =>
      have hexited : r.gateway = .exited := by simpa using hg
      split at h <;> obtain rfl := Option.some.inj h
      · next hs => exact .restarted hexited rfl (by simp [hs]) rfl
      · next hs => exact .restarted hexited rfl (by simp [hs, hexited]) rfl

/-- Only a checkpoint that is not final comes to the stage that resumes the gateway on success. -/
def Inv (r : Runtime) : Prop :=
  ∀ i a, r.attempts i = some a → a.stage = .release → a.origin.final = false

theorem Inv.update {a' : Option Attempt} (h : Inv r)
    (hattempts : r'.attempts = Function.update r.attempts id a')
    (hnew : ∀ b, a' = some b → b.stage = .release → b.origin.final = false) : Inv r' := by
  intro i b hb hs
  rw [hattempts, Function.update_apply] at hb
  split at hb
  · exact hnew b hb hs
  · exact h i b hb hs

theorem Stage.next_release {s : Stage} {final : Bool} (h : s.next final = some .release) :
    final = false := by
  cases s <;> cases final <;> simp_all [Stage.next]

theorem Inv.step (h : Inv r) (he : r.step e = some r') : Inv r' := by
  cases step_change he with
  | enqueued _ hput => exact h.update (by rw [hput]; rfl) (by rintro b ⟨⟩; simp)
  | @moved id a next _ ha _ hnext hattempts =>
    refine h.update hattempts fun b hb hs => ?_
    obtain ⟨s, hs', rfl⟩ := Option.map_eq_some_iff.1 hb
    have := hnext s hs'
    simp only at hs
    subst hs
    exact Stage.next_release this
  | paused _ _ hattempts | released _ _ hattempts => exact h.update hattempts (by rintro b ⟨⟩; simp)
  | raised _ _ hattempts => exact h.update hattempts (by simp)
  | @cancelled id a a' _ ha hdetached hattempts =>
    refine h.update hattempts fun b hb hs => ?_
    obtain rfl := hdetached b hb
    exact h id a ha hs
  | exited | same => exact h
  | restarted _ hattempts => intro i b hb; exact h i b (hattempts ▸ hb)

theorem Reachable.inv (h : Reachable r) : Inv r :=
  Machine.Reaches.invariant (fun _ _ _ hs _ he => hs.step he) h (by intro i a ha; simp [init] at ha)

end Runtime

end KiroCrew
