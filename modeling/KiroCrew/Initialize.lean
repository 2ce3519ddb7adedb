import KiroCrew.Lib.Act
import KiroCrew.Lib.Machine

/-!
# Initializing a session

`AwsSessionInitializer.initialize` claims the record, restores, starts the gateway, publishes READY,
and only then configures the backend and remembers the session; the health check and the background
tasks come after that. What the services and the gateway do during a call is its `World`. A call
that fails before the process is bound leaves it free for another one, provided that the
runtime-session token it keeps is of that session; one that fails after it leaves it bound and
read-only, and every later invocation is turned away (`retriable_iff`, `stuck_run`).
-/

namespace KiroCrew.Initializer

structure Identity where
  cognitoSubject : String
  sandboxId : String
  runtimeSessionId : String
deriving DecidableEq, Repr

/-- A binding token or a runtime-session token, by what its claims name. -/
structure Token where
  sandboxId : String
  runtimeSessionId : String
deriving DecidableEq, Repr

def Identity.token (i : Identity) : Token := ⟨i.sandboxId, i.runtimeSessionId⟩

inductive Fault
  /-- `SessionInitializationError` -/
  | session (message : String)
  /-- `SandboxRecordConflictError` -/
  | conflict
  /-- `BrokerRefusalError` -/
  | refusal
  /-- Any other exception, by its type. -/
  | other (type : String)
deriving DecidableEq, Repr

inductive Failure
  /-- `InitOwnershipError`, which only `acquire_init` raises. -/
  | ownership (message : String)
  | fault (fault : Fault)
deriving DecidableEq, Repr

structure Metadata where
  runtimeSessionId : String
  lastCheckpointGeneration : Option Nat
deriving DecidableEq, Repr

inductive RestoreOutcome
  | initialized | local | restored | fallback | failed
deriving DecidableEq, Repr

structure Report where
  outcome : RestoreOutcome
  generation : Option Nat
  attemptedGenerations : List Nat
deriving DecidableEq, Repr

/-- What a call meets: the broker's answers to a token that names the session, and the gateway. -/
structure World where
  read : Except Fault Metadata
  acquireInit : Except Failure Unit
  dataKey : Except Fault Unit
  /-- The generations that are committed, in order. -/
  committed : Except Fault (List Nat)
  restore : Except Fault Report
  start : Except Fault Unit
  readyAfterStart : Bool
  markReady : Except Fault Unit
  /-- The gateway is still there at the final health check. -/
  alive : Bool
  leaseTask : Except Fault Unit
  /-- Where the tool gateway is configured. -/
  toolTask : Option (Except Fault Unit)
  /-- Where a team repository is configured. -/
  teamTask : Option (Except Fault Unit)
  markError : Except Fault Unit
  healReady : Except Fault Unit

/-- `LambdaBrokerClient`, with the generation its receipts descend from. -/
structure Client where
  token : Token
  baseGeneration : Nat
deriving DecidableEq, Repr

/-- The initializer, its state store, the backend, the readiness flags and the supervisor. -/
structure Process where
  bindingToken : Option Token := none
  sessionToken : Option Token := none
  initializedSession : Option Identity := none
  brokerClient : Option Client := none
  /-- What `configure` was given. -/
  backend : Option Client := none
  restoreComplete : Bool := false
  loopbackReady : Bool := false
  readOnly : Bool := false
  initializing : Bool := false
  /-- `supervisor.ready` -/
  gateway : Bool := false
  leaseHeartbeat : Bool := false
  toolRefresh : Bool := false
  teamRefresh : Bool := false
  /-- `SIGTERM` has been sent. -/
  exiting : Bool := false
deriving DecidableEq, Repr

abbrev Action (α : Type) := Act Process Failure α

def Process.healthy (p : Process) : Bool := p.restoreComplete && p.loopbackReady && !p.readOnly

/-! ## The program -/

def modify (f : Process → Process) : Action Unit := fun p => (f p, .ok ())

def fault {α : Type} (x : Except Fault α) : Action α := Act.ofExcept (x.mapError .fault)

def raiseSession {α : Type} (message : String) : Action α := Act.raise (.fault (.session message))

/-- `_call` of the state store: the runtime-session token goes before the binding token, and the
broker refuses one that names another sandbox or session. -/
def storeCall {α : Type} (i : Identity) (answer : Except Failure α) : Action α := fun p =>
  match p.sessionToken.or p.bindingToken with
  | none => (p, .error (.fault (.session "Sandbox binding is unavailable.")))
  | some token => (p, if token = i.token then answer else .error (.fault .refusal))

/-- `read` and `acquire_init` -/
def claim (w : World) (i : Identity) : Action Metadata := do
  let metadata ← storeCall i (w.read.mapError .fault)
  if metadata.runtimeSessionId ≠ i.runtimeSessionId then
    raiseSession "Sandbox runtime session changed."
  else do
    storeCall i w.acquireInit
    modify fun p => { p with sessionToken := some i.token }
    pure metadata

/-- The data key, the committed generations and the restore. -/
def recover (w : World) (expected : Option Nat) : Except Fault Report :=
  match w.dataKey, w.committed with
  | .error e, _ => .error e
  | .ok _, .error e => .error e
  | .ok _, .ok committed =>
    if expected.any fun generation => committed.getLast?.all (· < generation) then
      .error (.other "RestoreError") else w.restore

/-- `supervisor.start`, and the check after it. -/
def boot (w : World) : Action Unit := fun p =>
  if p.gateway then (p, .error (.fault (.other "GatewayError")))
  else
    match w.start with
    | .error e => (p, .error (.fault e))
    | .ok _ =>
      ({ p with gateway := w.readyAfterStart },
        if w.readyAfterStart then .ok ()
        else .error (.fault (.session "Loopback gateway did not become ready.")))

/-- `_initialize_sync` -/
def initializeSync (w : World) (i : Identity) : Action (Client × Report) := do
  let metadata ← claim w i
  let report ← fault (recover w metadata.lastCheckpointGeneration)
  boot w
  storeCall i (w.markReady.mapError .fault)
  pure (⟨i.token, report.attemptedGenerations.foldl max (report.generation.getD 0)⟩, report)

/-- `backend.configure` -/
def configure (client : Client) : Action Unit := fun p =>
  if p.backend.isSome then
    (p, .error (.fault (.session "Runtime checkpoint backend is already configured.")))
  else ({ p with backend := some client }, .ok ())

def startTask (task : Except Fault Unit) (f : Process → Process) : Action Unit := do
  fault task
  modify f

/-- The lease heartbeat, and the refresh of the tool token and of the team repository where these
are configured. -/
def startTasks (w : World) : Action Unit := do
  startTask w.leaseTask fun p => { p with leaseHeartbeat := true }
  w.toolTask.elim (pure ()) fun task => startTask task fun p => { p with toolRefresh := true }
  w.teamTask.elim (pure ()) fun task => startTask task fun p => { p with teamRefresh := true }

/-- What follows once the session is remembered. -/
def checkReady (w : World) (report : Report) : Action Unit := do
  let healthy ← Act.look Process.healthy
  if healthy = false ∨ report.outcome = .failed then raiseSession "Sandbox did not become ready."
    else startTasks w

/-- The body of the `try` statement. -/
def bindSession (w : World) (i : Identity) : Action Unit := do
  let x ← initializeSync w i
  configure x.1
  modify fun p => { p with
    brokerClient := some x.1
    initializedSession := some i
    restoreComplete := true
    gateway := p.gateway && w.alive
    loopbackReady := p.gateway && w.alive
    readOnly := false }
  checkReady w x.2

/-- The `except` clauses. -/
def initializationFailed (w : World) (i : Identity) : Failure → Action Unit
  | .ownership message => do
    modify fun p => { p with readOnly := true }
    raiseSession message
  | .fault e => do
    modify fun p => { p with readOnly := true }
    Act.attempt (storeCall i (w.markError.mapError .fault)) fun _ => pure ()
    modify fun p => { p with gateway := false }
    raiseSession (match e with
      | .session message => message
      | _ => "Authoritative sandbox restore or gateway startup failed.")

/-- `_exit_if_superseded`: the record names another session than the one the process is bound to. -/
def exitIfSuperseded (w : World) (bound i : Identity) : Action Unit := do
  if bound.cognitoSubject ≠ i.cognitoSubject ∨ bound.sandboxId ≠ i.sandboxId then pure ()
  else
    Act.attempt (do
      let metadata ← storeCall bound (w.read.mapError .fault)
      if metadata.runtimeSessionId = bound.runtimeSessionId then pure ()
      else modify fun p => { p with gateway := false, exiting := true }) fun _ => pure ()

/-- `initialize`: the invocation carries a binding token of its session. -/
def initializeSession (w : World) (i : Identity) : Action Unit := do
  modify fun p => { p with bindingToken := some i.token }
  let bound ← Act.look Process.initializedSession
  let client ← Act.look Process.brokerClient
  match bound with
  | some session =>
    if session ≠ i ∨ client = none then do
      exitIfSuperseded w session i
      raiseSession "Runtime process is already bound to another sandbox session."
    else do
      let healthy ← Act.look Process.healthy
      if healthy then
        Act.attempt (storeCall i (w.healReady.mapError .fault)) fun e =>
          if e = .fault .conflict then pure () else Act.raise e
      else pure ()
  | none => do
    modify fun p => { p with
        restoreComplete := false
        loopbackReady := false
        readOnly := true
        initializing := true }
    Act.always (Act.attempt (bindSession w i) (initializationFailed w i))
      (modify fun p => { p with initializing := false })

inductive Response
  | admitted
  /-- 503 `KIROCREW_UNAVAILABLE` -/
  | unavailable
  /-- 503 `PERSISTENCE_RESTORE_FAILED` -/
  | restoreFailed
  | internalError
deriving DecidableEq, Repr

/-- `_invocations` up to `_assert_ready`, after the authorization. -/
def invocation (w : World) (i : Identity) (p : Process) : Process × Response :=
  match initializeSession w i p with
  | (p', .ok _) => (p', if p'.healthy then .admitted else .unavailable)
  | (p', .error (.fault (.session _))) => (p', .restoreFailed)
  | (p', .error _) => (p', .internalError)

inductive Event
  | invoke (w : World) (i : Identity)
  | gatewayExits
  /-- `ensure_gateway`, with whether the start succeeds. -/
  | ensureGateway (started : Bool)
  /-- The final checkpoint of a stop fails. -/
  | stopFails
  /-- The lease heartbeat is refused. -/
  | superseded

def step (p : Process) : Event → Option Process
  | .invoke w i => some (invocation w i p).1
  | .gatewayExits => some { p with gateway := false }
  | .ensureGateway started =>
    if p.backend.isSome ∧ p.gateway = false then
      some { p with gateway := started, loopbackReady := started }
    else some p
  | .stopFails => if p.backend.isSome then some { p with readOnly := true } else none
  | .superseded =>
    if p.leaseHeartbeat then some { p with gateway := false, exiting := true } else none

def Reachable (p : Process) : Prop := Machine.Reaches step Machine.Any {} p

/-! ## How far a call gets -/

/-- The token that a call on the process uses first. -/
def Process.held (p : Process) (i : Identity) : Token := p.sessionToken.getD i.token

section
variable {w : World} {i : Identity} {p : Process} {held : Token} {α : Type}

/-- It claims the record with this token, and adopts a runtime-session token. -/
def World.claims (w : World) (held : Token) (i : Identity) : Bool :=
  held = i.token &&
    (match w.read with
      | .ok metadata => metadata.runtimeSessionId = i.runtimeSessionId
      | .error _ => false) &&
    w.acquireInit.toBool

/-- The checkpoint can be restored. -/
def World.recovers (w : World) : Bool :=
  match w.read with
  | .ok metadata => (recover w metadata.lastCheckpointGeneration).toBool
  | .error _ => false

/-- Nothing fails up to and including `markReady`. -/
def World.binds (w : World) (held : Token) (i : Identity) : Bool :=
  w.claims held i && w.recovers && w.start.toBool && w.readyAfterStart && w.markReady.toBool

/-- Nor after it. -/
def World.lives (w : World) : Bool :=
  w.alive && (match w.restore with | .ok report => report.outcome ≠ .failed | .error _ => false) &&
    w.leaseTask.toBool &&
    w.toolTask.all Except.toBool && w.teamTask.all Except.toBool

/-- The runtime-session token it leaves. -/
def World.tokenAfter (w : World) (p : Process) (held : Token) (i : Identity) : Option Token :=
  if w.claims held i then some i.token else p.sessionToken

theorem storeCall_run (h : p.sessionToken.or p.bindingToken = some held)
    (answer : Except Failure α) :
    storeCall i answer p = (p, if held = i.token then answer else .error (.fault .refusal)) := by
  rw [storeCall, h]

theorem claim_run (h : p.sessionToken.or p.bindingToken = some held) :
    (w.claims held i = true ∧ ∃ metadata, w.read = .ok metadata ∧
      claim w i p = ({ p with sessionToken := some i.token }, .ok metadata)) ∨
    (w.claims held i = false ∧ ∃ e, claim w i p = (p, .error e)) := by
  unfold claim
  by_cases heq : held = i.token
  · cases hread : w.read with
    | error e =>
      refine .inr ⟨by simp [World.claims, hread], .fault e, Act.bind_of_error ?_⟩
      rw [storeCall_run h, if_pos heq]
      rfl
    | ok metadata =>
      have hcall : storeCall i ((Except.ok metadata : Except Fault Metadata).mapError .fault) p =
          (p, .ok metadata) := by
        rw [storeCall_run h, if_pos heq]
        rfl
      by_cases hsession : metadata.runtimeSessionId = i.runtimeSessionId
      · cases hacquire : w.acquireInit with
        | error e =>
          refine .inr ⟨by simp [World.claims, hacquire, Except.toBool], e,
            (Act.bind_of_ok hcall).trans ?_⟩
          rw [if_neg (not_not_intro hsession)]
          refine Act.bind_of_error ?_
          rw [storeCall_run h, if_pos heq]
        | ok u =>
          refine .inl ⟨by simp [World.claims, heq, hread, hsession, hacquire, Except.toBool],
            metadata, rfl, (Act.bind_of_ok hcall).trans ?_⟩
          rw [if_neg (not_not_intro hsession)]
          refine (@Act.bind_of_ok _ _ _ _ _ _ _ _ u ?_).trans rfl
          rw [storeCall_run h, if_pos heq]
      · refine .inr ⟨by simp [World.claims, hread, hsession],
          .fault (.session "Sandbox runtime session changed."), (Act.bind_of_ok hcall).trans ?_⟩
        rw [if_pos hsession]
        rfl
  · refine .inr ⟨by simp [World.claims, heq], .fault .refusal, Act.bind_of_error ?_⟩
    rw [storeCall_run h, if_neg heq]

theorem boot_run (h : p.gateway = false) :
    (w.start.toBool && w.readyAfterStart) = true ∧ boot w p = ({ p with gateway := true }, .ok ()) ∨
    (w.start.toBool && w.readyAfterStart) = false ∧ ∃ e, boot w p = (p, .error (.fault e)) := by
  cases hstart : w.start with
  | error e =>
    refine .inr ⟨rfl, e, ?_⟩
    simp [boot, h, hstart]
  | ok u =>
    cases hready : w.readyAfterStart with
    | true =>
      refine .inl ⟨rfl, ?_⟩
      simp [boot, h, hstart, hready]
    | false =>
      refine .inr ⟨rfl, .session "Loopback gateway did not become ready.", ?_⟩
      simp [boot, h, hstart, hready]
      rw [← h]

theorem restore_of_recover {expected : Option Nat} {report : Report}
    (h : recover w expected = .ok report) : w.restore = .ok report := by
  unfold recover at h
  split at h
  · cases h
  · cases h
  · split at h
    · cases h
    · exact h

/-- It returns with the gateway up, or raises before the process is bound. -/
theorem initializeSync_run (h : p.sessionToken.or p.bindingToken = some held)
    (hgateway : p.gateway = false) :
    (w.binds held i = true ∧ ∃ client report, w.restore = .ok report ∧
      initializeSync w i p = ({ p with sessionToken := some i.token, gateway := true },
      .ok (client, report))) ∨
    (w.binds held i = false ∧ ∃ gateway e, (∀ message, e = .ownership message → gateway = false) ∧
      initializeSync w i p = ({ p with sessionToken := w.tokenAfter p held i, gateway := gateway },
      .error e)) := by
  unfold initializeSync
  rcases claim_run (w := w) (i := i) h with ⟨hclaims, metadata, hread, hrun⟩ | ⟨hclaims, e, hrun⟩
  · have hafter : w.tokenAfter p held i = some i.token := by simp [World.tokenAfter, hclaims]
    have hrecovers : w.recovers = (recover w metadata.lastCheckpointGeneration).toBool := by
      simp [World.recovers, hread]
    rw [Act.bind_of_ok hrun, hafter]
    cases hrecover : recover w metadata.lastCheckpointGeneration with
    | error e =>
      refine .inr ⟨by simp [World.binds, hrecovers, hrecover, Except.toBool], false,
        .fault e, fun _ _ => rfl, ?_⟩
      rw [← hgateway]
      exact Act.bind_of_error rfl
    | ok report =>
      have hfault : fault (Except.ok report) { p with sessionToken := some i.token } =
        ({ p with sessionToken := some i.token }, .ok report) := rfl
      rw [Act.bind_of_ok hfault]
      rcases boot_run (w := w) (p := { p with sessionToken := some i.token }) hgateway with
        ⟨hboot, hrun⟩ | ⟨hboot, e, hrun⟩
      · have hcall : storeCall i (w.markReady.mapError .fault)
          { p with sessionToken := some i.token, gateway := true } =
            ({ p with sessionToken := some i.token, gateway := true },
            w.markReady.mapError .fault) := by
          have hheld : ({ p with sessionToken := some i.token, gateway := true } :
              Process).sessionToken.or p.bindingToken = some i.token := rfl
          rw [storeCall_run hheld, if_pos rfl]
        rw [Act.bind_of_ok hrun]
        cases hmark : w.markReady with
        | error e =>
          rw [hmark] at hcall
          refine .inr ⟨by simp [World.binds, hmark, Except.toBool], true, .fault e, fun _ hown =>
            (by cases hown), ?_⟩
          exact Act.bind_of_error hcall
        | ok u =>
          rw [hmark] at hcall
          have hstart : w.start.toBool = true ∧ w.readyAfterStart = true := by simpa using hboot
          refine .inl ⟨?_, _, report, restore_of_recover hrecover, (Act.bind_of_ok hcall).trans rfl⟩
          rw [World.binds, hclaims, hrecovers, hrecover, hstart.1, hstart.2, hmark]
          rfl
      · refine .inr ⟨?_, false, .fault e, fun _ _ => rfl, ?_⟩
        · have hstart : w.start.toBool = true → w.readyAfterStart = false := by simpa using hboot
          simp only [World.binds, Bool.and_eq_false_iff]
          by_cases hs : w.start.toBool = true
          · exact .inl (.inr (hstart hs))
          · exact .inl (.inl (.inr (by simpa using hs)))
        · rw [← hgateway]
          exact Act.bind_of_error hrun
  · refine .inr ⟨by simp [World.binds, hclaims], false, e, fun _ _ => rfl, ?_⟩
    rw [World.tokenAfter, if_neg (by simp [hclaims]), ← hgateway]
    exact Act.bind_of_error hrun

theorem startTasks_run : ∃ lease tool team,
    (w.leaseTask.toBool && w.toolTask.all Except.toBool && w.teamTask.all Except.toBool) = true ∧
      startTasks w p = ({ p with leaseHeartbeat := lease, toolRefresh := tool,
                                 teamRefresh := team }, .ok ()) ∨
    (w.leaseTask.toBool && w.toolTask.all Except.toBool && w.teamTask.all Except.toBool) = false ∧
      ∃ e, startTasks w p = ({ p with leaseHeartbeat := lease, toolRefresh := tool,
                                      teamRefresh := team }, .error (.fault e)) := by
  unfold startTasks startTask
  rcases hlease : w.leaseTask with e | _
  · exact ⟨p.leaseHeartbeat, p.toolRefresh, p.teamRefresh, .inr ⟨rfl, e, rfl⟩⟩
  · rcases htool : w.toolTask with _ | e | _
    · rcases hteam : w.teamTask with _ | e | _
      · exact ⟨true, p.toolRefresh, p.teamRefresh, .inl ⟨rfl, rfl⟩⟩
      · exact ⟨true, p.toolRefresh, p.teamRefresh, .inr ⟨rfl, e, rfl⟩⟩
      · exact ⟨true, p.toolRefresh, true, .inl ⟨rfl, rfl⟩⟩
    · exact ⟨true, p.toolRefresh, p.teamRefresh, .inr ⟨rfl, e, rfl⟩⟩
    · rcases hteam : w.teamTask with _ | e | _
      · exact ⟨true, true, p.teamRefresh, .inl ⟨rfl, rfl⟩⟩
      · exact ⟨true, true, p.teamRefresh, .inr ⟨rfl, e, rfl⟩⟩
      · exact ⟨true, true, true, .inl ⟨rfl, rfl⟩⟩

theorem checkReady_run {report : Report} (hhealthy : p.healthy = w.alive)
    (hrestore : w.restore = .ok report) : ∃ lease tool team,
    w.lives = true ∧ checkReady w report p =
      ({ p with leaseHeartbeat := lease, toolRefresh := tool, teamRefresh := team }, .ok ()) ∨
    w.lives = false ∧
      ∃ e, checkReady w report p =
        ({ p with leaseHeartbeat := lease, toolRefresh := tool, teamRefresh := team },
      .error (.fault e)) := by
  have hlook : (Act.look Process.healthy : Action Bool) p = (p, .ok w.alive) := by
    rw [← hhealthy]; rfl
  have hlives : w.lives = (w.alive && decide (report.outcome ≠ .failed) &&
      (w.leaseTask.toBool && w.toolTask.all Except.toBool && w.teamTask.all Except.toBool)) := by
    simp [World.lives, hrestore, Bool.and_assoc]
  unfold checkReady
  rw [Act.bind_of_ok hlook, hlives]
  by_cases hbad : w.alive = false ∨ report.outcome = .failed
  · refine ⟨p.leaseHeartbeat, p.toolRefresh, p.teamRefresh,
      .inr ⟨?_, .session "Sandbox did not become ready.", ?_⟩⟩
    · rcases hbad with halive | hfailed
      · simp [halive]
      · simp [hfailed]
    · rw [if_pos hbad]
      rfl
  · rw [if_neg hbad]
    have hok : (w.alive && decide (report.outcome ≠ .failed)) = true := by simpa [not_or] using hbad
    rw [hok, Bool.true_and]
    exact startTasks_run

/-- The process once it is bound, up to its background tasks. -/
def Process.bound (p : Process) (w : World) (i : Identity) (client : Client) : Process :=
  { p with
    sessionToken := some i.token
    brokerClient := some client
    backend := some client
    initializedSession := some i
    restoreComplete := true
    gateway := w.alive
    loopbackReady := w.alive
    readOnly := false }

theorem bindSession_run (h : p.sessionToken.or p.bindingToken = some held)
    (hgateway : p.gateway = false) (hbackend : p.backend = none) :
    (w.binds held i = true ∧ ∃ client lease tool team,
      let p' :=
      { p.bound w i client with leaseHeartbeat := lease, toolRefresh := tool, teamRefresh := team }
      w.lives = true ∧ bindSession w i p = (p', .ok ()) ∨ w.lives = false ∧
        ∃ e, bindSession w i p = (p', .error (.fault e))) ∨
    (w.binds held i = false ∧ ∃ gateway e, (∀ message, e = .ownership message → gateway = false) ∧
      bindSession w i p = ({ p with sessionToken := w.tokenAfter p held i, gateway := gateway },
      .error e)) := by
  unfold bindSession
  rcases initializeSync_run (w := w) (i := i) h hgateway with
    ⟨hbinds, client, report, hrestore, hrun⟩ | ⟨hbinds, gateway, e, hown, hrun⟩
  · refine .inl ⟨hbinds, client, ?_⟩
    have hconfigure : configure client { p with sessionToken := some i.token, gateway := true } =
        ({ p with sessionToken := some i.token, gateway := true, backend := some client },
        .ok ()) := by
      simp [configure, hbackend]
    rw [Act.bind_of_ok hrun, Act.bind_of_ok hconfigure]
    exact checkReady_run (p := p.bound w i client)
      (by simp [Process.bound, Process.healthy]) hrestore
  · exact .inr ⟨hbinds, gateway, e, hown, Act.bind_of_error hrun⟩

theorem attempt_pure (x : Action Unit) (p : Process) : Act.attempt x (fun _ => pure ()) p =
    ((x p).1, .ok ()) := by
  unfold Act.attempt
  rcases x p with ⟨p', e | u⟩
  · rfl
  · rfl

theorem storeCall_fst (i : Identity) (answer : Except Failure α) (p : Process) :
    (storeCall i answer p).1 = p := by
  unfold storeCall
  split
  · rfl
  · rfl

/-- The handlers raise, with the process read-only and its gateway down. -/
theorem initializationFailed_run {e : Failure} (h : ∀ message, e = .ownership message →
    p.gateway = false) :
    ∃ message, initializationFailed w i e p =
      ({ p with readOnly := true, gateway := false }, .error (.fault (.session message))) := by
  cases e with
  | ownership message =>
    refine ⟨message, ?_⟩
    rw [← h message rfl]
    rfl
  | fault e =>
    have hmark : ∀ q : Process, Act.attempt (storeCall i (w.markError.mapError .fault))
        (fun _ => pure ()) q = (q, .ok ()) := by
      intro q
      rw [attempt_pure, storeCall_fst]
    show ∃ message, (do
      modify fun p => { p with readOnly := true }
      Act.attempt (storeCall i (w.markError.mapError .fault)) fun _ => pure ()
      modify fun p => { p with gateway := false }
      raiseSession (match e with
        | .session message => message
        | _ => "Authoritative sandbox restore or gateway startup failed.") : Action Unit) p = _
    rw [Act.bind_of_ok (x := modify _) rfl, Act.bind_of_ok (hmark _)]
    exact ⟨_, rfl⟩

/-- What a call on a free process leaves of it when it does not bind it. -/
def Process.freed (p : Process) (w : World) (i : Identity) : Process :=
  { p with
    bindingToken := some i.token
    sessionToken := w.tokenAfter p (p.held i) i
    restoreComplete := false
    loopbackReady := false
    readOnly := true
    initializing := false
    gateway := false }

/-- A call on a process that is not bound: it binds it and returns, binds it and raises, or leaves
it free. -/
theorem initializeSession_new (hnew : p.initializedSession = none) (hbackend : p.backend = none)
    (hgateway : p.gateway = false) :
    (w.binds (p.held i) i = true ∧ ∃ client lease tool team,
      let p' : Process := { p.bound w i client with
        bindingToken := some i.token, leaseHeartbeat := lease, toolRefresh := tool,
        teamRefresh := team, initializing := false }
      w.lives = true ∧ initializeSession w i p = (p', .ok ()) ∨
      w.lives = false ∧ ∃ message,
        initializeSession w i p =
          ({ p' with readOnly := true, gateway := false }, .error (.fault (.session message)))) ∨
    (w.binds (p.held i) i = false ∧ ∃ message, initializeSession w i p =
        (p.freed w i, .error (.fault (.session message)))) := by
  let q : Process := { p with bindingToken := some i.token }
  let r : Process := { q with
      restoreComplete := false
      loopbackReady := false
      readOnly := true
      initializing := true }
  have hset : (modify fun p => { p with bindingToken := some i.token } : Action Unit) p =
    (q, .ok ()) := rfl
  have hclosed : (modify fun p => { p with
      restoreComplete := false
      loopbackReady := false
      readOnly := true
      initializing := true } :
      Action Unit) q = (r, .ok ()) := rfl
  have hlook : (Act.look Process.initializedSession : Action (Option Identity)) q =
      (q, .ok none) := by
    rw [Act.look_apply, ← hnew]
  have hheld : r.sessionToken.or r.bindingToken = some (p.held i) := by
    show p.sessionToken.or (some i.token) = some (p.sessionToken.getD i.token)
    cases p.sessionToken with
    | none => rfl
    | some token => rfl
  have hrun : initializeSession w i p =
      Act.always (Act.attempt (bindSession w i) (initializationFailed w i))
      (modify fun p => { p with initializing := false }) r := by
    unfold initializeSession
    rw [Act.bind_of_ok hset, Act.bind_of_ok hlook, Act.bind_of_ok (x := Act.look _) rfl]
    exact Act.bind_of_ok hclosed
  rw [hrun]
  unfold Act.always Act.attempt
  rcases bindSession_run (w := w) (i := i) (p := r) hheld hgateway hbackend with
    ⟨hbinds, client, lease, tool, team, hrest⟩ | ⟨hbinds, gateway, e, hown, hbind⟩
  · refine .inl ⟨hbinds, client, lease, tool, team, ?_⟩
    rcases hrest with ⟨hlives, hbind⟩ | ⟨hlives, e, hbind⟩
    · rw [hbind]
      exact .inl ⟨hlives, rfl⟩
    · rw [hbind]
      obtain ⟨message, hfailed⟩ := initializationFailed_run (w := w) (i := i) (e := .fault e)
        (p := { r.bound w i client with leaseHeartbeat := lease, toolRefresh := tool,
                                        teamRefresh := team }) nofun
      refine .inr ⟨hlives, message, ?_⟩
      simp only [hfailed]
      rfl
  · rw [hbind]
    obtain ⟨message, hfailed⟩ := initializationFailed_run (w := w) (i := i) (e := e)
      (p := { r with sessionToken := w.tokenAfter r (p.held i) i, gateway := gateway }) hown
    refine .inr ⟨hbinds, message, ?_⟩
    simp only [hfailed]
    rfl

theorem exitIfSuperseded_run (bound : Identity) : ∃ gateway exiting,
    exitIfSuperseded w bound i p = ({ p with gateway := gateway, exiting := exiting }, .ok ()) := by
  unfold exitIfSuperseded
  split
  · exact ⟨p.gateway, p.exiting, rfl⟩
  · rw [attempt_pure]
    have hfst := storeCall_fst bound (w.read.mapError .fault) p
    rcases hcall : storeCall bound (w.read.mapError .fault) p with ⟨q, e | metadata⟩
    · obtain rfl : q = p := by rw [hcall] at hfst; exact hfst
      rw [Act.bind_of_error hcall]
      exact ⟨q.gateway, q.exiting, rfl⟩
    · obtain rfl : q = p := by rw [hcall] at hfst; exact hfst
      rw [Act.bind_of_ok hcall]
      split
      · exact ⟨q.gateway, q.exiting, rfl⟩
      · exact ⟨false, true, rfl⟩

/-- A call on a bound process changes little of it. -/
theorem initializeSession_bound {session : Identity}
    (hbound : p.initializedSession = some session) : ∃ gateway exiting,
    (initializeSession w i p).1 = { p with
        bindingToken := some i.token
        gateway := gateway
        exiting := exiting } := by
  let q : Process := { p with bindingToken := some i.token }
  have hlook : (Act.look Process.initializedSession : Action (Option Identity)) q =
      (q, .ok (some session)) := by
    rw [Act.look_apply, ← hbound]
  have hset : (modify fun p => { p with bindingToken := some i.token } : Action Unit) p =
    (q, .ok ()) := rfl
  unfold initializeSession
  rw [Act.bind_of_ok hset, Act.bind_of_ok hlook, Act.bind_of_ok (x := Act.look _) rfl]
  simp only []
  split
  · obtain ⟨gateway, exiting, hrun⟩ := exitIfSuperseded_run (w := w) (i := i) (p := q) session
    rw [Act.bind_of_ok hrun]
    exact ⟨gateway, exiting, rfl⟩
  · rw [Act.bind_of_ok (x := Act.look _) rfl]
    refine ⟨p.gateway, p.exiting, ?_⟩
    split
    · have hfst := storeCall_fst i (w.healReady.mapError .fault) q
      unfold Act.attempt
      rcases hcall : storeCall i (w.healReady.mapError .fault) q with ⟨q', e | u⟩
      · rw [hcall] at hfst
        simp only []
        split
        · exact hfst
        · exact hfst
      · rw [hcall] at hfst
        exact hfst
    · rfl

end

/-! ## Runs -/

variable {p p' q : Process} {w : World} {i next : Identity} {e : Failure}

theorem invocation_fst (w : World) (i : Identity) (p : Process) :
    (invocation w i p).1 = (initializeSession w i p).1 := by
  unfold invocation
  split
  · next h => rw [h]
  · next h => rw [h]
  · next h => rw [h]

/-- A process that remembers no session has nothing left of one. -/
def Inv (p : Process) : Prop :=
  p.initializedSession = none → p.backend = none ∧ p.gateway = false ∧ p.exiting = false ∧
    p.leaseHeartbeat = false

theorem Inv.step {ev : Event} (h : Inv p) (he : step p ev = some p') : Inv p' := by
  intro hnone
  cases ev with
  | invoke w i =>
    obtain rfl := Option.some.inj he
    rw [invocation_fst] at hnone ⊢
    cases hsession : p.initializedSession with
    | some session =>
      obtain ⟨gateway, exiting, hrun⟩ := initializeSession_bound (w := w) (i := i) hsession
      rw [hrun] at hnone
      cases hsession.symm.trans hnone
    | none =>
      obtain ⟨hbackend, hgateway, hexiting, hlease⟩ := h hsession
      rcases initializeSession_new (w := w) (i := i) hsession hbackend hgateway with
        ⟨-, client, lease, tool, team, ⟨-, hrun⟩ | ⟨-, message, hrun⟩⟩ | ⟨-, message, hrun⟩
      · rw [hrun] at hnone
        cases hnone
      · rw [hrun] at hnone
        cases hnone
      · rw [hrun]
        exact ⟨hbackend, rfl, hexiting, hlease⟩
  | gatewayExits =>
    obtain rfl := Option.some.inj he
    obtain ⟨hbackend, -, hexiting, hlease⟩ := h hnone
    exact ⟨hbackend, rfl, hexiting, hlease⟩
  | ensureGateway started =>
    simp only [Initializer.step] at he
    split at he
    · next hbackend =>
      obtain rfl := Option.some.inj he
      rw [(h hnone).1] at hbackend
      cases hbackend.1
    · obtain rfl := Option.some.inj he
      exact h hnone
  | stopFails =>
    simp only [Initializer.step] at he
    split at he
    · next hbackend =>
      obtain rfl := Option.some.inj he
      rw [(h hnone).1] at hbackend
      cases hbackend
    · cases he
  | superseded =>
    simp only [Initializer.step] at he
    split at he
    · next hlease =>
      obtain rfl := Option.some.inj he
      rw [(h hnone).2.2.2] at hlease
      cases hlease
    · cases he

theorem Reachable.inv (h : Reachable p) : Inv p :=
  h.invariant (fun _ _ _ hs _ he => hs.step he) fun _ => ⟨rfl, rfl, rfl, rfl⟩

/-! ## Trying again -/

/-- An invocation of `next` whose record can be claimed, and in which nothing fails, is admitted. -/
def Completes (p : Process) (next : Identity) : Prop :=
  ∀ w : World, w.binds next.token next = true → w.lives = true →
    ∃ p', invocation w next p = (p', .admitted) ∧ p'.initializedSession = some next

/-- The process is exiting, or it is not bound and the next invocation initializes it. -/
def Retriable (p : Process) (next : Identity) : Prop :=
  p.exiting = true ∨ p.initializedSession = none ∧ p.backend = none ∧ Completes p next

/-- Nothing fails. -/
def World.serving (i : Identity) : World where
  read := .ok ⟨i.runtimeSessionId, none⟩
  acquireInit := .ok ()
  dataKey := .ok ()
  committed := .ok []
  restore := .ok ⟨.initialized, none, []⟩
  start := .ok ()
  readyAfterStart := true
  markReady := .ok ()
  alive := true
  leaseTask := .ok ()
  toolTask := none
  teamTask := none
  markError := .ok ()
  healReady := .ok ()

theorem serving_binds (i : Identity) : (World.serving i).binds i.token i = true := by
  simp [World.binds, World.claims, World.recovers, World.serving, recover, Except.toBool]

/-- A free process can serve a session unless it keeps the token of another one. -/
theorem completes_iff (hnew : p.initializedSession = none) (hbackend : p.backend = none)
    (hgateway : p.gateway = false) :
    Completes p next ↔ p.sessionToken.all (· = next.token) = true := by
  constructor
  · intro h
    obtain ⟨p', hrun, -⟩ := h (World.serving next) (serving_binds next) rfl
    cases htoken : p.sessionToken with
    | none => rfl
    | some token =>
      by_contra hother
      have hne : token ≠ next.token := by simpa using hother
      have hbinds : (World.serving next).binds (p.held next) next = false := by
        simp [World.binds, World.claims, Process.held, htoken, hne]
      rcases initializeSession_new (w := World.serving next) (i := next) hnew hbackend hgateway with
        ⟨htrue, -⟩ | ⟨-, message, hfail⟩
      · cases hbinds.symm.trans htrue
      · rw [invocation, hfail] at hrun
        cases hrun
  · intro h w hbinds hlives
    have hheld : p.held next = next.token := by
      unfold Process.held
      cases htoken : p.sessionToken with
      | none => rfl
      | some token =>
        rw [htoken] at h
        exact of_decide_eq_true h
    rcases initializeSession_new (w := w) (i := next) hnew hbackend hgateway with
      ⟨-, client, lease, tool, team, ⟨-, hrun⟩ | ⟨hdies, -⟩⟩ | ⟨hfails, -⟩
    · have halive : w.alive = true := by
        simp only [World.lives, Bool.and_eq_true] at hlives
        exact hlives.1.1.1.1
      obtain ⟨p', hhealthy, hsession, hrun⟩ : ∃ p' : Process, p'.healthy = true ∧
        p'.initializedSession = some next ∧
          initializeSession w next p = (p', .ok ()) :=
        ⟨_, by simp [Process.bound, Process.healthy, halive], rfl, hrun⟩
      exact ⟨p', by rw [invocation, hrun]; simp [hhealthy], hsession⟩
    · cases hlives.symm.trans hdies
    · rw [hheld, hbinds] at hfails
      cases hfails

/-- A call that raises leaves the process ready for the next one if and only if it fails before the
point of binding, and the runtime-session token the process then has, if any, is of the next
session. -/
theorem retriable_iff (h : Reachable p) (hnew : p.initializedSession = none)
    (he : initializeSession w i p = (p', .error e))
    (next : Identity) : Retriable p' next ↔
      w.binds (p.held i) i = false ∧ (w.tokenAfter p (p.held i) i).all (· = next.token) = true := by
  obtain ⟨hbackend, hgateway, hexiting, -⟩ := h.inv hnew
  rcases initializeSession_new (w := w) (i := i) hnew hbackend hgateway with
    ⟨hbinds, client, lease, tool, team, ⟨-, hrun⟩ | ⟨-, message, hrun⟩⟩ | ⟨hbinds, message, hrun⟩
  · rw [hrun] at he
    cases he
  · rw [hrun] at he
    obtain ⟨rfl, -⟩ := Prod.mk.inj he
    constructor
    · rintro (hexit | ⟨hnone, -⟩)
      · cases hexiting.symm.trans hexit
      · cases hnone
    · rintro ⟨hfalse, -⟩
      cases hbinds.symm.trans hfalse
  · rw [hrun] at he
    obtain ⟨rfl, -⟩ := Prod.mk.inj he
    have hcompletes : Completes (p.freed w i) next ↔ (w.tokenAfter p (p.held i) i).all
        (· = next.token) = true :=
      completes_iff hnew hbackend rfl
    rw [← hcompletes]
    constructor
    · rintro (hexit | ⟨-, -, hnext⟩)
      · cases hexiting.symm.trans hexit
      · exact ⟨hbinds, hnext⟩
    · rintro ⟨-, hnext⟩
      exact .inr ⟨hnew, hbackend, hnext⟩

/-- A process that is bound and read-only admits no invocation any more. -/
theorem stuck_run (hbound : p.initializedSession ≠ none) (hreadOnly : p.readOnly = true)
    (hrun : Machine.Reaches step Machine.Any p q) :
    (invocation w i q).2 ≠ .admitted := by
  have hkeep : ∀ r w i, r.initializedSession ≠ none ∧ r.readOnly = true →
      (initializeSession w i r).1.initializedSession ≠ none ∧
      (initializeSession w i r).1.readOnly = true := by
    intro r w i hr
    obtain ⟨session, hsession⟩ := Option.ne_none_iff_exists'.1 hr.1
    obtain ⟨gateway, exiting, heq⟩ := initializeSession_bound (w := w) (i := i) hsession
    rw [heq]
    exact hr
  have hq : q.initializedSession ≠ none ∧ q.readOnly = true := by
    refine hrun.invariant (I := fun r => r.initializedSession ≠ none ∧ r.readOnly = true)
      (fun r ev r' hr _ he => ?_) ⟨hbound, hreadOnly⟩
    cases ev with
    | invoke w i =>
      obtain rfl := Option.some.inj he
      rw [invocation_fst]
      exact hkeep r w i hr
    | gatewayExits =>
      obtain rfl := Option.some.inj he
      exact hr
    | ensureGateway started =>
      simp only [Initializer.step] at he
      split at he
      · obtain rfl := Option.some.inj he
        exact hr
      · obtain rfl := Option.some.inj he
        exact hr
    | stopFails | superseded =>
      simp only [Initializer.step] at he
      split at he
      · obtain rfl := Option.some.inj he
        exact ⟨hr.1, by first | rfl | exact hr.2⟩
      · cases he
  have hlast := (hkeep q w i hq).2
  unfold invocation
  split
  · next q' u heq =>
    rw [heq] at hlast
    have hreadOnly' : q'.readOnly = true := hlast
    simp [Process.healthy, hreadOnly']
  · nofun
  · nofun

def someone : Identity := ⟨"owner", "sbx", "session-1"⟩

theorem retriable_iff_restore : Retriable
    (initializeSession { World.serving someone with restore := .error (.other "RestoreError") }
    someone {}).1 someone :=
  (@retriable_iff _ _ _ _ _ .refl rfl rfl someone).2 ⟨by decide, by decide⟩

/-- The gateway dies between `markReady` and the health check. -/
theorem dead_gateway_binds : ¬ ∀ (p p' : Process) (w : World) (i next : Identity) (e : Failure),
    Reachable p →
    p.initializedSession = none → initializeSession w i p = (p', .error e) → Retriable p' next := by
  intro h
  have hretriable :=
    h {} _ { World.serving someone with alive := false } someone someone _ .refl rfl rfl
  rcases hretriable with hexiting | ⟨hnone, -⟩
  · revert hexiting
    decide
  · revert hnone
    decide

end KiroCrew.Initializer
