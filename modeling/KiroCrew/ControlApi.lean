import KiroCrew.Tokens
import KiroCrew.History
import KiroCrew.Lib.Program
import KiroCrew.Lib.PyText
import KiroCrew.Lib.Double

/-!
# The control API

`SandboxControlService.handle` as a program: what it asks of the table, the clock, the random
source, KMS, the runtime data plane and the memory of its Lambda instance are queries, everything
else is computed here from the event as the code does. An exception the code does not catch gives no
answer.
-/

namespace KiroCrew

open Json (Value)
open ManifestDecoder (get equalsStr)

/-! ## Queries -/

/-- A key of `_idempotency`, which belongs to one instance of the function. -/
structure MemoryKey where
  lambda : Nat
  subject : Str
  operation : String
  key : Str
deriving DecidableEq

inductive ControlQuery
  | clock
  | random
  /-- `new_sandbox_id`, for the owner the record is for -/
  | sandboxId (owner : Digest)
  | sessionId
  /-- The salt of a signature; `none` when KMS fails or gives none. -/
  | salt
  | nonce
  | owner (hash : Digest)
  | metadata (s : SandboxId)
  /-- `transact_write_items` -/
  | create (owner : Digest) (s : SandboxId) (record : SandboxRecord)
  /-- `_put_updated` -/
  | put (s : SandboxId) (previous updated : SandboxRecord)
  /-- `record_observation` -/
  | observe (s : SandboxId) (record : SandboxRecord)
  | history (s : SandboxId) (limit : Nat)
  | checkpoint (s : SandboxId) (generation : Nat)
  | checkpoints (s : SandboxId)
  /-- `none` when KMS fails -/
  | sealSubject (subject : Str) (s : SandboxId)
  /-- `record_wake_subject` -/
  | wakeSubject (s : SandboxId) (sealed : String)
  /-- `AgentCoreStopper.stop`; the status of the error, if there is one -/
  | stopRuntime (session : SessionId)
  | idempotency (key : MemoryKey)
  | remember (key : MemoryKey) (payloadHash : Str) (response : Fields)
  /-- A record operation of the broker. -/
  | brokerWrite (s : SandboxId) (call : BrokerCall)

def ControlAnswer : ControlQuery → Type
  | .clock => Instant
  | .random => Nat
  | .sandboxId _ => SandboxId
  | .sessionId => SessionId
  | .salt => Option Nat
  | .nonce => Bytes
  | .owner _ => Option SandboxId
  | .metadata _ => Option Item
  | .create .. => Bool
  | .put .. => Bool
  | .observe .. => Unit
  | .history .. => List HistoryEvent
  | .checkpoint .. => Option CheckpointItem
  | .checkpoints _ => List CheckpointItem
  | .sealSubject .. => Option String
  | .wakeSubject .. => Bool
  | .stopRuntime _ => Option Nat
  | .idempotency _ => Option (Str × Fields)
  | .remember .. => Unit
  | .brokerWrite .. => Bool

inductive ControlError
  /-- `ControlApiError` -/
  | api (status : Nat) (code category message : String) (retryable : Bool)
  /-- `SandboxUnavailableError` -/
  | unavailable
  /-- `LeaseConflictError` or `StateConflictError` -/
  | conflict (message : String)
  /-- Any other exception. -/
  | crash
deriving DecidableEq

abbrev Control := Asks ControlQuery ControlAnswer ControlError

namespace Control

def ask (q : ControlQuery) : Control (ControlAnswer q) := Asks.request q

def fail {α : Type} (status : Nat) (code category message : String) : Control α :=
  Asks.raise (.api status code category message false)

end Control

open Control (ask fail)

/-! ## The service -/

/-- `ControlConfig`, with what the other parts of the service are built from. -/
structure ControlService where
  sha : Sha256
  tokens : SignedControlTokens
  issuer : Str
  appClientId : Str
  requiredScope : Str
  administratorGroup : Str
  allowedOrigin : Str
  region : Str
  runtimeArn : Str
  qualifier : Str
  httpUrl : Str
  websocketUrl : Str
  deploymentMode : Str
  frontendCompatibilityVersion : Str
  persistedPaths : List Str
  kirocrewVersion : String
  maxStopAttempts : Nat := 4
  /-- There is a `wake_sealer`. -/
  sealsWakes : Bool

/-- `PROTOCOL_VERSION` -/
def controlProtocolVersion : Str := Str.ofString "kirocrew-agentcore.v1"

/-- `lease_ttl` in seconds -/
def startLeaseTtl : Nat := 90

structure Identity where
  subject : Str
  administrator : Bool

/-- `_timestamp` -/
def Instant.timestamp (t : Instant) : Str := t.iso.map Char.toNat

/-- A lower case ASCII character, where `str.lower` gives one. -/
def lowerUnit (c : Nat) : Nat := if 65 ≤ c ∧ c ≤ 90 then c + 32 else if c = 0x212A then 107 else c

/-- `_headers(event).get(name)` -/
def header (event : Fields) (name : String) : Option Str :=
  match get event "headers" with
  | .obj fields =>
    (fields.filterMap fun field =>
      match field.2 with
      | .str value => if field.1.map lowerUnit = Str.ofString name then some value else none
      | _ => none).getLast?
  | _ => none

/-- `value.split()` -/
def splitWords (value : Str) : List Str :=
  (value.splitOnP PyText.isWhite).filter fun word => !word.isEmpty

/-- `_CORRELATION_ALPHABET`, the alphabet of the sandbox ids -/
def correlationAlphabet : Str := Str.ofString "0123456789ABCDEFGHJKMNPQRSTVWXYZ"

def correlationText (value : Nat) : Str :=
  (List.range 26).reverse.map fun shift => correlationAlphabet.getD (value / 2 ^ (5 * shift) % 32) 0

/-- `requestContext`, `{}` where it is no object -/
def requestContext (event : Fields) : Fields :=
  match get event "requestContext" with
  | .obj context => context
  | _ => []

/-- `_claims_from_event` -/
def claimsFromEvent (context : Fields) : Option Fields :=
  match get context "authorizer" with
  | .obj authorizer =>
    match get authorizer "jwt" with
    | .obj jwt =>
      match get jwt "claims" with
      | .obj claims => some claims
      | _ => none
    | _ => none
  | _ => none

namespace ControlService

variable (svc : ControlService)

/-- `_owner_hash` -/
def ownerHash (subject : Str) : Option Digest :=
  (Bytes.encodeUtf8 (Str.ofString "kirocrew-owner-v1" ++ [0] ++ subject)).map fun bs =>
    svc.sha.hexdigest (bs.map UInt8.ofNat)

/-- The `exp` claim as it is compared: digits are read. -/
def expires (claims : Fields) : Except ControlError Value :=
  match get claims "exp" with
  | .str text =>
    if !text.isEmpty && text.all Json.isDigit then
      match PyText.readInt text with
      | some i => .ok (.int i)
      | none => .error .crash
    else .ok (.str text)
  | v => .ok v

def authenticationFailed (message : String) : ControlError :=
  .api 401 "AUTHENTICATION_FAILED" "AUTHENTICATION" message false

/-- `validate`, at a time `now` -/
def validate (claims : Option Fields) (now : Instant) : Except ControlError Identity :=
  match claims with
  | none => .error (authenticationFailed "Authentication is required.")
  | some claims =>
    match expires claims with
    | .error e => .error e
    | .ok expires =>
      let client := (Value.get claims (Str.ofString "client_id")).getD (get claims "aud")
      let invalid : Except ControlError Identity :=
        .error (authenticationFailed "Authentication claims are invalid.")
      match get claims "sub", get claims "scope", expires with
      | .str subject, .str scopes, .int i =>
        if (!subject.isEmpty && equalsStr (get claims "iss") svc.issuer &&
          equalsStr client svc.appClientId &&
            equalsStr (get claims "token_use") (Str.ofString "access")) = false then invalid
        else valid claims subject scopes (.int i) now
      | .str subject, .str scopes, .float text =>
        if (!subject.isEmpty && equalsStr (get claims "iss") svc.issuer &&
          equalsStr client svc.appClientId &&
            equalsStr (get claims "token_use") (Str.ofString "access")) = false then invalid
        else valid claims subject scopes (.double (.ofText text)) now
      | _, _, _ => invalid
where
  /-- The checks of the time and of the scope. -/
  valid (claims : Fields) (subject scopes : Str) (expires : Json.Number) (now : Instant) :
      Except ControlError Identity :=
    match expires.toDouble with
    | none => .error .crash
    | some expires =>
      let timestamp := Double.ofRat ((now.micros : ℚ) / 1000000)
      if expires.lt timestamp = true ∨
        expires = timestamp then .error (authenticationFailed "Authentication has expired.")
      else if svc.requiredScope ∉ splitWords scopes then
        .error (.api 403 "AUTHORIZATION_FAILED" "AUTHORIZATION"
          "The required scope is missing." false)
      else
        .ok { subject := subject
              administrator :=
                match get claims "cognito:groups" with
                | .arr groups => groups.any fun group => equalsStr group svc.administratorGroup
                | _ => false }

/-! ### The registry -/

def lookup (hash : Digest) : Control (SandboxId × SandboxRecord) := do
  match (← ask (.owner hash) : Option SandboxId) with
  | none => Asks.raise .unavailable
  | some s =>
    match (← ask (.metadata s) : Option Item) with
    | none => Asks.raise .unavailable
    | some item => pure (s, item.record)

/-- `DynamoSandboxRegistry.get` -/
def registryGet (subject : Str) : Control (SandboxId × SandboxRecord) :=
  if subject = [] then Asks.raise .unavailable
  else
    match svc.ownerHash subject with
    | none => Asks.raise .crash
    | some hash => lookup hash

/-- What `get_or_create` does where there is no record. -/
def registryCreate (subject : Str) : Control (SandboxId × SandboxRecord) :=
  if subject = [] then Asks.raise .unavailable
  else
    match svc.ownerHash subject with
    | none => Asks.raise .crash
    | some hash => do
      let now : Instant ← ask .clock
      let s : SandboxId ← ask (.sandboxId hash)
      let session : SessionId ← ask .sessionId
      let record := newRecord (String.ofList hash) (String.ofList (s.text.map Char.ofNat)) session
        svc.kirocrewVersion now
      let created : Bool ← ask (.create hash s record)
      if created then pure (s, record) else registryGet svc subject

/-- `get_or_create` -/
def getOrCreate (subject : Str) : Control (SandboxId × SandboxRecord) :=
  (svc.registryGet subject).attempt fun e =>
    match e with
    | .unavailable => svc.registryCreate subject
    | e => Asks.raise e

/-- `_put_updated` -/
def putUpdated (s : SandboxId) (previous updated : SandboxRecord) : Control Unit := do
  let applied : Bool ← ask (.put s previous updated)
  if applied then pure () else Asks.raise (.conflict "Sandbox state version changed.")

/-- `acquire_start`: the record, and whether the start is authoritative -/
def acquireStart (subject : Str) (leaseOwner : SessionId) :
    Control ((SandboxId × SandboxRecord) × Bool) := do
  let (s, record) ← svc.getOrCreate subject
  let now : Instant ← ask .clock
  -- drawn here whether or not the start rotates the session
  let rotated : SessionId ← ask .sessionId
  match KiroCrew.acquireStart record leaseOwner startLeaseTtl false rotated now with
  | .keep authoritative => pure ((s, record), authoritative)
  | .leaseConflict =>
    Asks.raise (.conflict "Expired lease requires authoritative-owner confirmation.")
  | .rotate updated => do
    putUpdated s record updated
    pure ((s, updated), true)

/-- `transition(STOPPED)` -/
def transition (subject : Str) (expectedVersion : Nat) (leaseOwner : Option SessionId) :
    Control (SandboxId × SandboxRecord) := do
  let (s, record) ← svc.registryGet subject
  let now : Instant ← ask .clock
  match KiroCrew.transition record expectedVersion leaseOwner now with
  | none =>
    if record.stateVersion ≠ expectedVersion ∨ record.leaseOwner ≠ leaseOwner then
      Asks.raise (.conflict "Sandbox state version or lease changed.")
    else Asks.raise (.conflict "Lifecycle transition is not allowed.")
  | some updated => do
    putUpdated s record updated
    pure (s, updated)

/-- `request_deletion` -/
def requestDeletion (subject : Str) : Control (SandboxId × SandboxRecord) := do
  let (s, record) ← svc.registryGet subject
  let now : Instant ← ask .clock
  match KiroCrew.requestDeletion record now with
  | none => Asks.raise (.conflict "Sandbox must be stopped before deletion.")
  | some updated => do
    putUpdated s record updated
    pure (s, updated)

/-! ### Bodies -/

/-- `_restore_progress` -/
def restoreProgress (record : SandboxRecord) : Option Fields :=
  match record.wakeHints.restoreProgress.bind fun raw => Json.loads (Str.ofString raw) with
  | some (.obj value) =>
    match get value "chunksDone", get value "chunksTotal", get value "files" with
    | .int done, .int total, .int files =>
      if 0 ≤ done ∧ 0 ≤ total ∧ 0 ≤ files then
        some [(Str.ofString "chunksDone", .int done), (Str.ofString "chunksTotal", .int total),
          (Str.ofString "files", .int files)]
      else none
    | _, _, _ => none
  | _ => none

/-- `_sandbox`; fields stand in the order `sort_keys` prints them -/
def sandboxBody (x : SandboxId × SandboxRecord) : Fields :=
  [(Str.ofString "lastCheckpointAt", .null),
    (Str.ofString "lastRestore",
    (x.2.lastRestore.map fun value => Value.str (Str.ofString value)).getD .null)] ++
  (match (if x.2.state = .restoring then restoreProgress x.2 else none) with
    | none => []
    | some progress => [(Str.ofString "restoreProgress", .obj progress)]) ++
  [(Str.ofString "sandboxId", .str x.1.text),
    (Str.ofString "state", .str (Str.ofString x.2.state.value)),
    (Str.ofString "stateVersion", .int x.2.stateVersion),
    (Str.ofString "updatedAt", .str x.2.updatedAt.timestamp)]

/-- `_checkpoint` -/
def checkpointBody (item : CheckpointItem) : Value :=
  .obj [(Str.ofString "createdAt", .str item.createdAt.timestamp),
    (Str.ofString "generation", .int item.generation),
    (Str.ofString "schemaVersion", .int item.schemaVersion),
    (Str.ofString "status", .str (Str.ofString (match item.status with
      | .committed => "COMMITTED"
      | .restoreFailed => "RESTORE_FAILED")))]

/-- `_public_config` -/
def publicConfig : Fields :=
  [(Str.ofString "deploymentMode", .str svc.deploymentMode),
    (Str.ofString "frontendCompatibilityVersion", .str svc.frontendCompatibilityVersion),
    (Str.ofString "protocolVersion", .str controlProtocolVersion),
      (Str.ofString "qualifier", .str svc.qualifier),
    (Str.ofString "region", .str svc.region), (Str.ofString "runtimeArn", .str svc.runtimeArn)]

def historyBody (events : List HistoryEvent) : Fields :=
  [(Str.ofString "events", .arr (events.map fun event =>
      .obj [(Str.ofString "at", .str event.time.timestamp),
        (Str.ofString "state", .str (Str.ofString event.state.value)),
        (Str.ofString "stateVersion", .int event.stateVersion)])),
    (Str.ofString "persistedPaths", .arr (svc.persistedPaths.map .str))]

/-! ### Operations -/

/-- `identity.subject_hash`, for the tokens of a sandbox -/
def holder (identity : Identity) (x : SandboxId × SandboxRecord) : Option Holder :=
  match h : subjectHash svc.sha svc.issuer identity.subject with
  | none => none
  | some digest => some
    { sandboxId := x.1
      session := x.2.runtimeSessionId
      subjectHash := digest
      isDigest := by
        obtain ⟨bs, -, rfl⟩ := Option.map_eq_some_iff.1 h
        exact svc.sha.isDigest _ }

/-- `issue_binding` or `issue_scheduler`: the token and when it expires; what signing raises nobody
catches -/
def issueToken (unattended : Bool) (identity : Identity) (x : SandboxId × SandboxRecord) :
    Control (Str × Instant) :=
  match svc.holder identity x with
  | none => Asks.raise .crash
  | some holder => do
    let now : Instant ← ask .clock
    let later : Instant ← ask .clock
    let nonce : Bytes ← ask .nonce
    let claims :=
      if unattended then svc.tokens.issueScheduler holder now later nonce
      else svc.tokens.issueBinding holder now later nonce
    match (← ask .salt : Option Nat) with
    | none => Asks.raise .crash
    | some salt => pure (svc.tokens.signer.issue salt claims.fields, now.addSeconds bindingTtl)

/-- `_idempotent` -/
def idempotent (key : MemoryKey) (payloadHash : Str) : Control (Option Fields) := do
  match (← ask (.idempotency key) : Option (Str × Fields)) with
  | none => pure none
  | some (hash, response) =>
    if hash ≠ payloadHash then
      fail 409 "IDEMPOTENCY_CONFLICT" "LIFECYCLE" "Idempotency key was reused with another request."
    else pure (some response)

/-- `_remember` -/
def remember (key : MemoryKey) (payloadHash : Str) (response : Fields) : Control Unit :=
  ask (.remember key payloadHash response)

/-- `_enroll_wake`: nothing it raises is passed on -/
def enrollWake (identity : Identity) (s : SandboxId) : Control Unit :=
  if svc.sealsWakes = false then pure ()
  else do
    match (← ask (.sealSubject identity.subject s) : Option String) with
    | none => pure ()
    | some sealed =>
      if sealed = "" then pure ()
      else do
        let _ : Bool ← ask (.wakeSubject s sealed)
        pure ()

def startBody (token : Str) (expires : Instant) (x : SandboxId × SandboxRecord) : Fields :=
  [(Str.ofString "bindingToken", .str token), (Str.ofString "expiresAt", .str expires.timestamp),
    (Str.ofString "frontendCompatibilityVersion", .str svc.frontendCompatibilityVersion),
    (Str.ofString "httpUrl", .str svc.httpUrl),
    (Str.ofString "protocolVersion", .str controlProtocolVersion),
      (Str.ofString "qualifier", .str svc.qualifier),
    (Str.ofString "runtimeArn", .str svc.runtimeArn),
      (Str.ofString "runtimeSessionId", .str x.2.runtimeSessionId.text),
    (Str.ofString "sandboxId", .str x.1.text),
      (Str.ofString "state", .str (Str.ofString x.2.state.value)),
    (Str.ofString "webSocketUrl", .str svc.websocketUrl)]

/-- `_start` -/
def start (lambda : Nat) (identity : Identity) (key : Str) : Control Fields := do
  let memory : MemoryKey := ⟨lambda, identity.subject, "start", key⟩
  match ← idempotent memory (Str.ofString "start") with
  | some response => pure response
  | none => do
    let existing ← svc.getOrCreate identity.subject
    let (x, _) ← svc.acquireStart identity.subject existing.2.runtimeSessionId
    let (token, expires) ← svc.issueToken false identity x
    svc.enrollWake identity x.1
    let response := svc.startBody token expires x
    remember memory (Str.ofString "start") response
    pure response

def schedulerBody (token : Str) (expires : Instant) (x : SandboxId × SandboxRecord)
    (authoritative : Bool) : Fields :=
  [(Str.ofString "authoritative", .bool authoritative),
    (Str.ofString "expiresAt", .str expires.timestamp),
    (Str.ofString "qualifier", .str svc.qualifier),
    (Str.ofString "runtimeArn", .str svc.runtimeArn),
    (Str.ofString "runtimeSessionId", .str x.2.runtimeSessionId.text),
      (Str.ofString "sandboxId", .str x.1.text),
    (Str.ofString "schedulerToken", .str token),
      (Str.ofString "state", .str (Str.ofString x.2.state.value))]

/-- The record of the subject a scheduler names, which has to be the sandbox it names. -/
def named (subject sandboxId : Str) (missing : String) : Control (SandboxId × SandboxRecord) := do
  let existing ← (svc.registryGet subject).attempt fun e =>
    match e with
    | .unavailable => fail 404 "SANDBOX_NOT_FOUND" "LIFECYCLE" missing
    | e => Asks.raise e
  if existing.1.text ≠ sandboxId then
    fail 409 "SANDBOX_MISMATCH" "LIFECYCLE"
      "The named sandbox does not belong to the named subject."
  else pure existing

/-- A nonempty text of the event. -/
def nonemptyStr (v : Value) : Option Str :=
  match v with
  | .str s => if s = [] then none else some s
  | _ => none

/-- `_scheduler_start` -/
def schedulerStart (lambda : Nat) (event : Fields) : Control Fields :=
  match nonemptyStr (get event "cognitoSubject"), nonemptyStr (get event "sandboxId"),
    nonemptyStr (get event "idempotencyKey") with
  | none, _, _ => fail 400 "INVALID_MESSAGE" "LIFECYCLE" "Scheduler wake requires a subject."
  | some _, none, _ =>
    fail 400 "INVALID_MESSAGE" "LIFECYCLE" "Scheduler wake requires a sandbox id."
  | some _, some _, none =>
    fail 400 "INVALID_MESSAGE" "LIFECYCLE" "Scheduler wake requires an idempotency key."
  | some subject, some sandboxId, some key => do
    let identity : Identity := { subject := subject, administrator := false }
    let memory : MemoryKey := ⟨lambda, subject, "schedulerStart", key⟩
    match ← idempotent memory (Str.ofString "schedulerStart") with
    | some response => pure response
    | none => do
      let existing ← svc.named subject sandboxId "The named subject has no sandbox to wake."
      let (x, authoritative) ← svc.acquireStart subject existing.2.runtimeSessionId
      let (token, expires) ← svc.issueToken true identity x
      let response := svc.schedulerBody token expires x authoritative
      remember memory (Str.ofString "schedulerStart") response
      pure response

/-- `_stop_runtime` with so many attempts left -/
def stopRuntime (session : SessionId) : (attempts : Nat) → Control Unit
  | 0 =>
    Asks.raise (.api 503 "THROTTLED" "THROTTLING" "Runtime stop is temporarily unavailable." true)
  | attempts + 1 => do
    match (← ask (.stopRuntime session) : Option Nat) with
    | none => pure ()
    | some status =>
      if status = 409 ∨ status = 429 ∨ 500 ≤ status then stopRuntime session attempts else pure ()

/-- `_stop` -/
def stop (lambda : Nat) (identity : Identity) (key : Str) (body : Fields) : Control Fields :=
  match get body "checkpointReceipt" with
  | .str receipt =>
    if body.all (fun field => field.1 = Str.ofString "checkpointReceipt") = false then
      fail 400 "INVALID_MESSAGE" "PERSISTENCE" "Checkpoint receipt is required."
    else
      match Bytes.encodeUtf8 receipt, subjectHash svc.sha svc.issuer identity.subject with
      | some bytes, some subject => do
        let payloadHash := (svc.sha.hexdigest (bytes.map UInt8.ofNat)).text
        let memory : MemoryKey := ⟨lambda, identity.subject, "stop", key⟩
        match ← idempotent memory payloadHash with
        | some response => pure response
        | none => do
          let (s, record) ← svc.registryGet identity.subject
          let now : Instant ← ask .clock
          match svc.tokens.verifyCheckpointReceipt receipt subject.text s.text
            record.runtimeSessionId.text now with
          | .error e => fail 409 "CHECKPOINT_FAILED" "PERSISTENCE" e.message
          | .ok (generation, digest) => do
            let metadata : Option CheckpointItem ← ask (.checkpoint s generation.toNat)
            if (record.state = .stopping && record.lastCheckpointGeneration =
              some generation.toNat &&
                metadata.any fun item => item.status = .committed && item.manifestDigest.text =
                digest) = false then
              fail 409 "CHECKPOINT_FAILED" "PERSISTENCE"
                "A current committed checkpoint is required before stop."
            else do
              stopRuntime record.runtimeSessionId svc.maxStopAttempts
              let stopped ← svc.transition identity.subject record.stateVersion record.leaseOwner
              let response := sandboxBody stopped
              remember memory payloadHash response
              pure response
      | _, _ => Asks.raise .crash
  | _ => fail 400 "INVALID_MESSAGE" "PERSISTENCE" "Checkpoint receipt is required."

/-- `_scheduler_stop` -/
def schedulerStop (lambda : Nat) (event : Fields) : Control Fields :=
  match nonemptyStr (get event "cognitoSubject"), nonemptyStr (get event "sandboxId"),
    nonemptyStr (get event "idempotencyKey"),
    nonemptyStr (get event "checkpointReceipt") with
  | none, _, _, _ => fail 400 "INVALID_MESSAGE" "LIFECYCLE" "Scheduler stop requires a subject."
  | some _, none, _, _ =>
    fail 400 "INVALID_MESSAGE" "LIFECYCLE" "Scheduler stop requires a sandbox id."
  | some _, some _, none, _ =>
    fail 400 "INVALID_MESSAGE" "LIFECYCLE" "Scheduler stop requires an idempotency key."
  | some _, some _, some _, none =>
    fail 400 "INVALID_MESSAGE" "PERSISTENCE" "Scheduler stop requires a receipt."
  | some subject, some sandboxId, some key, some receipt => do
    let _ ← svc.named subject sandboxId "The named subject has no sandbox."
    svc.stop lambda { subject := subject, administrator := false } key
      [(Str.ofString "checkpointReceipt", .str receipt)]

/-! ### Requests -/

inductive ControlOperation
  | getPublicConfig | getSandbox | deleteSandbox | startSandbox | stopSandbox | listCheckpoints
  | getSandboxHistory
deriving DecidableEq, Repr

/-- `ROUTES` -/
def routes : List ((String × String) × ControlOperation) :=
  [(("GET", "/control/v1/config"), .getPublicConfig), (("GET", "/control/v1/sandbox"), .getSandbox),
    (("DELETE", "/control/v1/sandbox"), .deleteSandbox),
    (("POST", "/control/v1/sandbox/start"), .startSandbox),
    (("POST", "/control/v1/sandbox/stop"), .stopSandbox),
      (("GET", "/control/v1/sandbox/checkpoints"), .listCheckpoints),
    (("GET", "/control/v1/sandbox/history"), .getSandboxHistory)]

/-- `ROUTES.get((verb, path))` -/
def route (verb path : Str) : Option ControlOperation :=
  (routes.find? fun entry => Str.ofString entry.1.1 = verb ∧ Str.ofString entry.1.2 = path).map
    (·.2)

/-- `_body` -/
def requestBody (event : Fields) : Except ControlError Fields :=
  match get event "body" with
  | .str raw =>
    match Json.loads raw with
    | some (.obj body) => .ok body
    | _ => .error (.api 400 "INVALID_MESSAGE" "LIFECYCLE" "JSON body is invalid." false)
  | _ => .error (.api 400 "INVALID_MESSAGE" "LIFECYCLE" "JSON body is required." false)

/-- `_idempotency_key` -/
def idempotencyKey (event : Fields) : Except ControlError Str :=
  match (header event "idempotency-key").filter fun key =>
    decide (16 ≤ key.length ∧ key.length ≤ 128) with
  | some key => .ok key
  | none =>
    .error (.api 400 "INVALID_MESSAGE" "LIFECYCLE" "A valid idempotency key is required." false)

def ofExcept {α : Type} : Except ControlError α → Control α
  | .ok a => pure a
  | .error e => Asks.raise e

/-- What an authenticated request does: the status and the body. -/
def perform (lambda : Nat) (event : Fields) (identity : Identity) : ControlOperation →
    Control (Nat × Value)
  | .getPublicConfig => pure (200, .obj svc.publicConfig)
  | .getSandbox => do
    let x ← svc.getOrCreate identity.subject
    let _ : Unit ← ask (.observe x.1 x.2)
    pure (200, .obj (sandboxBody x))
  | .getSandboxHistory => do
    let x ← svc.getOrCreate identity.subject
    let _ : Unit ← ask (.observe x.1 x.2)
    let events : List HistoryEvent ← ask (.history x.1 20)
    pure (200, .obj (svc.historyBody events))
  | .startSandbox => do
    let key ← ofExcept (idempotencyKey event)
    let body ← svc.start lambda identity key
    pure (200, .obj body)
  | .stopSandbox => do
    let key ← ofExcept (idempotencyKey event)
    let body ← ofExcept (requestBody event)
    let response ← svc.stop lambda identity key body
    pure (202, .obj response)
  | .listCheckpoints => do
    let x ← svc.registryGet identity.subject
    let items : List CheckpointItem ← ask (.checkpoints x.1)
    pure (200, .arr (items.map checkpointBody))
  | .deleteSandbox =>
    if identity.administrator = false then
      fail 403 "AUTHORIZATION_FAILED" "AUTHORIZATION" "Administrator authorization is required."
    else do
      let x ← svc.requestDeletion identity.subject
      pure (202, .obj (sandboxBody x))

/-- A request of the HTTP API. -/
def handleHttp (lambda : Nat) (event context : Fields) : Control (Nat × Value) :=
  let http := match get context "http" with
    | .obj http => http
    | _ => []
  match get http "method", get event "rawPath" with
  | .str verb, .str path =>
    if (header event "origin").any fun origin => origin ≠ svc.allowedOrigin then
      fail 403 "AUTHORIZATION_FAILED" "AUTHORIZATION" "Origin is not allowed."
    else if verb = Str.ofString "OPTIONS" then pure (204, .obj [])
    else
      match route verb path with
      | none => fail 404 "INVALID_MESSAGE" "LIFECYCLE" "Route is unavailable."
      | some .getPublicConfig => pure (200, .obj svc.publicConfig)
      | some operation => do
        let now : Instant ← ask .clock
        let identity ← ofExcept (svc.validate (claimsFromEvent context) now)
        svc.perform lambda event identity operation
  | _, _ => fail 400 "INVALID_MESSAGE" "LIFECYCLE" "Request is invalid."

/-- Is the event a direct invocation that names this operation? -/
def schedules (event : Fields) (operation : String) : Bool :=
  (requestContext event).isEmpty && equalsStr (get event "operation") (Str.ofString operation)

def handleEvent (lambda : Nat) (event : Fields) : Control (Nat × Value) :=
  if schedules event "schedulerStart" then do
    let body ← svc.schedulerStart lambda event
    pure (200, .obj body)
  else if schedules event "schedulerStop" then do
    let body ← svc.schedulerStop lambda event
    pure (200, .obj body)
  else svc.handleHttp lambda event (requestContext event)

end ControlService

/-- `_response`, without the constant headers; a 204 has no body. -/
structure ControlResponse where
  status : Nat
  body : Option Value
  correlationId : Str

def ControlError.body (code category message : String) (retryable : Bool) (correlationId : Str) :
    Value :=
  .obj [(Str.ofString "category", .str (Str.ofString category)),
    (Str.ofString "code", .str (Str.ofString code)),
    (Str.ofString "correlationId", .str correlationId),
    (Str.ofString "message", .str (Str.ofString message)),
    (Str.ofString "retryable", .bool retryable)]

/-- The answer to what `handle` catches; `none` where it catches nothing. -/
def ControlError.response (correlationId : Str) : ControlError → Option ControlResponse
  | .api status code category message retryable =>
    some ⟨status, some (body code category message retryable correlationId), correlationId⟩
  | .unavailable =>
    some ⟨404, some (body "AUTHORIZATION_FAILED" "AUTHORIZATION" "Sandbox is unavailable." false
      correlationId), correlationId⟩
  | .conflict message =>
    some ⟨409, some (body "SANDBOX_CONFLICT" "LIFECYCLE" message false correlationId),
      correlationId⟩
  | .crash => none

namespace ControlService

variable (svc : ControlService)

/-- The supplied correlation id, if it has the right form. -/
def suppliedCorrelationId (event : Fields) : Option Str :=
  (header event "x-correlation-id").filter fun id => decide (id.length = 26) && id.all fun c =>
    correlationAlphabet.contains c

def respond (lambda : Nat) (event : Fields) (correlationId : Str) :
    Program ControlQuery ControlAnswer (Option ControlResponse) :=
  Program.bind (svc.handleEvent lambda event) fun
    | .ok (status, body) =>
      .done (some ⟨status, if status = 204 then none else some body, correlationId⟩)
    | .error e => .done (e.response correlationId)

/-- `handle`, on one instance of the function -/
def handle (lambda : Nat) (event : Fields) : Program ControlQuery ControlAnswer
    (Option ControlResponse) :=
  match suppliedCorrelationId event with
  | some correlationId => svc.respond lambda event correlationId
  | none => .ask .random fun value => svc.respond lambda event (correlationText value)

end ControlService

end KiroCrew
