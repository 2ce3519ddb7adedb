import KiroCrew.Lib.Base64Url
import KiroCrew.DataKey

/-!
# Signed tokens

A token is a JSON object in URL Base64, a full stop and the signature of the first part under the
binding key. The control plane signs binding and scheduler tokens (`SignedControlTokens`), the
persistence broker runtime-session tokens and checkpoint receipts; the control plane reads receipts,
the broker all tokens but receipts (`_binding`), the adapter binding tokens and, where it is
configured to, scheduler tokens (`KmsBindingVerifier`). All four kinds share key, audience and
claims and differ in `type`. The readers accept exactly the kinds that are theirs, for what they
were issued for and until they expire (`TokenClaims.presented_iff`).
-/

namespace KiroCrew

open Json (Value)
open ManifestDecoder (get equalsStr)

/-- The binding key. The first argument of `sign` is the salt. -/
structure SigningService where
  sign : Nat → Bytes → Bytes
  verify : (message signature : Bytes) → Bool
  verify_sign : ∀ salt message, verify message (sign salt message) = true

/-- `_base64url` -/
def base64url (value : Bytes) : Str := Base64.urlEncode (value.map UInt8.toNat)

/-- `_unbase64url`; `none` is the `ValueError`. -/
def unbase64url (value : Str) : Option Bytes :=
  (Base64.urlDecode value).map fun bs => bs.map UInt8.ofNat

/-- The text that is signed. -/
def tokenPayload (claims : Fields) : Str := base64url (dumpsBytes (.obj claims))

/-- `_issue` -/
def SigningService.issue (k : SigningService) (salt : Nat) (claims : Fields) : Str :=
  tokenPayload claims ++ [46] ++ base64url (k.sign salt ((tokenPayload claims).map UInt8.ofNat))

/-- `token.split(".", 1)` -/
def splitToken (token : Str) : Option (Str × Str) :=
  match token.dropWhile (· ≠ 46) with
  | [] => none
  | _ :: signature => some (token.takeWhile (· ≠ 46), signature)

/-- The claims of the first part. -/
def readPayload (payload : Str) : Option Fields :=
  match (unbase64url payload).bind loadsBytes with
  | some (.obj claims) => some claims
  | _ => none

/-- `_verify`, which the broker and the adapter repeat: the claims of a token whose signature holds,
`none` when any part of it raises. -/
def SigningService.verified (k : SigningService) (token : Str) : Option Fields :=
  match splitToken token with
  | none => none
  | some (payload, signature) =>
    match unbase64url signature with
    | none => none
    | some signature =>
      if k.verify (payload.map UInt8.ofNat) signature then readPayload payload else none

/-! ## Claims -/

/-- `width` hexadecimal digits of `n`. -/
def hexText : (width n : Nat) → Str
  | 0, _ => []
  | width + 1, n => hexText width (n / 16) ++ [Json.hexDigit (n % 16)]

/-- `str(uuid)` -/
def SessionId.text (session : SessionId) : Str :=
  hexText 8 (session.uuid / 16 ^ 24) ++ [45] ++ hexText 4 (session.uuid / 16 ^ 20) ++ [45] ++
    hexText 4 (session.uuid / 16 ^ 16) ++
    [45] ++ hexText 4 (session.uuid / 16 ^ 12) ++ [45] ++ hexText 12 session.uuid

/-- The configured audience. -/
structure Audience where
  text : Str
  safe : text.safe = true

inductive TokenType
  | binding | scheduler | runtimeSession | checkpointReceipt
deriving DecidableEq, Repr

def TokenType.value : TokenType → Str
  | .binding => Str.ofString "binding"
  | .scheduler => Str.ofString "scheduler"
  | .runtimeSession => Str.ofString "runtime-session"
  | .checkpointReceipt => Str.ofString "checkpoint-receipt"

/-- What a token is issued for: a sandbox, a session of it, and the hash of the owner's subject. -/
structure Holder where
  sandboxId : SandboxId
  session : SessionId
  subjectHash : Digest
  isDigest : isDigest subjectHash = true

/-- The checkpoint of a receipt. -/
structure ReceiptedCheckpoint where
  generation : Nat
  manifestDigest : Digest
  isDigest : KiroCrew.isDigest manifestDigest = true

structure TokenClaims where
  aud : Audience
  exp : Nat
  checkpoint : Option ReceiptedCheckpoint := none
  iat : Nat
  /-- The bytes of `secrets.token_urlsafe`. -/
  nonce : Option Bytes := none
  holder : Holder
  type : TokenType

/-- The claims in the order `sort_keys` prints them. -/
def TokenClaims.fields (c : TokenClaims) : Fields :=
  [(Str.ofString "aud", .str c.aud.text), (Str.ofString "exp", .int c.exp)] ++
    (match c.checkpoint with
      | none => []
      | some checkpoint => [(Str.ofString "generation", .int checkpoint.generation)]) ++
    [(Str.ofString "iat", .int c.iat)] ++
    (match c.checkpoint with
      | none => []
      | some checkpoint =>
        [(Str.ofString "manifestDigest", .str checkpoint.manifestDigest.text)]) ++
    (match c.nonce with
      | none => []
      | some nonce => [(Str.ofString "nonce", .str (base64url nonce))]) ++
    [(Str.ofString "runtimeSessionId", .str c.holder.session.text),
      (Str.ofString "sandboxId", .str c.holder.sandboxId.text),
      (Str.ofString "subjectHash", .str c.holder.subjectHash.text),
      (Str.ofString "type", .str c.type.value)]

/-! ## The control plane -/

/-- `BINDING_TTL` in seconds -/
def bindingTtl : Nat := 30 * 60

structure SignedControlTokens where
  signer : SigningService
  audience : Audience

namespace SignedControlTokens

variable (tokens : SignedControlTokens)

/-- `issue_binding`; the clock is read for the expiry and again for `iat`. -/
def issueBinding (holder : Holder) (now later : Instant) (nonce : Bytes) : TokenClaims where
  aud := tokens.audience
  exp := (now.addSeconds bindingTtl).epoch
  iat := later.epoch
  nonce := some nonce
  holder := holder
  type := .binding

/-- `issue_scheduler` -/
def issueScheduler (holder : Holder) (now later : Instant) (nonce : Bytes) : TokenClaims :=
  { tokens.issueBinding holder now later nonce with type := .scheduler }

inductive ReceiptError
  | invalid | mismatch | stale
deriving DecidableEq, Repr

def ReceiptError.message : ReceiptError → String
  | .invalid => "Checkpoint receipt is invalid."
  | .mismatch => "Checkpoint receipt does not match the sandbox."
  | .stale => "Checkpoint receipt is stale."

/-- `verify_checkpoint_receipt` for the subject hash of the identity and the two ids of the
record -/
def verifyCheckpointReceipt (token subjectHash sandboxId runtimeSessionId : Str) (now : Instant) :
    Except ReceiptError (ℤ × Str) :=
  match tokens.signer.verified token with
  | none => .error .invalid
  | some value =>
    if (equalsStr (get value "type") TokenType.checkpointReceipt.value && equalsStr
      (get value "aud") tokens.audience.text &&
        equalsStr (get value "sandboxId") sandboxId && equalsStr
        (get value "runtimeSessionId") runtimeSessionId &&
        equalsStr (get value "subjectHash") subjectHash) = false then
      .error .mismatch
    else
      match get value "generation", get value "manifestDigest" with
      | .int generation, .str digest =>
        if generation ≤ 0 ∨ digest.length ≠ 64 then .error .mismatch
        else
          match get value "exp" with
          | .int expires => if expires ≤ now.epoch then .error .stale else .ok (generation, digest)
          | _ => .error .stale
      | _, _ => .error .mismatch

end SignedControlTokens

/-! ## The persistence broker -/

structure BrokerTokens where
  signer : SigningService
  audience : Audience
  /-- `RUNTIME_SESSION_TOKEN_TTL_SECONDS` -/
  runtimeSessionTtl : Nat

/-- `_TOKEN_TYPES` -/
def tokenTypes : List TokenType := [.binding, .runtimeSession, .scheduler]

namespace BrokerTokens

variable (broker : BrokerTokens)

/-- `_binding`; `none` is the `PermissionError` (and the `TypeError` of a `type` that cannot be
hashed). -/
def binding (token : Str) (now : Instant) : Option Fields :=
  match broker.signer.verified token with
  | none => none
  | some claims =>
    if tokenTypes.any (fun type => equalsStr (get claims "type") type.value) && equalsStr
        (get claims "aud") broker.audience.text then
      match get claims "exp" with
      | .int expires => if expires ≤ now.epoch then none else some claims
      | _ => none
    else none

/-- `_claimed_sandbox`, for a request that names a session by a string -/
def claimedSandbox (claims : Fields) (sandboxId runtimeSessionId : Str) : Bool :=
  isSandboxId sandboxId && equalsStr (get claims "runtimeSessionId") runtimeSessionId && equalsStr
    (get claims "sandboxId") sandboxId

/-- The claims of `_runtime_session_token`, copied from the token of the call. -/
def runtimeSessionFields (claims : Fields) (now : Instant) : Fields :=
  [(Str.ofString "aud", .str broker.audience.text),
    (Str.ofString "exp", .int (now.addSeconds broker.runtimeSessionTtl).epoch),
    (Str.ofString "iat", .int now.epoch),
    (Str.ofString "runtimeSessionId", get claims "runtimeSessionId"),
    (Str.ofString "sandboxId", get claims "sandboxId"),
      (Str.ofString "subjectHash", get claims "subjectHash"),
    (Str.ofString "type", .str TokenType.runtimeSession.value)]

/-- The claims of the receipt `_checkpoint_receipt` signs. -/
def receiptFields (generation : Nat) (manifestDigest runtimeSessionId sandboxId subjectHash : Str)
    (now : Instant) : Fields :=
  [(Str.ofString "aud", .str broker.audience.text),
    (Str.ofString "exp", .int (now.addSeconds receiptTtl).epoch),
    (Str.ofString "generation", .int generation), (Str.ofString "iat", .int now.epoch),
    (Str.ofString "manifestDigest", .str manifestDigest),
      (Str.ofString "runtimeSessionId", .str runtimeSessionId),
    (Str.ofString "sandboxId", .str sandboxId), (Str.ofString "subjectHash", .str subjectHash),
    (Str.ofString "type", .str TokenType.checkpointReceipt.value)]

end BrokerTokens

/-! ## The adapter -/

/-- The hash an identity is known by; `none` is the `UnicodeEncodeError`. -/
def subjectHash (sha : Sha256) (issuer subject : Str) : Option Digest :=
  (Bytes.encodeUtf8 (issuer ++ [0] ++ subject)).map fun bs => sha.hexdigest (bs.map UInt8.ofNat)

structure KmsBindingVerifier where
  verifier : SigningService
  sha : Sha256
  audience : Audience
  issuer : Str
  acceptsScheduler : Bool := false

/-- `BindingClaims` -/
structure BindingClaims where
  sandboxId : Str
  runtimeSessionId : Str
  expiresAt : ℤ
deriving DecidableEq

inductive BindingError
  /-- `BindingVerificationError` -/
  | binding (message : String)
  /-- `UnicodeEncodeError` -/
  | unicode
deriving DecidableEq, Repr

namespace KmsBindingVerifier

variable (v : KmsBindingVerifier)

def doesNotMatch : BindingError := .binding "Binding token does not match this runtime request."

/-- The subject hash a token must carry, by its type. -/
def expectedSubject (claims : Fields) (cognitoSubject : Option Str) : Except BindingError Value :=
  if equalsStr (get claims "type") TokenType.scheduler.value then
    if v.acceptsScheduler = false ∨ cognitoSubject.isSome then
      .error (.binding "Scheduler binding is not accepted on this runtime.")
    else .ok (get claims "subjectHash")
  else if equalsStr (get claims "type") TokenType.binding.value then
    match cognitoSubject with
    | none => .error (.binding "Forwarded Cognito authorization is missing.")
    | some subject =>
      match subjectHash v.sha v.issuer subject with
      | none => .error .unicode
      | some hash => .ok (.str hash.text)
  else .error doesNotMatch

/-- `verify` -/
def verify (token : Str) (cognitoSubject : Option Str) (now : Instant) :
    Except BindingError BindingClaims :=
  match v.verifier.verified token with
  | none => .error (.binding "Binding token is invalid.")
  | some claims =>
    match v.expectedSubject claims cognitoSubject with
    | .error e => .error e
    | .ok expected =>
      match expected, get claims "sandboxId", get claims "runtimeSessionId", get claims "exp" with
      | .str expected, .str sandboxId, .str session, .int expires =>
        if (equalsStr (get claims "aud") v.audience.text && equalsStr
          (get claims "subjectHash") expected) = false ∨
            expires ≤ now.epoch then
          .error doesNotMatch
        else .ok { sandboxId := sandboxId, runtimeSessionId := session, expiresAt := expires }
      | _, _, _, _ => .error doesNotMatch

end KmsBindingVerifier

/-! ## Reading what was issued -/

theorem equalsStr_iff {v : Value} {s : Str} : equalsStr v s = true ↔ v = .str s := by
  unfold equalsStr
  split
  · rw [decide_eq_true_iff, Value.str.injEq]
  · next hne =>
    constructor
    · intro h
      cases h
    · intro h
      exact absurd h (hne s)

theorem lt_of_mem_base64url {value : Bytes} {c : Nat} (hc : c ∈ base64url value) :
    c ≠ 46 ∧ c < 128 :=
  Base64.mem_urlEncode (fun x hx => by
    obtain ⟨b, -, rfl⟩ := List.mem_map.1 hx
    exact b.toNat_lt) hc

theorem unbase64url_base64url (value : Bytes) : unbase64url (base64url value) = some value := by
  have hbytes : ∀ x ∈ value.map UInt8.toNat, x < 256 := by
    intro x hx
    obtain ⟨b, -, rfl⟩ := List.mem_map.1 hx
    exact b.toNat_lt
  have hback : (value.map UInt8.toNat).map UInt8.ofNat = value := by
    rw [List.map_map]
    exact (List.map_congr_left fun c _ => by simp).trans (List.map_id _)
  rw [unbase64url, base64url, Base64.urlDecode_urlEncode hbytes, Option.map_some, hback]

theorem splitToken_append {payload signature : Str} (h : ∀ c ∈ payload, c ≠ 46) :
    splitToken (payload ++ [46] ++ signature) = some (payload, signature) := by
  have hkeep : ∀ c ∈ payload, decide (c ≠ 46) = true := fun c hc => decide_eq_true (h c hc)
  have hdrop : (payload ++ [46] ++ signature).dropWhile (· ≠ 46) = 46 :: signature := by
    rw [List.append_assoc, List.dropWhile_append_of_pos hkeep]
    rfl
  have htake : (payload ++ [46] ++ signature).takeWhile (· ≠ 46) = payload := by
    rw [List.append_assoc, List.takeWhile_append_of_pos hkeep]
    simp
  rw [splitToken, hdrop, htake]

theorem readPayload_tokenPayload {claims : Fields} (h : (Value.obj claims).plain = true) :
    readPayload (tokenPayload claims) = some claims := by
  rw [readPayload, tokenPayload, unbase64url_base64url, Option.bind_some, Bucket.loadsBytes_dumps h]

theorem SigningService.verified_issue {k : SigningService} {salt : Nat} {claims : Fields}
    (h : (Value.obj claims).plain = true) :
    k.verified (k.issue salt claims) = some claims := by
  have hsplit : splitToken
    (tokenPayload claims ++ [46] ++ base64url
    (k.sign salt ((tokenPayload claims).map UInt8.ofNat))) =
      some (tokenPayload claims, base64url (k.sign salt ((tokenPayload claims).map UInt8.ofNat))) :=
    splitToken_append fun c hc => (lt_of_mem_base64url hc).1
  rw [verified, issue, hsplit]
  dsimp only
  rw [unbase64url_base64url]
  dsimp only
  rw [if_pos (k.verify_sign _ _), readPayload_tokenPayload h]

theorem hexDigit_lt {d : Nat} (h : d < 16) : Json.hexDigit d < 128 := by
  unfold Json.hexDigit
  split <;> omega

theorem lt_of_mem_hexText {width n c : Nat} (hc : c ∈ hexText width n) : c < 128 := by
  induction width generalizing n with
  | zero => cases hc
  | succ width ih =>
    rcases List.mem_append.1 hc with hc | hc
    · exact ih hc
    · rw [List.mem_singleton.1 hc]
      exact hexDigit_lt (Nat.mod_lt _ (by omega))

theorem Str.safe_of_lt {s : Str} (h : ∀ c ∈ s, c < 128) : s.safe = true :=
  Str.safe_of_ascii (List.all_eq_true.2 fun c hc => decide_eq_true (h c hc))

theorem SessionId.safe (session : SessionId) : session.text.safe = true := by
  refine Str.safe_of_lt fun c hc => ?_
  simp only [SessionId.text, List.mem_append, List.mem_singleton] at hc
  rcases hc with (((((((hc | rfl) | hc) | rfl) | hc) | rfl) | hc) | rfl) | hc
  · exact lt_of_mem_hexText hc
  · omega
  · exact lt_of_mem_hexText hc
  · omega
  · exact lt_of_mem_hexText hc
  · omega
  · exact lt_of_mem_hexText hc
  · omega
  · exact lt_of_mem_hexText hc

theorem Digest.safe {d : Digest} (h : isDigest d = true) : d.text.safe = true :=
  Str.safe_of_lt fun _ hc => lt_of_mem_text h hc

theorem Digest.text_inj {d d' : Digest} (h : d.text = d'.text) : d = d' :=
  List.map_injective_iff.2 (fun _ _ => Char.toNat_inj.1) h

theorem base64url_safe (value : Bytes) : (base64url value).safe = true :=
  Str.safe_of_lt fun _ hc => (lt_of_mem_base64url hc).2

theorem TokenType.safe (t : TokenType) : t.value.safe = true := by
  cases t <;> exact Str.safe_ofString _

theorem TokenType.value_inj {t t' : TokenType} (h : t.value = t'.value) : t = t' := by
  revert h
  cases t <;> cases t' <;> decide

theorem Holder.safe_subjectHash (holder : Holder) : holder.subjectHash.text.safe = true :=
  Digest.safe holder.isDigest

theorem ReceiptedCheckpoint.safe (checkpoint : ReceiptedCheckpoint) :
    checkpoint.manifestDigest.text.safe = true :=
  Digest.safe checkpoint.isDigest

namespace TokenClaims

variable (c : TokenClaims)

theorem plain_fields : (Value.obj c.fields).plain = true := by
  cases hcheckpoint : c.checkpoint <;> cases hnonce : c.nonce <;>
    simp [fields, hcheckpoint, hnonce, Value.plain, Json.plainFields, Str.safe_ofString, c.aud.safe,
      c.holder.session.safe,
      c.holder.sandboxId.safe, Holder.safe_subjectHash, c.type.safe, base64url_safe,
      ReceiptedCheckpoint.safe]

/-- What a reader finds under each name. -/
theorem get_fields :
    get c.fields "aud" = .str c.aud.text ∧ get c.fields "exp" = .int c.exp ∧
      get c.fields "generation" = (c.checkpoint.map fun x => Value.int x.generation).getD .null ∧
      get c.fields "manifestDigest" =
        (c.checkpoint.map fun x => Value.str x.manifestDigest.text).getD .null ∧
      get c.fields "runtimeSessionId" = .str c.holder.session.text ∧ get c.fields "sandboxId" =
        .str c.holder.sandboxId.text ∧
      get c.fields "subjectHash" = .str c.holder.subjectHash.text ∧
          get c.fields "type" = .str c.type.value := by
  cases hcheckpoint : c.checkpoint <;> cases hnonce : c.nonce <;>
    simp [ManifestDecoder.get, Value.get, fields, hcheckpoint, hnonce, List.find?, Str.ofString_inj]

/-! ## Who accepts a token with these claims -/

variable {c} {k : SigningService} {token : Str} {now : Instant}

theorem receipt_iff (hverified : k.verified token = some c.fields) {audience : Audience}
    {subjectHash sandboxId runtimeSessionId digest : Str} {generation : ℤ} :
    (SignedControlTokens.mk k audience).verifyCheckpointReceipt token subjectHash sandboxId
    runtimeSessionId now =
        .ok (generation, digest) ↔
      c.type = .checkpointReceipt ∧ c.aud.text = audience.text ∧
        c.holder.sandboxId.text = sandboxId ∧
        c.holder.session.text = runtimeSessionId ∧ c.holder.subjectHash.text = subjectHash ∧
        now.epoch < c.exp ∧
        ∃ checkpoint, c.checkpoint = some checkpoint ∧ 0 < checkpoint.generation ∧
          checkpoint.manifestDigest.text.length = 64 ∧
          generation = checkpoint.generation ∧ digest = checkpoint.manifestDigest.text := by
  obtain ⟨haud, hexp, hgeneration, hdigest, hsession, hsandbox, hsubject, htype⟩ := c.get_fields
  have htypes : c.type.value = TokenType.checkpointReceipt.value ↔ c.type = .checkpointReceipt :=
    ⟨TokenType.value_inj, fun h => by rw [h]⟩
  rw [SignedControlTokens.verifyCheckpointReceipt, hverified]
  dsimp only
  rw [haud, hexp, hgeneration, hdigest, hsession, hsandbox, hsubject, htype]
  split
  · next hmismatch =>
    constructor
    · intro h
      cases h
    · rintro ⟨ht, ha, hs, hr, hh, -⟩
      rw [ht, ha, hs, hr, hh] at hmismatch
      simp [equalsStr] at hmismatch
  · next hmatch =>
    have hmatch := Bool.eq_true_of_not_eq_false hmatch
    simp only [Bool.and_eq_true, equalsStr_iff, Value.str.injEq, htypes] at hmatch
    obtain ⟨⟨⟨⟨ht, ha⟩, hs⟩, hr⟩, hh⟩ := hmatch
    cases hcheckpoint : c.checkpoint with
    | none =>
      constructor
      · intro h
        cases h
      · rintro ⟨-, -, -, -, -, -, checkpoint, hnone, -⟩
        cases hnone
    | some checkpoint =>
      dsimp only [Option.map_some, Option.getD_some]
      split
      · next hbad =>
        constructor
        · intro h
          cases h
        · rintro ⟨-, -, -, -, -, -, x, ⟨⟩, hpos, hlength, -⟩
          omega
      · next hgood =>
        split
        · next hstale =>
          constructor
          · intro h
            cases h
          · rintro ⟨-, -, -, -, -, hexpires, -⟩
            omega
        · next hfresh =>
          constructor
          · intro h
            cases h
            exact ⟨ht, ha, hs, hr, hh, by omega, checkpoint, rfl, by omega, by omega, rfl, rfl⟩
          · rintro ⟨-, -, -, -, -, -, x, ⟨⟩, -, -, rfl, rfl⟩
            rfl

theorem binding_iff (hverified : k.verified token = some c.fields) {audience : Audience} {ttl : Nat}
    {claims : Fields} :
    (BrokerTokens.mk k audience ttl).binding token now = some claims ↔
      c.type ≠ .checkpointReceipt ∧ c.aud.text = audience.text ∧ now.epoch < c.exp ∧
      claims = c.fields := by
  obtain ⟨haud, hexp, -, -, -, -, -, htype⟩ := c.get_fields
  have htypes : (tokenTypes.any fun type => equalsStr (.str c.type.value) type.value) = true ↔
      c.type ≠ .checkpointReceipt := by
    cases c.type <;> decide
  rw [BrokerTokens.binding, hverified]
  dsimp only
  rw [haud, hexp, htype]
  split
  · next hmatch =>
    rw [Bool.and_eq_true, htypes, equalsStr_iff, Value.str.injEq] at hmatch
    dsimp only
    split
    · next hstale =>
      constructor
      · intro h
        cases h
      · rintro ⟨-, -, hexpires, -⟩
        omega
    · next hfresh =>
      constructor
      · intro h
        cases h
        exact ⟨hmatch.1, hmatch.2, by omega, rfl⟩
      · rintro ⟨-, -, -, rfl⟩
        rfl
  · next hmatch =>
    rw [Bool.and_eq_true, htypes, equalsStr_iff, Value.str.injEq] at hmatch
    constructor
    · intro h
      cases h
    · rintro ⟨ht, ha, -, -⟩
      exact absurd ⟨ht, ha⟩ hmatch

theorem claimedSandbox_iff {sandboxId runtimeSessionId : Str} :
    BrokerTokens.claimedSandbox c.fields sandboxId runtimeSessionId = true ↔
    sandboxId = c.holder.sandboxId.text ∧ runtimeSessionId = c.holder.session.text := by
  obtain ⟨-, -, -, -, hsession, hsandbox, -, -⟩ := c.get_fields
  rw [BrokerTokens.claimedSandbox, hsession, hsandbox]
  simp only [Bool.and_eq_true, equalsStr_iff, Value.str.injEq]
  constructor
  · rintro ⟨⟨-, hr⟩, hs⟩
    exact ⟨hs.symm, hr.symm⟩
  · rintro ⟨hs, hr⟩
    rw [hs, hr]
    exact ⟨⟨c.holder.sandboxId.pattern, rfl⟩, rfl⟩

variable (c) in
/-- Who an adapter takes a token from: the owner with a binding token, or nobody in particular with
a scheduler token. -/
def PresentedBy (v : KmsBindingVerifier) (cognitoSubject : Option Str) : Prop :=
  (c.type = .binding ∧ ∃ subject, cognitoSubject = some subject ∧
    subjectHash v.sha v.issuer subject = some c.holder.subjectHash) ∨
    (c.type = .scheduler ∧ v.acceptsScheduler = true ∧ cognitoSubject = none)

theorem expectedSubject_iff {v : KmsBindingVerifier} {cognitoSubject : Option Str} :
    v.expectedSubject c.fields cognitoSubject = .ok (.str c.holder.subjectHash.text) ↔
    c.PresentedBy v cognitoSubject := by
  obtain ⟨-, -, -, -, -, -, hsubject, htype⟩ := c.get_fields
  have hscheduler : equalsStr (.str c.type.value) TokenType.scheduler.value = true ↔
      c.type = .scheduler := by
    cases c.type <;> decide
  have hbinding : equalsStr (.str c.type.value) TokenType.binding.value = true ↔
      c.type = .binding := by
    cases c.type <;> decide
  unfold KmsBindingVerifier.expectedSubject
  rw [htype, hsubject]
  split
  · next h =>
    have ht := hscheduler.1 h
    split
    · next hrefused =>
      constructor
      · intro h
        cases h
      · rintro (⟨hb, -⟩ | ⟨-, haccepts, hnone⟩)
        · rw [ht] at hb
          cases hb
        · rw [haccepts, hnone] at hrefused
          rcases hrefused with h | h <;> cases h
    · next haccepted =>
      simp only [not_or, Bool.not_eq_false, Option.not_isSome_iff_eq_none] at haccepted
      exact ⟨fun _ => .inr ⟨ht, haccepted⟩, fun _ => rfl⟩
  · next h =>
    have ht : c.type ≠ .scheduler := fun heq => h (hscheduler.2 heq)
    split
    · next h =>
      have hb := hbinding.1 h
      cases cognitoSubject with
      | none =>
        constructor
        · intro h
          cases h
        · rintro (⟨-, _, hsome, -⟩ | ⟨hs, -⟩)
          · cases hsome
          · exact absurd hs ht
      | some subject =>
        dsimp only
        cases hhash : subjectHash v.sha v.issuer subject with
        | none =>
          constructor
          · intro h
            cases h
          · rintro (⟨-, _, ⟨⟩, hsome⟩ | ⟨hs, -⟩)
            · rw [hhash] at hsome
              cases hsome
            · exact absurd hs ht
        | some hash =>
          dsimp only
          rw [Except.ok.injEq, Value.str.injEq]
          constructor
          · intro htext
            exact .inl ⟨hb, subject, rfl, by rw [hhash, Digest.text_inj htext]⟩
          · rintro (⟨-, _, ⟨⟩, hsome⟩ | ⟨hs, -⟩)
            · rw [hhash] at hsome
              cases hsome
              rfl
            · exact absurd hs ht
    · next h =>
      constructor
      · intro h
        cases h
      · rintro (⟨hb, -⟩ | ⟨hs, -⟩)
        · exact absurd (hbinding.2 hb) h
        · exact absurd hs ht

theorem adapter_iff {v : KmsBindingVerifier} (hverified : v.verifier.verified token = some c.fields)
    {cognitoSubject : Option Str}
    {claims : BindingClaims} :
    v.verify token cognitoSubject now = .ok claims ↔
      c.PresentedBy v cognitoSubject ∧ c.aud.text = v.audience.text ∧ now.epoch < c.exp ∧
        claims = { sandboxId := c.holder.sandboxId.text
                   runtimeSessionId := c.holder.session.text
                   expiresAt := c.exp } := by
  obtain ⟨haud, hexp, -, -, hsession, hsandbox, hsubject, -⟩ := c.get_fields
  rw [KmsBindingVerifier.verify, hverified, ← expectedSubject_iff]
  dsimp only
  cases hexpected : v.expectedSubject c.fields cognitoSubject with
  | error e =>
    constructor
    · intro h
      cases h
    · rintro ⟨h, -⟩
      cases h
  | ok expected =>
    dsimp only
    rw [haud, hexp, hsession, hsandbox, hsubject]
    rw [Except.ok.injEq]
    split
    · next expected' _ _ _ hs hr he =>
      rw [Value.str.injEq] at hs hr ⊢
      subst hs hr
      cases he
      split
      · next hbad =>
        constructor
        · intro h
          cases h
        · rintro ⟨rfl, haudience, hexpires, -⟩
          rw [haudience] at hbad
          simp only [equalsStr, decide_true, Bool.and_self, Bool.true_eq_false, false_or] at hbad
          omega
      · next hgood =>
        simp only [not_or, Bool.not_eq_false, Bool.and_eq_true, equalsStr_iff,
          Value.str.injEq] at hgood
        obtain ⟨⟨haudience, hsame⟩, hexpires⟩ := hgood
        constructor
        · intro h
          cases h
          exact ⟨hsame.symm, haudience, by omega, rfl⟩
        · rintro ⟨-, -, -, rfl⟩
          rfl
    · next hne =>
      constructor
      · intro h
        cases h
      · rintro ⟨rfl, -⟩
        exact absurd rfl (hne _ _ _ _ rfl rfl rfl)

variable (c) in
/-- Every reader accepts exactly the tokens of the kinds that are for it, under its audience, for
the sandbox, session and subject they name, until they expire; and it reads the claims that were
signed. -/
theorem presented_iff (k : SigningService) (salt : Nat) (now : Instant) :
    (∀ (audience : Audience) (subjectHash sandboxId
    runtimeSessionId : Str) (generation : ℤ) (digest : Str),
      (SignedControlTokens.mk k audience).verifyCheckpointReceipt
        (k.issue salt c.fields) subjectHash sandboxId runtimeSessionId now =
          .ok (generation, digest) ↔
        c.type = .checkpointReceipt ∧ c.aud.text = audience.text ∧
          c.holder.sandboxId.text = sandboxId ∧
          c.holder.session.text = runtimeSessionId ∧ c.holder.subjectHash.text = subjectHash ∧
          now.epoch < c.exp ∧
          ∃ checkpoint, c.checkpoint = some checkpoint ∧ 0 < checkpoint.generation ∧
            checkpoint.manifestDigest.text.length = 64 ∧
            generation = checkpoint.generation ∧ digest = checkpoint.manifestDigest.text) ∧
      (∀ (audience : Audience) (ttl : Nat) (claims : Fields) (sandboxId runtimeSessionId : Str),
        ((BrokerTokens.mk k audience ttl).binding (k.issue salt c.fields) now = some claims ∧
            BrokerTokens.claimedSandbox claims sandboxId runtimeSessionId = true) ↔
          c.type ≠ .checkpointReceipt ∧ c.aud.text = audience.text ∧ now.epoch < c.exp ∧
            claims = c.fields ∧
            sandboxId = c.holder.sandboxId.text ∧ runtimeSessionId = c.holder.session.text) ∧
      ∀ (sha : Sha256) (audience : Audience) (issuer : Str) (acceptsScheduler :
        Bool) (cognitoSubject : Option Str)
        (claims : BindingClaims),
        (KmsBindingVerifier.mk k sha audience issuer acceptsScheduler).verify
          (k.issue salt c.fields) cognitoSubject now = .ok claims ↔
          c.PresentedBy (KmsBindingVerifier.mk k sha audience issuer acceptsScheduler)
          cognitoSubject ∧ c.aud.text = audience.text ∧
            now.epoch < c.exp ∧
            claims = { sandboxId := c.holder.sandboxId.text,
                       runtimeSessionId := c.holder.session.text, expiresAt := c.exp } := by
  have hverified : k.verified (k.issue salt c.fields) = some c.fields :=
    SigningService.verified_issue c.plain_fields
  generalize k.issue salt c.fields = token at hverified ⊢
  refine ⟨?_, ?_, ?_⟩
  · intro audience subjectHash sandboxId runtimeSessionId generation digest
    exact receipt_iff hverified
  · intro audience ttl claims sandboxId runtimeSessionId
    rw [binding_iff hverified]
    constructor
    · rintro ⟨⟨ht, ha, he, rfl⟩, hclaimed⟩
      exact ⟨ht, ha, he, rfl, claimedSandbox_iff.1 hclaimed⟩
    · rintro ⟨ht, ha, he, rfl, hclaimed⟩
      exact ⟨⟨ht, ha, he, rfl⟩, claimedSandbox_iff.2 hclaimed⟩
  · intro sha audience issuer acceptsScheduler cognitoSubject claims
    exact adapter_iff hverified

end TokenClaims

end KiroCrew
