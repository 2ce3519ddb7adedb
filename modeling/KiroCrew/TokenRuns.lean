import KiroCrew.Tokens
import KiroCrew.Lib.Machine

/-!
# Whom tokens are for

The control plane issues tokens to the owner of a sandbox for the session its record names, the
broker derives runtime-session tokens and receipts from tokens it accepts, and every one of them
goes through hands that may keep it, present it anywhere and present it late. Only a signature is
taken for granted: what verifies was signed (`TokenWorld.Unforged`). Then no token carries more than
was granted: whatever the broker, an adapter or the control plane accepts names a sandbox, a session
and a subject that go together, and once the record names another session the broker serves the
token for good no more, but to read the record (`TokenWorld.confined`).
-/

namespace KiroCrew

open ManifestDecoder (get)

/-- The text under a token's signature, where that holds. -/
def SigningService.signedText (k : SigningService) (token : Str) : Option Str :=
  (splitToken token).bind fun x => (unbase64url x.2).bind fun signature =>
    if k.verify (x.1.map UInt8.ofNat) signature then some x.1 else none

theorem SigningService.verified_eq (k : SigningService) (token : Str) :
    k.verified token = (k.signedText token).bind readPayload := by
  unfold verified signedText
  cases splitToken token with
  | none => rfl
  | some x =>
    dsimp only [Option.bind_some]
    cases unbase64url x.2 with
    | none => rfl
    | some signature =>
      dsimp only [Option.bind_some]
      split <;> rfl

/-- The binding key, and how the control plane and the broker are configured. -/
structure TokenService where
  key : SigningService
  audience : Audience
  runtimeSessionTtl : Nat

namespace TokenService

variable (d : TokenService)

def tokens : SignedControlTokens := ⟨d.key, d.audience⟩

def broker : BrokerTokens := ⟨d.key, d.audience, d.runtimeSessionTtl⟩

end TokenService

/-- A record: the subject hash of its owner, the session it names and those it named before. -/
structure Tenant where
  subjectHash : Digest
  isDigest : isDigest subjectHash = true
  session : SessionId
  former : List SessionId := []

def Tenant.sessions (t : Tenant) : List SessionId := t.session :: t.former

def Tenant.holder (t : Tenant) (s : SandboxId) (session : SessionId) : Holder :=
  ⟨s, session, t.subjectHash, t.isDigest⟩

/-- A token of the control plane. -/
structure Grant where
  type : TokenType
  holder : Holder
  issuedAt : Instant

/-- A receipt of the broker. -/
structure SignedReceipt where
  sandboxId : SandboxId
  runtimeSessionId : Str
  subjectHash : Str
  checkpoint : ReceiptedCheckpoint
  signedAt : Instant

structure TokenWorld where
  records : SandboxId → Option Tenant := fun _ => none
  /-- The texts of the sessions drawn so far. -/
  drawn : List Str := []
  /-- What was signed with the binding key. -/
  signed : List Str := []
  grants : List Grant := []
  receipts : List SignedReceipt := []

inductive TokenEvent
  /-- `get_or_create` puts a record. -/
  | create (s : SandboxId) (subjectHash : Digest) (h : isDigest subjectHash = true)
      (session : SessionId)
  /-- `acquire_start` rotates the session. -/
  | rotate (s : SandboxId) (session : SessionId)
  /-- `issue_binding` or `issue_scheduler`, for a record the control plane read before, for the
  subject it was found by. -/
  | issue (unattended : Bool) (s : SandboxId) (session : SessionId) (now later : Instant)
      (nonce : Bytes)
  /-- `_acquire_init` that applies -/
  | acquireInit (token : Str) (s : SandboxId) (session : Str) (now : Instant)
  /-- `_checkpoint_receipt` that commits -/
  | checkpointReceipt (token : Str) (s : SandboxId) (session : Str)
      (checkpoint : ReceiptedCheckpoint) (now : Instant)

/-- The operations of `handler` that take a token. -/
inductive TokenOperation
  | readRecord
  | lease
  | acquireInit
  | heartbeatInit
  | heartbeatLease
  | healReady
  | markReady
  | markError
  | dataKey
  | presign
  | presignBatch
  | list
  | checkpointReceipt
  | toolToken
deriving DecidableEq, Repr

namespace TokenWorld

variable (d : TokenService) (w : TokenWorld)

/-- `handler` up to the state of the record: the claims of a token the broker accepts for a sandbox
and a session. A record is read under any session it is claimed for; for all else `_authorize` has
the record name that session. -/
def serve (operation : TokenOperation) (s : SandboxId) (session token : Str) (now : Instant) :
    Option Fields :=
  match d.broker.binding token now with
  | none => none
  | some claims =>
    if !BrokerTokens.claimedSandbox claims s.text session then none
    else
      match operation with
      | .readRecord => some claims
      | _ => if (w.records s).any fun t => t.session.text = session then some claims else none

def issued (unattended : Bool) (holder : Holder) (now later : Instant) (nonce : Bytes) :
    TokenClaims :=
  if unattended then d.tokens.issueScheduler holder now later nonce
    else d.tokens.issueBinding holder now later nonce

def step (w : TokenWorld) : TokenEvent → Option TokenWorld
  | .create s subjectHash h session =>
    -- a session is a fresh uuid
    if (w.records s).isNone ∧ session.text ∉ w.drawn then
      some { w with
        records :=
          Function.update w.records s
            (some { subjectHash := subjectHash, isDigest := h, session := session })
        drawn := session.text :: w.drawn }
    else none
  | .rotate s session =>
    match w.records s with
    | none => none
    | some t =>
      if session.text ∈ w.drawn then none
      else some { w with
        records :=
          Function.update w.records s (some { t with session := session, former := t.sessions })
        drawn := session.text :: w.drawn }
  | .issue unattended s session now later nonce =>
    match w.records s with
    | none => none
    | some t =>
      if session ∈ t.sessions then
        some { w with
          signed :=
            tokenPayload (issued d unattended (t.holder s session) now later nonce).fields ::
              w.signed
          grants := { type := if unattended then .scheduler else .binding
                      holder := t.holder s session
                      issuedAt := now } :: w.grants }
      else none
  | .acquireInit token s session now =>
    (w.serve d .acquireInit s session token now).map fun claims =>
      { w with signed := tokenPayload (d.broker.runtimeSessionFields claims now) :: w.signed }
  | .checkpointReceipt token s session checkpoint now =>
    match w.serve d .checkpointReceipt s session token now with
    | none => none
    | some claims =>
      match get claims "subjectHash" with
      | .str subjectHash =>
        if isDigest (subjectHash.map Char.ofNat) ∧ 0 < checkpoint.generation then
          some { w with
            signed :=
              tokenPayload (d.broker.receiptFields checkpoint.generation
                checkpoint.manifestDigest.text session s.text
              subjectHash now) :: w.signed
            receipts := ⟨s, session, subjectHash, checkpoint, now⟩ :: w.receipts }
        else none
      | _ => none

/-- A token whose signature holds was signed. -/
def Genuine (token : Str) : Prop := ∀ payload ∈ d.key.signedText token, payload ∈ w.signed

instance (token : Str) : Decidable (w.Genuine d token) :=
  inferInstanceAs (Decidable (∀ payload ∈ d.key.signedText token, _))

def Unforged (w : TokenWorld) : TokenEvent → Prop
  | .acquireInit token .. => w.Genuine d token
  | .checkpointReceipt token .. => w.Genuine d token
  | _ => True

instance : ∀ e, Decidable (Unforged d w e)
  | .acquireInit token .. => inferInstanceAs (Decidable (w.Genuine d token))
  | .checkpointReceipt token .. => inferInstanceAs (Decidable (w.Genuine d token))
  | .create .. => .isTrue trivial
  | .rotate .. => .isTrue trivial
  | .issue .. => .isTrue trivial

/-! ## What is signed -/

/-- What stands behind claims that were signed. -/
def Backed (c : TokenClaims) : Prop :=
  match c.type with
  | .runtimeSession => ∃ g ∈ w.grants, g.holder = c.holder
  | .checkpointReceipt => ∃ r ∈ w.receipts, r.sandboxId = c.holder.sandboxId ∧
      r.runtimeSessionId = c.holder.session.text ∧
      r.subjectHash = c.holder.subjectHash.text ∧ c.checkpoint = some r.checkpoint ∧
      c.exp = (r.signedAt.addSeconds receiptTtl).epoch ∧
      ∃ g ∈ w.grants, g.holder = c.holder
  | type => ∃ g ∈ w.grants, g.type = type ∧ g.holder = c.holder ∧
      c.exp = (g.issuedAt.addSeconds bindingTtl).epoch

structure Sound (w : TokenWorld) : Prop where
  drawn : ∀ s t, w.records s = some t → ∀ session ∈ t.sessions, session.text ∈ w.drawn
  grants : ∀ g ∈ w.grants, ∃ t, w.records g.holder.sandboxId = some t ∧
    g.holder.subjectHash = t.subjectHash ∧
    g.holder.session ∈ t.sessions
  signed : ∀ payload ∈ w.signed, ∃ c : TokenClaims, payload = tokenPayload c.fields ∧ w.Backed c

variable {d w} {w' : TokenWorld} {e : TokenEvent} {c : TokenClaims} {s : SandboxId}
    {session token : Str} {now : Instant}
  {claims : Fields} {operation : TokenOperation}

theorem Sound.init : Sound {} where
  drawn s t h := by cases h
  grants g h := by cases h
  signed payload h := by cases h

/-- What is backed stays so while nothing is forgotten. -/
theorem Backed.mono (h : w.Backed c) (hgrants : ∀ g ∈ w.grants, g ∈ w'.grants)
    (hreceipts : ∀ r ∈ w.receipts, r ∈ w'.receipts) :
    w'.Backed c := by
  unfold Backed at h ⊢
  split at h
  · obtain ⟨g, hg, hholder⟩ := h
    exact ⟨g, hgrants g hg, hholder⟩
  · obtain ⟨r, hr, hsandbox, hsession, hsubject, hcheckpoint, hexp, g, hg, hholder⟩ := h
    exact ⟨r, hreceipts r hr, hsandbox, hsession, hsubject, hcheckpoint, hexp, g,
      hgrants g hg, hholder⟩
  · obtain ⟨g, hg, htype, hholder, hexp⟩ := h
    exact ⟨g, hgrants g hg, htype, hholder, hexp⟩

/-- Whatever is backed goes back to a grant. -/
theorem Backed.grant (h : w.Backed c) : ∃ g ∈ w.grants, g.holder = c.holder := by
  unfold Backed at h
  split at h
  · exact h
  · obtain ⟨_, -, -, -, -, -, -, h⟩ := h
    exact h
  · obtain ⟨g, hg, -, hholder, -⟩ := h
    exact ⟨g, hg, hholder⟩

/-- The claims of a genuine token are claims somebody signed. -/
theorem Sound.read (h : w.Sound) (hgenuine : w.Genuine d token)
    (hverified : d.key.verified token = some claims) :
    ∃ c : TokenClaims, claims = c.fields ∧ w.Backed c := by
  rw [SigningService.verified_eq] at hverified
  obtain ⟨payload, htext, hread⟩ := Option.bind_eq_some_iff.1 hverified
  obtain ⟨c, rfl, hbacked⟩ := h.signed payload (hgenuine payload htext)
  rw [readPayload_tokenPayload c.plain_fields] at hread
  exact ⟨c, (Option.some.inj hread).symm, hbacked⟩

theorem serve_eq_some (h : w.serve d operation s session token now = some claims) :
    d.broker.binding token now = some claims ∧
    BrokerTokens.claimedSandbox claims s.text session = true ∧
      (operation ≠ .readRecord → ∃ t, w.records s = some t ∧ t.session.text = session) := by
  unfold serve at h
  split at h
  · cases h
  · next claims' hbinding =>
    split at h
    · cases h
    · next hclaimed =>
      have hclaimed : BrokerTokens.claimedSandbox claims' s.text session = true := by
        simpa using hclaimed
      split at h
      · cases h
        exact ⟨hbinding, hclaimed, fun hread => absurd rfl hread⟩
      · split at h
        · next hnamed =>
          cases h
          obtain ⟨t, ht, hsession⟩ := (Option.any_eq_true _ _).1 hnamed
          exact ⟨hbinding, hclaimed, fun _ => ⟨t, ht, of_decide_eq_true hsession⟩⟩
        · cases h

theorem verified_of_binding {broker : BrokerTokens} (h : broker.binding token now = some claims) :
    broker.signer.verified token = some claims := by
  unfold BrokerTokens.binding at h
  split at h
  · cases h
  · next verified hverified =>
    rw [hverified]
    split at h
    · split at h
      · split at h
        · cases h
        · exact h
      · cases h
    · cases h

/-- A token the broker serves was derived from a grant for that sandbox and session. -/
theorem Sound.served (h : w.Sound) (hgenuine : w.Genuine d token)
    (hserve : w.serve d operation s session token now = some claims) :
    ∃ c : TokenClaims, claims = c.fields ∧ w.Backed c ∧ c.type ≠ .checkpointReceipt ∧
      c.holder.sandboxId = s ∧
      c.holder.session.text = session := by
  obtain ⟨hbinding, hclaimed, -⟩ := serve_eq_some hserve
  have hverified : d.key.verified token = some claims := verified_of_binding hbinding
  obtain ⟨c, rfl, hbacked⟩ := h.read hgenuine hverified
  obtain ⟨hsandbox, hsession⟩ := TokenClaims.claimedSandbox_iff.1 hclaimed
  have htype : c.type ≠ .checkpointReceipt := ((TokenClaims.binding_iff hverified).1 hbinding).1
  exact ⟨c, rfl, hbacked, htype, SandboxId.ext_text hsandbox.symm, hsession.symm⟩

/-! ## What is derived -/

def runtimeSessionClaims (d : TokenService) (c : TokenClaims) (now : Instant) : TokenClaims where
  aud := d.audience
  exp := (now.addSeconds d.runtimeSessionTtl).epoch
  iat := now.epoch
  holder := c.holder
  type := .runtimeSession

def receiptClaims (d : TokenService) (c : TokenClaims) (checkpoint : ReceiptedCheckpoint)
    (now : Instant) : TokenClaims where
  aud := d.audience
  exp := (now.addSeconds receiptTtl).epoch
  checkpoint := some checkpoint
  iat := now.epoch
  holder := c.holder
  type := .checkpointReceipt

theorem runtimeSessionFields_eq : d.broker.runtimeSessionFields c.fields now =
    (runtimeSessionClaims d c now).fields := by
  obtain ⟨-, -, -, -, hsession, hsandbox, hsubject, -⟩ := c.get_fields
  unfold BrokerTokens.runtimeSessionFields
  rw [hsession, hsandbox, hsubject]
  rfl

theorem receiptFields_eq (checkpoint : ReceiptedCheckpoint) :
    d.broker.receiptFields checkpoint.generation checkpoint.manifestDigest.text
    c.holder.session.text c.holder.sandboxId.text
      c.holder.subjectHash.text now = (receiptClaims d c checkpoint now).fields := rfl

theorem Sound.create (h : w.Sound) {subjectHash : Digest} (hdigest : isDigest subjectHash = true)
    {session : SessionId}
    (hnone : (w.records s).isNone) :
    Sound { w with
      records :=
        Function.update w.records s
          (some { subjectHash := subjectHash, isDigest := hdigest, session := session })
      drawn := session.text :: w.drawn } where
  drawn s' t ht := by
    dsimp only at ht ⊢
    by_cases hs : s' = s
    · subst hs
      rw [Function.update_self] at ht
      cases ht
      intro x hx
      rw [Tenant.sessions, List.mem_singleton] at hx
      rw [hx]
      exact List.mem_cons_self
    · rw [Function.update_of_ne hs] at ht
      intro x hx
      exact List.mem_cons_of_mem _ (h.drawn s' t ht x hx)
  grants g hg := by
    obtain ⟨t, ht, hholder⟩ := h.grants g hg
    have hne : g.holder.sandboxId ≠ s := by
      rintro rfl
      rw [ht] at hnone
      cases hnone
    exact ⟨t, (Function.update_of_ne hne _ _).trans ht, hholder⟩
  signed payload hpayload := by
    obtain ⟨c, hc, hbacked⟩ := h.signed payload hpayload
    exact ⟨c, hc, hbacked.mono (fun _ hg => hg) fun _ hr => hr⟩

theorem Sound.rotate (h : w.Sound) {t : Tenant} (ht : w.records s = some t) {session : SessionId} :
    Sound { w with
      records :=
        Function.update w.records s (some { t with session := session, former := t.sessions })
      drawn := session.text :: w.drawn } where
  drawn s' t' ht' := by
    dsimp only at ht' ⊢
    by_cases hs : s' = s
    · subst hs
      rw [Function.update_self] at ht'
      cases ht'
      intro x hx
      rcases List.mem_cons.1 hx with rfl | hx
      · exact List.mem_cons_self
      · exact List.mem_cons_of_mem _ (h.drawn s' t ht x hx)
    · rw [Function.update_of_ne hs] at ht'
      intro x hx
      exact List.mem_cons_of_mem _ (h.drawn s' t' ht' x hx)
  grants g hg := by
    obtain ⟨t', ht', hsubject, hsession⟩ := h.grants g hg
    dsimp only
    by_cases hs : g.holder.sandboxId = s
    · subst hs
      rw [ht] at ht'
      cases ht'
      exact ⟨_, Function.update_self _ _ _, hsubject, List.mem_cons_of_mem _ hsession⟩
    · exact ⟨t', (Function.update_of_ne hs _ _).trans ht', hsubject, hsession⟩
  signed payload hpayload := by
    obtain ⟨c, hc, hbacked⟩ := h.signed payload hpayload
    exact ⟨c, hc, hbacked.mono (fun _ hg => hg) fun _ hr => hr⟩

theorem Sound.issue (h : w.Sound) {t : Tenant} (ht : w.records s = some t) {session : SessionId}
    (hsession : session ∈ t.sessions)
    (unattended : Bool) (now later : Instant) (nonce : Bytes) :
    Sound { w with
      signed :=
        tokenPayload (issued d unattended (t.holder s session) now later nonce).fields :: w.signed
      grants := { type := if unattended then .scheduler else .binding
                  holder := t.holder s session
                  issuedAt := now } :: w.grants } where
  drawn := h.drawn
  grants g hg := by
    rcases List.mem_cons.1 hg with rfl | hg
    · exact ⟨t, ht, rfl, hsession⟩
    · exact h.grants g hg
  signed payload hpayload := by
    rcases List.mem_cons.1 hpayload with rfl | hpayload
    · refine ⟨_, rfl, ?_⟩
      cases unattended with
      | true => exact ⟨_, List.mem_cons_self, rfl, rfl, rfl⟩
      | false => exact ⟨_, List.mem_cons_self, rfl, rfl, rfl⟩
    · obtain ⟨c, hc, hbacked⟩ := h.signed payload hpayload
      exact ⟨c, hc, hbacked.mono (fun _ hg => List.mem_cons_of_mem _ hg) fun _ hr => hr⟩

theorem Sound.acquireInit (h : w.Sound) (hgenuine : w.Genuine d token)
    (hserve : w.serve d operation s session token now = some claims) :
    Sound { w with signed := tokenPayload (d.broker.runtimeSessionFields claims now) ::
        w.signed } where
  drawn := h.drawn
  grants := h.grants
  signed payload hpayload := by
    rcases List.mem_cons.1 hpayload with rfl | hpayload
    · obtain ⟨c, rfl, hbacked, -⟩ := h.served hgenuine hserve
      exact ⟨runtimeSessionClaims d c now, by rw [runtimeSessionFields_eq], hbacked.grant⟩
    · obtain ⟨c, hc, hbacked⟩ := h.signed payload hpayload
      exact ⟨c, hc, hbacked.mono (fun _ hg => hg) fun _ hr => hr⟩

theorem Sound.checkpointReceipt (h : w.Sound) (hgenuine : w.Genuine d token)
    (hserve : w.serve d operation s session token now = some claims) {subjectHash : Str}
    (hsubject : get claims "subjectHash" = .str subjectHash) (checkpoint : ReceiptedCheckpoint) :
    Sound { w with
      signed :=
        tokenPayload (d.broker.receiptFields checkpoint.generation checkpoint.manifestDigest.text
          session s.text
        subjectHash now) :: w.signed
      receipts := ⟨s, session, subjectHash, checkpoint, now⟩ :: w.receipts } where
  drawn := h.drawn
  grants := h.grants
  signed payload hpayload := by
    rcases List.mem_cons.1 hpayload with rfl | hpayload
    · obtain ⟨c, rfl, hbacked, -, rfl, rfl⟩ := h.served hgenuine hserve
      rw [c.get_fields.2.2.2.2.2.2.1] at hsubject
      cases hsubject
      exact ⟨receiptClaims d c checkpoint now, by rw [receiptFields_eq], _, List.mem_cons_self, rfl,
        rfl, rfl, rfl, rfl, hbacked.grant⟩
    · obtain ⟨c, hc, hbacked⟩ := h.signed payload hpayload
      exact ⟨c, hc, hbacked.mono (fun _ hg => hg) fun _ hr => List.mem_cons_of_mem _ hr⟩

/-! ## Steps -/

theorem of_step_create {subjectHash : Digest} {hdigest : isDigest subjectHash = true}
    {session : SessionId}
    (h : step d w (.create s subjectHash hdigest session) = some w') :
    (w.records s).isNone ∧ session.text ∉ w.drawn ∧
      w' = { w with
        records :=
          Function.update w.records s
            (some { subjectHash := subjectHash, isDigest := hdigest, session := session })
        drawn := session.text :: w.drawn } := by
  unfold TokenWorld.step at h
  dsimp only at h
  split at h
  · next hfresh =>
    cases h
    exact ⟨hfresh.1, hfresh.2, rfl⟩
  · cases h

theorem of_step_rotate {session : SessionId} (h : step d w (.rotate s session) = some w') :
    ∃ t, w.records s = some t ∧ session.text ∉ w.drawn ∧
      w' = { w with
        records :=
          Function.update w.records s (some { t with session := session, former := t.sessions })
        drawn := session.text :: w.drawn } := by
  unfold TokenWorld.step at h
  dsimp only at h
  split at h
  · cases h
  · next t ht =>
    split at h
    · cases h
    · next hfresh =>
      cases h
      exact ⟨t, ht, hfresh, rfl⟩

theorem of_step_issue {unattended : Bool} {session : SessionId} {later : Instant} {nonce : Bytes}
    (h : step d w (.issue unattended s session now later nonce) = some w') :
    ∃ t, w.records s = some t ∧ session ∈ t.sessions ∧
      w' = { w with
        signed :=
          tokenPayload (issued d unattended (t.holder s session) now later nonce).fields :: w.signed
        grants := { type := if unattended then .scheduler else .binding,
                    holder := t.holder s session, issuedAt := now } :: w.grants } := by
  unfold TokenWorld.step at h
  dsimp only at h
  split at h
  · cases h
  · next t ht =>
    split at h
    · next hsession =>
      cases h
      exact ⟨t, ht, hsession, rfl⟩
    · cases h

theorem of_step_checkpointReceipt {checkpoint : ReceiptedCheckpoint}
    (h : step d w (.checkpointReceipt token s session checkpoint now) = some w') :
    ∃ claims subjectHash, w.serve d .checkpointReceipt s session token now = some claims ∧
      get claims "subjectHash" = .str subjectHash ∧
      w' = { w with
        signed :=
          tokenPayload (d.broker.receiptFields checkpoint.generation checkpoint.manifestDigest.text
            session s.text
          subjectHash now) :: w.signed
        receipts := ⟨s, session, subjectHash, checkpoint, now⟩ :: w.receipts } := by
  unfold TokenWorld.step at h
  dsimp only at h
  split at h
  · cases h
  · next claims hserve =>
    split at h
    · next subjectHash hsubject =>
      split at h
      · cases h
        exact ⟨claims, subjectHash, hserve, hsubject, rfl⟩
      · cases h
    · cases h

theorem Sound.step (h : w.Sound) (he : Unforged d w e) (hstep : step d w e = some w') :
    w'.Sound := by
  cases e with
  | create s subjectHash hdigest session =>
    obtain ⟨hnone, -, rfl⟩ := of_step_create hstep
    exact h.create hdigest hnone
  | rotate s session =>
    obtain ⟨t, ht, -, rfl⟩ := of_step_rotate hstep
    exact h.rotate ht
  | issue unattended s session now later nonce =>
    obtain ⟨t, ht, hsession, rfl⟩ := of_step_issue hstep
    exact h.issue ht hsession unattended now later nonce
  | acquireInit token s session now =>
    obtain ⟨claims, hserve, rfl⟩ := Option.map_eq_some_iff.1 hstep
    exact h.acquireInit he hserve
  | checkpointReceipt token s session checkpoint now =>
    obtain ⟨claims, subjectHash, hserve, hsubject, rfl⟩ := of_step_checkpointReceipt hstep
    exact h.checkpointReceipt he hserve hsubject checkpoint

theorem sound_of_reaches (h : Machine.Reaches (step d) (Unforged d) {} w) : w.Sound :=
  h.invariant (fun _ _ _ hsound he hstep => hsound.step he hstep) Sound.init

/-! ## What a record was -/

/-- A record keeps its owner and the sessions it named, and takes up none of them again. -/
def Kept (w w' : TokenWorld) : Prop :=
  ∀ s t, w.records s = some t → ∃ t', w'.records s = some t' ∧ t'.subjectHash = t.subjectHash ∧
    (∀ session ∈ t.sessions, session ∈ t'.sessions) ∧
    (t'.session = t.session ∨ t'.session.text ∉ t.sessions.map SessionId.text)

theorem Kept.of_records {w₀ : TokenWorld} (h : w₀.Kept w) (hsame : ∀ s, (w.records s).isSome →
    w'.records s = w.records s) :
    w₀.Kept w' := by
  intro s t₀ ht₀
  obtain ⟨t, ht, hkept⟩ := h s t₀ ht₀
  have hrecord := hsame s (by rw [ht]; rfl)
  exact ⟨t, hrecord.trans ht, hkept⟩

theorem Kept.rotate {w₀ : TokenWorld} (h : w₀.Kept w) (hsound : w.Sound) {t : Tenant}
    (ht : w.records s = some t) {session : SessionId}
    (hfresh : session.text ∉ w.drawn) :
    w₀.Kept { w with
      records :=
        Function.update w.records s (some { t with session := session, former := t.sessions })
      drawn := session.text :: w.drawn } := by
  intro s' t₀ ht₀
  obtain ⟨t', ht', hsubject, hsessions, hpresent⟩ := h s' t₀ ht₀
  dsimp only
  by_cases hs : s' = s
  · subst hs
    rw [ht] at ht'
    cases ht'
    refine ⟨_, Function.update_self _ _ _, hsubject, ?_, .inr ?_⟩
    · intro x hx
      exact List.mem_cons_of_mem _ (hsessions x hx)
    · intro hnamed
      obtain ⟨x, hx, heq⟩ := List.mem_map.1 hnamed
      exact hfresh (heq ▸ hsound.drawn s' t ht x (hsessions x hx))
  · exact ⟨t', (Function.update_of_ne hs _ _).trans ht', hsubject, hsessions, hpresent⟩

theorem Kept.step {w₀ : TokenWorld} (h : w₀.Kept w) (hsound : w.Sound)
    (hstep : step d w e = some w') : w₀.Kept w' := by
  cases e with
  | create s subjectHash hdigest session =>
    obtain ⟨hnone, -, rfl⟩ := of_step_create hstep
    refine h.of_records fun s' hsome => ?_
    have hne : s' ≠ s := by
      rintro rfl
      rw [Option.isNone_iff_eq_none.1 hnone] at hsome
      cases hsome
    exact Function.update_of_ne hne _ _
  | rotate s session =>
    obtain ⟨t, ht, hfresh, rfl⟩ := of_step_rotate hstep
    exact h.rotate hsound ht hfresh
  | issue unattended s session now later nonce =>
    obtain ⟨t, -, -, rfl⟩ := of_step_issue hstep
    exact h
  | acquireInit token s session now =>
    obtain ⟨claims, -, rfl⟩ := Option.map_eq_some_iff.1 hstep
    exact h
  | checkpointReceipt token s session checkpoint now =>
    obtain ⟨claims, subjectHash, -, -, rfl⟩ := of_step_checkpointReceipt hstep
    exact h

theorem kept_of_reaches (hsound : w.Sound) (h : Machine.Reaches (step d) (Unforged d) w w') :
    w.Kept w' := by
  refine (h.invariant (I := fun w' => w'.Sound ∧ w.Kept w') ?_ ⟨hsound, ?_⟩).2
  · rintro w₁ e w₂ ⟨hsound, hkept⟩ he hstep
    exact ⟨hsound.step he hstep, hkept.step hsound hstep⟩
  · intro s t ht
    exact ⟨t, ht, rfl, fun _ hx => hx, .inl rfl⟩

/-! ## What is accepted -/

/-- The grant behind claims, and the record of its sandbox. -/
theorem Sound.tenant (h : w.Sound) (hbacked : w.Backed c) :
    ∃ g ∈ w.grants, g.holder = c.holder ∧ ∃ t, w.records c.holder.sandboxId = some t ∧
    c.holder.subjectHash = t.subjectHash ∧
      c.holder.session ∈ t.sessions := by
  obtain ⟨g, hg, hholder⟩ := hbacked.grant
  obtain ⟨t, ht, hsubject, hsession⟩ := h.grants g hg
  rw [hholder] at ht hsubject hsession
  exact ⟨g, hg, hholder, t, ht, hsubject, hsession⟩

theorem Sound.serves (h : w.Sound) (hgenuine : w.Genuine d token)
    (hserve : w.serve d operation s session token now = some claims) :
    ∃ t, w.records s = some t ∧ session ∈ t.sessions.map SessionId.text ∧
      get claims "subjectHash" = .str t.subjectHash.text ∧
      (∃ g ∈ w.grants, g.holder.sandboxId = s ∧ g.holder.session.text = session ∧
        g.holder.subjectHash = t.subjectHash) ∧
      (operation ≠ .readRecord → t.session.text = session) := by
  obtain ⟨c, rfl, hbacked, -, rfl, rfl⟩ := h.served hgenuine hserve
  obtain ⟨g, hg, hholder, t, ht, hsubject, hsession⟩ := h.tenant hbacked
  refine ⟨t, ht, List.mem_map_of_mem hsession, ?_, ?_, ?_⟩
  · rw [c.get_fields.2.2.2.2.2.2.1, hsubject]
  · exact ⟨g, hg, by rw [hholder], by rw [hholder], by rw [hholder, hsubject]⟩
  · intro hread
    obtain ⟨t', ht', hnamed⟩ := (serve_eq_some hserve).2.2 hread
    rw [ht] at ht'
    cases ht'
    exact hnamed

theorem verified_of_verify {v : KmsBindingVerifier} {cognitoSubject : Option Str}
    {read : BindingClaims}
    (h : v.verify token cognitoSubject now = .ok read) : ∃ claims, v.verifier.verified token =
    some claims := by
  unfold KmsBindingVerifier.verify at h
  split at h
  · cases h
  · next claims hverified => exact ⟨claims, hverified⟩

theorem Sound.adapts (h : w.Sound) (hgenuine : w.Genuine d token) {v : KmsBindingVerifier}
    (hv : v.verifier = d.key)
    {cognitoSubject : Option Str} {read : BindingClaims}
    (hread : v.verify token cognitoSubject now = .ok read) :
    ∃ g ∈ w.grants, read.sandboxId = g.holder.sandboxId.text ∧
      read.runtimeSessionId = g.holder.session.text ∧
      now.epoch < (g.issuedAt.addSeconds bindingTtl).epoch ∧
      ((g.type = .binding ∧ ∃ subject t, cognitoSubject = some subject ∧
        w.records g.holder.sandboxId = some t ∧
          subjectHash v.sha v.issuer subject = some t.subjectHash) ∨
        (g.type = .scheduler ∧ v.acceptsScheduler = true ∧ cognitoSubject = none)) := by
  obtain ⟨claims, hverified⟩ := verified_of_verify hread
  obtain ⟨c, rfl, hbacked⟩ := h.read (d := d) hgenuine (hv ▸ hverified)
  obtain ⟨hpresented, -, hexpires, rfl⟩ := (TokenClaims.adapter_iff hverified).1 hread
  obtain ⟨-, -, -, t, ht, hsubject, -⟩ := h.tenant hbacked
  unfold Backed at hbacked
  rcases hpresented with ⟨htype, subject, hcognito, hhash⟩ | ⟨htype, haccepts, hcognito⟩
  · rw [htype] at hbacked
    obtain ⟨g, hg, hgtype, hholder, hexp⟩ := hbacked
    rw [hexp] at hexpires
    rw [← hholder] at ht hhash hsubject ⊢
    exact ⟨g, hg, rfl, rfl, hexpires, .inl ⟨hgtype, subject, t, hcognito, ht, hsubject ▸ hhash⟩⟩
  · rw [htype] at hbacked
    obtain ⟨g, hg, hgtype, hholder, hexp⟩ := hbacked
    rw [hexp] at hexpires
    rw [← hholder]
    exact ⟨g, hg, rfl, rfl, hexpires, .inr ⟨hgtype, haccepts, hcognito⟩⟩

theorem verified_of_receipt {tokens : SignedControlTokens} {subjectHash sandboxId : Str}
    {found : ℤ × Str}
    (h : tokens.verifyCheckpointReceipt token subjectHash sandboxId session now = .ok found) :
    ∃ claims, tokens.signer.verified token = some claims := by
  unfold SignedControlTokens.verifyCheckpointReceipt at h
  split at h
  · cases h
  · next claims hverified => exact ⟨claims, hverified⟩

theorem Sound.receipted (h : w.Sound) (hgenuine : w.Genuine d token)
    {subjectHash sandboxId digest : Str} {generation : ℤ}
    (hread : d.tokens.verifyCheckpointReceipt token subjectHash sandboxId session now =
    .ok (generation, digest)) :
    ∃ r ∈ w.receipts, r.sandboxId.text = sandboxId ∧ r.runtimeSessionId = session ∧
      r.subjectHash = subjectHash ∧
      generation = r.checkpoint.generation ∧ digest = r.checkpoint.manifestDigest.text ∧
      now.epoch < (r.signedAt.addSeconds receiptTtl).epoch ∧
      ∃ t, w.records r.sandboxId = some t ∧ t.subjectHash.text = subjectHash ∧ ∃ x ∈ t.sessions,
          x.text = session := by
  obtain ⟨claims, hverified⟩ := verified_of_receipt hread
  obtain ⟨c, rfl, hbacked⟩ := h.read hgenuine hverified
  obtain ⟨htype, -, rfl, rfl, rfl, hexpires, checkpoint, hcheckpoint, -, -, rfl, rfl⟩ :=
    (TokenClaims.receipt_iff hverified).1 hread
  obtain ⟨-, -, -, t, ht, hsubject, hsession⟩ := h.tenant hbacked
  unfold Backed at hbacked
  rw [htype] at hbacked
  obtain ⟨r, hr, hsandbox, hrsession, hrsubject, hrcheckpoint, hexp, -⟩ := hbacked
  rw [hcheckpoint] at hrcheckpoint
  cases hrcheckpoint
  rw [hexp] at hexpires
  refine ⟨r, hr, by rw [hsandbox], hrsession, hrsubject, rfl, rfl, hexpires, t,
    ?_, by rw [hsubject], _, hsession, rfl⟩
  rw [hsandbox]
  exact ht

/-- Wherever a genuine token ends up, it carries what the control plane granted and no more: the
broker serves it for the sandbox, session and owner of a grant, and beyond reading the record only
while the record names that session, which is the present one of any earlier record or one that
record had never named; an adapter takes it within half an hour of the grant, from the owner of the
sandbox or, unattended, from the scheduler; the control plane takes a receipt the broker signed ten
minutes ago at most, for the owner and a session of its sandbox. -/
theorem confined (hreach : Machine.Reaches (step d) (Unforged d) {} w)
    (hlater : Machine.Reaches (step d) (Unforged d) w w')
    (hgenuine : w'.Genuine d token) (now : Instant) :
    (∀ operation s session claims, w'.serve d operation s session token now = some claims →
      ∃ t, w'.records s = some t ∧ session ∈ t.sessions.map SessionId.text ∧
        get claims "subjectHash" = .str t.subjectHash.text ∧
        (∃ g ∈ w'.grants, g.holder.sandboxId = s ∧ g.holder.session.text = session ∧
          g.holder.subjectHash = t.subjectHash) ∧
        (∀ t₀, w.records s = some t₀ → t.subjectHash = t₀.subjectHash) ∧
        (operation ≠ .readRecord → t.session.text = session ∧
          ∀ t₀, w.records s = some t₀ →
            session = t₀.session.text ∨ session ∉ t₀.sessions.map SessionId.text)) ∧
      (∀ (sha : Sha256) (audience : Audience) (issuer : Str) (acceptsScheduler :
        Bool) (cognitoSubject : Option Str)
          (read : BindingClaims),
        (KmsBindingVerifier.mk d.key sha audience issuer acceptsScheduler).verify token
          cognitoSubject now = .ok read →
        ∃ g ∈ w'.grants, read.sandboxId = g.holder.sandboxId.text ∧
          read.runtimeSessionId = g.holder.session.text ∧
          now.epoch < (g.issuedAt.addSeconds bindingTtl).epoch ∧
          ((g.type = .binding ∧ ∃ subject t, cognitoSubject = some subject ∧
            w'.records g.holder.sandboxId = some t ∧
              subjectHash sha issuer subject = some t.subjectHash) ∨
            (g.type = .scheduler ∧ acceptsScheduler = true ∧ cognitoSubject = none))) ∧
      ∀ (subjectHash sandboxId session digest : Str) (generation : ℤ),
        d.tokens.verifyCheckpointReceipt token subjectHash sandboxId session now =
          .ok (generation, digest) →
        ∃ r ∈ w'.receipts, r.sandboxId.text = sandboxId ∧ r.runtimeSessionId = session ∧
          r.subjectHash = subjectHash ∧
          generation = r.checkpoint.generation ∧ digest = r.checkpoint.manifestDigest.text ∧
          now.epoch < (r.signedAt.addSeconds receiptTtl).epoch ∧
          ∃ t, w'.records r.sandboxId = some t ∧ t.subjectHash.text = subjectHash ∧
              ∃ x ∈ t.sessions, x.text = session := by
  have hsound := sound_of_reaches hreach
  have hsound' := sound_of_reaches (hreach.trans hlater)
  refine ⟨?_, ?_, ?_⟩
  · intro operation s session claims hserve
    obtain ⟨t, ht, hsession, hsubject, hgrant, hnamed⟩ := hsound'.serves hgenuine hserve
    have hkept : ∀ t₀, w.records s = some t₀ → t.subjectHash = t₀.subjectHash ∧
        (t.session = t₀.session ∨ t.session.text ∉ t₀.sessions.map SessionId.text) := by
      intro t₀ ht₀
      obtain ⟨t', ht', hsame, -, hpresent⟩ := kept_of_reaches hsound hlater s t₀ ht₀
      rw [ht] at ht'
      cases ht'
      exact ⟨hsame, hpresent⟩
    refine ⟨t, ht, hsession, hsubject, hgrant, fun t₀ ht₀ => (hkept t₀ ht₀).1, ?_⟩
    intro hread
    refine ⟨hnamed hread, fun t₀ ht₀ => ?_⟩
    rw [← hnamed hread]
    exact (hkept t₀ ht₀).2.imp (fun h => by rw [h]) id
  · intro sha audience issuer acceptsScheduler cognitoSubject read hread
    exact hsound'.adapts hgenuine
      (v := KmsBindingVerifier.mk d.key sha audience issuer acceptsScheduler) rfl hread
  · intro subjectHash sandboxId session digest generation hread
    exact hsound'.receipted hgenuine hread

end TokenWorld

namespace TokenExample

open Example (sandbox)

/-- A signature that repeats the message. -/
def service : TokenService where
  key := { sign := fun _ message => message
           verify := fun message signature => decide (message = signature)
           verify_sign := fun _ message => decide_eq_true rfl }
  audience := { text := Str.ofString "kirocrew", safe := by decide }
  runtimeSessionTtl := 28800

def owner : Digest := List.replicate 64 'a'

def opening : List TokenEvent :=
  [.create sandbox owner (by decide) ⟨1⟩, .rotate sandbox ⟨2⟩, .issue false sandbox ⟨2⟩ ⟨0⟩ ⟨0⟩ []]

def opened : TokenWorld :=
  (Machine.runAlong (TokenWorld.step service) (TokenWorld.Unforged service) {} opening).getD {}

/-- What the browser got. -/
def bindingToken : Str :=
  service.key.issue 0 (service.tokens.issueBinding ⟨sandbox, ⟨2⟩, owner, by decide⟩ ⟨0⟩
    ⟨0⟩ []).fields

def claim : List TokenEvent := [.acquireInit bindingToken sandbox (SessionId.text ⟨2⟩) ⟨5000000⟩]

def claimed : TokenWorld :=
  (Machine.runAlong (TokenWorld.step service) (TokenWorld.Unforged service) opened claim).getD {}

/-- What the container got, which outlives the binding token. -/
def runtimeToken : Str :=
  service.key.issue 0 (TokenWorld.runtimeSessionClaims service
    (service.tokens.issueBinding ⟨sandbox, ⟨2⟩, owner, by decide⟩ ⟨0⟩ ⟨0⟩ []) ⟨5000000⟩).fields

/-- The runs go through, and two hours later the broker serves the container's token. -/
theorem evaluated : Machine.runAlong (TokenWorld.step service) (TokenWorld.Unforged service)
    {} opening ≠ none ∧
    Machine.runAlong (TokenWorld.step service) (TokenWorld.Unforged service) opened claim ≠ none ∧
    claimed.Genuine service runtimeToken ∧
    (claimed.serve service .heartbeatLease sandbox (SessionId.text ⟨2⟩) runtimeToken
      ⟨7200000000⟩).isSome := by decide +kernel

theorem confined_runtimeToken :
    (∃ g ∈ claimed.grants, g.holder.sandboxId = sandbox ∧
    g.holder.session.text = SessionId.text ⟨2⟩) ∧
      ∃ t, claimed.records sandbox = some t ∧ t.session.text = SessionId.text ⟨2⟩ := by
  obtain ⟨hopened, hclaimed, hgenuine, hserved⟩ := evaluated
  have hreach : Machine.Reaches (TokenWorld.step service) (TokenWorld.Unforged service) {} opened :=
    .of_runAlong (Option.getD_of_ne_none hopened _).symm
  have hlater : Machine.Reaches (TokenWorld.step service)
      (TokenWorld.Unforged service) opened claimed :=
    .of_runAlong (Option.getD_of_ne_none hclaimed _).symm
  obtain ⟨claims, hserve⟩ := Option.isSome_iff_exists.1 hserved
  obtain ⟨t, ht, -, -, ⟨g, hg, hsandbox, hsession, -⟩, -, hnamed⟩ :=
    (TokenWorld.confined hreach hlater hgenuine ⟨7200000000⟩).1 _ _ _ _ hserve
  exact ⟨⟨g, hg, hsandbox, hsession⟩, t, ht, (hnamed (by decide)).1⟩

end TokenExample

end KiroCrew
