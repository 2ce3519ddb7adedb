import KiroCrew.ControlApi

/-!
# Tenants of the control plane

Many requests run side by side on many instances of the function, and the broker writes records in
between. `ControlWorld` is what they share. A request is for one owner, by the subject it carries;
`ControlService.guard` says what it may ask, given what it was answered: the mapping of its owner,
and the records and checkpoints of the sandbox that mapping named. `handle` keeps it whatever it is
answered (`handle_keeps`).
-/

namespace KiroCrew

open Json (Value)
open ManifestDecoder (get)

/-! ## What is shared -/

/-- The items of a sandbox in the table. -/
structure SandboxTable where
  item : Option Item := none
  events : List HistoryEvent := []
  catalog : List CheckpointItem := []

namespace SandboxTable

/-- The conditional put of `_put_updated` -/
def put (previous updated : SandboxRecord) (t : SandboxTable) : SandboxTable × Bool :=
  match t.item.bind fun item => KiroCrew.putUpdated item previous updated with
  | none => (t, false)
  | some item => ({ t with item := some item }, true)

/-- `record_observation`: one event for each version -/
def observe (record : SandboxRecord) (t : SandboxTable) : SandboxTable :=
  if t.events.any fun event => event.stateVersion = record.stateVersion then t
  else { t with events := ⟨record.stateVersion, record.state, record.updatedAt⟩ :: t.events }

/-- The latest events first. -/
def history (limit : Nat) (t : SandboxTable) : List HistoryEvent :=
  (t.events.mergeSort fun a b => decide (b.stateVersion ≤ a.stateVersion)).take limit

def checkpoint (generation : Nat) (t : SandboxTable) : Option CheckpointItem :=
  t.catalog.find? fun item => item.generation = generation

def checkpoints (t : SandboxTable) : List CheckpointItem :=
  t.catalog.mergeSort fun a b => decide (a.generation ≤ b.generation)

def wakeSubject (sealed : String) (t : SandboxTable) : SandboxTable × Bool :=
  match t.item with
  | none => (t, false)
  | some item => ({ t with item := some { item with wakeSubject := some sealed } }, true)

/-- A record operation of the broker; a receipt puts its checkpoint as well. -/
def brokerWrite (call : BrokerCall) (now : Instant) (t : SandboxTable) : SandboxTable × Bool :=
  match t.item with
  | none => (t, false)
  | some item =>
    match call.write item now with
    | none => (t, false)
    | some item' =>
      match call.op with
      | .checkpointReceipt r commit =>
        let entry := (checkpointReceipt item call.session r commit now).map (·.2)
        ({ t with item := some item', catalog := entry.toList ++ t.catalog.filter fun c =>
          c.generation ≠ r.generation }, true)
      | _ => ({ t with item := some item' }, true)

end SandboxTable

structure ControlWorld where
  owners : Digest → Option SandboxId := fun _ => none
  sandboxes : SandboxId → SandboxTable := fun _ => {}
  memory : MemoryKey → Option (Str × Fields) := fun _ => none
  /-- For whom each sandbox id was drawn last. -/
  drawn : SandboxId → Option Digest := fun _ => none

/-- What is open about an answer. -/
structure Outside where
  now : Instant := ⟨0⟩
  number : Nat := 0
  sandbox : SandboxId
  bytes : Bytes := []
  salt : Option Nat := some 0
  status : Option Nat := none
  sealed : Option String := none

namespace ControlWorld

def on {α : Type} (w : ControlWorld) (s : SandboxId) (f : SandboxTable → SandboxTable × α) :
    ControlWorld × α :=
  ({ w with sandboxes := Function.update w.sandboxes s (f (w.sandboxes s)).1 },
    (f (w.sandboxes s)).2)

/-- The answer to a query. -/
def serve (w : ControlWorld) (c : Outside) : (q : ControlQuery) →
    Option (ControlWorld × ControlAnswer q)
  | .clock => some (w, c.now)
  | .random => some (w, c.number)
  | .sandboxId owner =>
    some ({ w with drawn := Function.update w.drawn c.sandbox (some owner) }, c.sandbox)
  | .sessionId => some (w, SessionId.mk c.number)
  | .salt => some (w, c.salt)
  | .nonce => some (w, c.bytes)
  | .owner hash => some (w, w.owners hash)
  | .metadata s => some (w.on s fun t => (t, t.item))
  | .create owner s record =>
    if (w.owners owner).isNone && (w.sandboxes s).item.isNone then
      some ({ w with
        owners := Function.update w.owners owner (some s)
        sandboxes :=
          Function.update w.sandboxes s { w.sandboxes s with item := some record.item } }, true)
    else some (w, false)
  | .put s previous updated => some (w.on s (·.put previous updated))
  | .observe s record => some (w.on s fun t => (t.observe record, ()))
  | .history s limit => some (w.on s fun t => (t, t.history limit))
  | .checkpoint s generation => some (w.on s fun t => (t, t.checkpoint generation))
  | .checkpoints s => some (w.on s fun t => (t, t.checkpoints))
  | .sealSubject _ _ => some (w, c.sealed)
  | .wakeSubject s sealed => some (w.on s (·.wakeSubject sealed))
  | .stopRuntime _ => some (w, c.status)
  | .idempotency key => some (w, w.memory key)
  | .remember key payloadHash response =>
    some ({ w with memory := Function.update w.memory key (some (payloadHash, response)) }, ())
  | .brokerWrite s call => some (w.on s (·.brokerWrite call c.now))

variable {w w' : ControlWorld} {c : Outside} {hash : Digest}

/-- The transaction of `get_or_create` puts the record and its owner, or nothing. -/
theorem serve_create {s : SandboxId} {record : SandboxRecord} {created : Bool}
    (h : w.serve c (.create hash s record) = some (w', created)) :
    (created = true ∧ w.owners hash = none ∧ (w.sandboxes s).item = none ∧
      w' = { w with
        owners := Function.update w.owners hash (some s)
        sandboxes :=
          Function.update w.sandboxes s { w.sandboxes s with item := some record.item } }) ∨
      (created = false ∧ w' = w) := by
  unfold serve at h
  dsimp only at h
  split at h
  · next hnone =>
    cases h
    rw [Bool.and_eq_true, Option.isNone_iff_eq_none, Option.isNone_iff_eq_none] at hnone
    exact .inl ⟨rfl, hnone.1, hnone.2, rfl⟩
  · cases h
    exact .inr ⟨rfl, rfl⟩

end ControlWorld

/-! ## Who asks for what -/

/-- What a request knows: the id of its owner's sandbox as text, an id it drew, whether it may
create a record, and whether it changed one. -/
structure Known where
  own : Option Str := none
  draft : Option SandboxId := none
  mayCreate : Bool := true
  changed : Bool := false

/-- The sandbox a body names. -/
def bodySandbox (body : Fields) : Option Str :=
  match get body "sandboxId" with
  | .str id => some id
  | _ => none

namespace ControlService

variable (svc : ControlService)

def guard (owner : Option Digest) : Guard ControlQuery ControlAnswer Known where
  may k
    | .sandboxId hash => owner = some hash
    | .owner hash => owner = some hash
    | .create hash s _ => owner = some hash ∧ k.draft = some s ∧ k.mayCreate = true
    | .metadata s | .put s _ _ | .observe s _ | .history s _ | .checkpoint s _ | .checkpoints
        s | .wakeSubject s _ | .brokerWrite s _ =>
      k.own = some s.text
    | .idempotency key => svc.ownerHash key.subject = owner
    | .remember key _ response =>
      svc.ownerHash key.subject = owner ∧ ∀ id, bodySandbox response = some id → k.own = some id
    | .clock | .random | .sessionId | .salt | .nonce | .sealSubject _ _ | .stopRuntime _ => True
  sees k
    | .owner _, a => ∀ id, k.own = some id → ∃ s : SandboxId, a = some s ∧ s.text = id
    | .metadata _, a => Option.isSome a = true
    | _, _ => True
  learn k
    | .sandboxId _, s => { k with draft := some s }
    | .owner _, some s => { k with own := some s.text }
    | .create _ s _, true => { k with own := some s.text }
    | .put _ _ _, true => { k with changed := true }
    | .wakeSubject _ _, true => { k with changed := true }
    | .brokerWrite _ _, true => { k with changed := true }
    | .idempotency _, some (_, response) => { k with own := (bodySandbox response).or k.own }
    | _, _ => k

/-- The subject an event is for. -/
def eventSubject (event : Fields) : Option Str :=
  if schedules event "schedulerStart" || schedules event "schedulerStop" then nonemptyStr
    (get event "cognitoSubject")
  else (claimsFromEvent (requestContext event)).bind fun claims => nonemptyStr (get claims "sub")

/-- A request: an event for an instance of the function, or a call of the broker for a sandbox of an
owner. -/
inductive Request
  | invoke (lambda : Nat) (event : Fields)
  | broker (owner : Digest) (s : SandboxId) (call : BrokerCall)

def server : Server Request (Option Digest) Outside ControlQuery ControlAnswer
    (Option ControlResponse) ControlWorld where
  label
    | .invoke _ event => (eventSubject event).bind svc.ownerHash
    | .broker owner _ _ => some owner
  program
    | .invoke lambda event => svc.handle lambda event
    | .broker _ s call => .ask (.brokerWrite s call) fun _ => .done none
  starts w
    | .invoke _ _ => true
    | .broker owner s _ => w.owners owner = some s
  serve := ControlWorld.serve

/-! ## What each part asks -/

variable {svc} {owner : Option Digest} {k : Known} {subject : Str}

/-- As much leave to create, and no other record changed. -/
def Quiet (k k' : Known) : Prop := k'.changed = k.changed ∧ k'.mayCreate = k.mayCreate

/-- As much leave to create. -/
def Lasting (k k' : Known) : Prop := k'.mayCreate = k.mayCreate

/-- The sandbox is known to be the owner's. -/
def Own (k : Known) (s : SandboxId) : Prop := k.own = some s.text

/-- What a lookup leaves that raises: where nothing was found, the owner was not known to have a
sandbox. -/
def Missed (k k' : Known) (subject : Str) (e : ControlError) : Prop :=
  Quiet k k' ∧ (e = .unavailable → subject = [] ∨ k.own = none)

theorem lookup_keeps {hash : Digest} (howner : owner = some hash) :
    (lookup hash).Keeps (svc.guard owner) (fun k' x => Own k' x.1 ∧ Quiet k k')
      (fun k' e => Missed k k' subject e) k := by
  refine Asks.Keeps.bind (Asks.Keeps.request howner fun a hsees => ?_)
  cases a with
  | none =>
    refine Asks.Keeps.raise ⟨⟨rfl, rfl⟩, fun _ => .inr ?_⟩
    by_contra hknown
    obtain ⟨id, hid⟩ := Option.ne_none_iff_exists'.1 hknown
    obtain ⟨s, hs, -⟩ := hsees id hid
    cases hs
  | some s =>
    refine Asks.Keeps.bind (Asks.Keeps.request rfl fun a hsees => ?_)
    cases a with
    | none => cases hsees
    | some item => exact Asks.Keeps.pure ⟨rfl, rfl, rfl⟩

theorem registryGet_keeps (howner : svc.ownerHash subject = owner) :
    (svc.registryGet subject).Keeps (svc.guard owner) (fun k' x => Own k' x.1 ∧ Quiet k k')
      (fun k' e => Missed k k' subject e) k := by
  unfold registryGet
  split
  · next hempty => exact Asks.Keeps.raise ⟨⟨rfl, rfl⟩, fun _ => .inl hempty⟩
  · split
    · refine Asks.Keeps.raise ⟨⟨rfl, rfl⟩, ?_⟩
      intro h
      cases h
    · next hash hhash => exact lookup_keeps (howner.symm.trans hhash)

theorem registryCreate_keeps (howner : svc.ownerHash subject = owner) (hcreate : subject ≠ [] →
    k.mayCreate = true) :
    (svc.registryCreate subject).Keeps (svc.guard owner) (fun k' x => Own k' x.1 ∧ Quiet k k')
      (fun k' _ => Quiet k k') k := by
  unfold registryCreate
  split
  · exact Asks.Keeps.raise ⟨rfl, rfl⟩
  · next hsubject =>
    split
    · exact Asks.Keeps.raise ⟨rfl, rfl⟩
    · next hash hhash =>
      have hlabel := howner.symm.trans hhash
      refine Asks.Keeps.bind (Asks.Keeps.request trivial fun now _ => ?_)
      refine Asks.Keeps.bind (Asks.Keeps.request hlabel fun s _ => ?_)
      refine Asks.Keeps.bind (Asks.Keeps.request trivial fun session _ => ?_)
      refine Asks.Keeps.bind (Asks.Keeps.request ⟨hlabel, rfl, hcreate hsubject⟩ fun created _ =>
        ?_)
      cases created with
      | true => exact Asks.Keeps.pure ⟨rfl, rfl, rfl⟩
      | false => exact (registryGet_keeps howner).mono (fun _ _ h => h) fun _ _ h => h.1

/-- A record is created only where the owner was not known to have one. -/
theorem getOrCreate_keeps (howner : svc.ownerHash subject = owner) (hcreate : k.own = none →
    k.mayCreate = true) :
    (svc.getOrCreate subject).Keeps (svc.guard owner) (fun k' x => Own k' x.1 ∧ Quiet k k')
      (fun k' _ => Quiet k k') k := by
  refine Asks.Keeps.attempt ((registryGet_keeps howner).mono (fun _ _ h => h) ?_)
  rintro k' e ⟨hquiet, hmissed⟩
  cases e with
  | unavailable =>
    refine (registryCreate_keeps howner ?_).mono ?_ ?_
    · intro hsubject
      exact hquiet.2.trans (hcreate ((hmissed rfl).resolve_left hsubject))
    · rintro k'' x ⟨hown, hchanged, hmay⟩
      exact ⟨hown, hchanged.trans hquiet.1, hmay.trans hquiet.2⟩
    · rintro k'' e ⟨hchanged, hmay⟩
      exact ⟨hchanged.trans hquiet.1, hmay.trans hquiet.2⟩
  | api status code category message retryable => exact Asks.Keeps.raise hquiet
  | conflict message => exact Asks.Keeps.raise hquiet
  | crash => exact Asks.Keeps.raise hquiet

theorem putUpdated_keeps {s : SandboxId} {previous updated : SandboxRecord} (hown : Own k s) :
    (putUpdated s previous updated).Keeps (svc.guard owner) (fun k' _ => Own k' s ∧ Lasting k k')
      (fun k' _ => Quiet k k') k := by
  refine Asks.Keeps.bind (Asks.Keeps.request hown fun applied _ => ?_)
  cases applied with
  | true => exact Asks.Keeps.pure ⟨hown, rfl⟩
  | false => exact Asks.Keeps.raise ⟨rfl, rfl⟩

theorem store_keeps {α : Type} {x : α} {k₁ : Known} {s : SandboxId}
    {previous updated : SandboxRecord} {ret : Known → α → Prop}
    (hown : Own k₁ s) (hquiet : Quiet k k₁) (hret : ∀ k', Own k' s → Lasting k k' → ret k' x) :
    Asks.Keeps (svc.guard owner) ret (fun k' _ => Quiet k k')
      (do
        putUpdated s previous updated
        pure x) k₁ := by
  refine Asks.Keeps.bind ((putUpdated_keeps hown).mono ?_ ?_)
  · rintro k₂ _ ⟨hown₂, hlasting⟩
    exact Asks.Keeps.pure (hret k₂ hown₂ (hlasting.trans hquiet.2))
  · rintro k₂ _ ⟨hchanged, hmay⟩
    exact ⟨hchanged.trans hquiet.1, hmay.trans hquiet.2⟩

theorem acquireStart_keeps (howner : svc.ownerHash subject = owner) (hcreate : k.own = none →
    k.mayCreate = true)
    (leaseOwner : SessionId) :
    (svc.acquireStart subject leaseOwner).Keeps (svc.guard owner) (fun k' x => Own k' x.1.1 ∧
        Lasting k k') (fun k' _ => Quiet k k') k := by
  refine Asks.Keeps.bind ((getOrCreate_keeps howner hcreate).mono ?_ fun _ _ h => h)
  rintro k₁ ⟨s, record⟩ ⟨hown, hquiet⟩
  refine Asks.Keeps.bind (Asks.Keeps.request trivial fun now _ => ?_)
  refine Asks.Keeps.bind (Asks.Keeps.request trivial fun rotated _ => ?_)
  cases KiroCrew.acquireStart record leaseOwner startLeaseTtl false rotated now with
  | keep authoritative => exact Asks.Keeps.pure ⟨hown, hquiet.2⟩
  | leaseConflict => exact Asks.Keeps.raise hquiet
  | rotate updated => exact store_keeps hown hquiet fun k' hown hlasting => ⟨hown, hlasting⟩

theorem transition_keeps (howner : svc.ownerHash subject = owner) (expectedVersion : Nat)
    (leaseOwner : Option SessionId) :
    (svc.transition subject expectedVersion leaseOwner).Keeps (svc.guard owner)
      (fun k' x => Own k' x.1 ∧ Lasting k k')
      (fun k' _ => Quiet k k') k := by
  refine Asks.Keeps.bind ((registryGet_keeps howner).mono ?_ fun _ _ h => h.1)
  rintro k₁ ⟨s, record⟩ ⟨hown, hquiet⟩
  refine Asks.Keeps.bind (Asks.Keeps.request trivial fun now _ => ?_)
  cases KiroCrew.transition record expectedVersion leaseOwner now with
  | none =>
    dsimp only
    split
    · exact Asks.Keeps.raise hquiet
    · exact Asks.Keeps.raise hquiet
  | some updated => exact store_keeps hown hquiet fun k' hown hlasting => ⟨hown, hlasting⟩

theorem requestDeletion_keeps (howner : svc.ownerHash subject = owner) :
    (svc.requestDeletion subject).Keeps (svc.guard owner) (fun k' x => Own k' x.1 ∧ Lasting k k')
      (fun k' _ => Quiet k k') k := by
  refine Asks.Keeps.bind ((registryGet_keeps howner).mono ?_ fun _ _ h => h.1)
  rintro k₁ ⟨s, record⟩ ⟨hown, hquiet⟩
  refine Asks.Keeps.bind (Asks.Keeps.request trivial fun now _ => ?_)
  cases KiroCrew.requestDeletion record now with
  | none => exact Asks.Keeps.raise hquiet
  | some updated => exact store_keeps hown hquiet fun k' hown hlasting => ⟨hown, hlasting⟩

/-- A body names no sandbox but the owner's. -/
def Names (k : Known) (body : Fields) : Prop := ∀ id, bodySandbox body = some id → k.own = some id

/-- Whatever is raised but a crash comes before any change of a record. -/
def Spared (k k' : Known) (e : ControlError) : Prop := e = .crash ∨ k'.changed = k.changed

theorem Quiet.spared {k' : Known} (h : Quiet k k') (e : ControlError) : Spared k k' e := .inr h.1

theorem issueToken_keeps (unattended : Bool) (identity : Identity) (x : SandboxId × SandboxRecord) :
    (svc.issueToken unattended identity x).Keeps (svc.guard owner) (fun k' _ => k' = k)
      (fun k' e => k' = k ∧ e = .crash) k := by
  unfold issueToken
  split
  · exact Asks.Keeps.raise ⟨rfl, rfl⟩
  · refine Asks.Keeps.bind (Asks.Keeps.request trivial fun now _ => ?_)
    refine Asks.Keeps.bind (Asks.Keeps.request trivial fun later _ => ?_)
    refine Asks.Keeps.bind (Asks.Keeps.request trivial fun nonce _ => ?_)
    refine Asks.Keeps.bind (Asks.Keeps.request trivial fun salt _ => ?_)
    cases salt with
    | none => exact Asks.Keeps.raise ⟨rfl, rfl⟩
    | some salt => exact Asks.Keeps.pure rfl

/-- Nothing is remembered, or what is names the owner's sandbox. -/
theorem idempotent_keeps (key : MemoryKey) (payloadHash : Str)
    (howner : svc.ownerHash key.subject = owner) :
    (idempotent key payloadHash).Keeps (svc.guard owner)
      (fun k' a => (a = none → k' = k) ∧ ∀ response, a = some response → Names k' response ∧
          Quiet k k') (fun k' _ => Quiet k k') k := by
  refine Asks.Keeps.bind (Asks.Keeps.request howner fun a _ => ?_)
  cases a with
  | none =>
    refine Asks.Keeps.pure ⟨fun _ => rfl, ?_⟩
    rintro response ⟨⟩
  | some x =>
    obtain ⟨hash, response⟩ := x
    dsimp only
    split
    · exact Asks.Keeps.raise ⟨rfl, rfl⟩
    · refine Asks.Keeps.pure ⟨?_, ?_⟩
      · intro h
        cases h
      · rintro _ ⟨⟩
        refine ⟨?_, rfl, rfl⟩
        intro id hid
        show (bodySandbox response).or k.own = some id
        rw [hid]
        rfl

theorem remember_keeps (key : MemoryKey) (payloadHash : Str)
    (howner : svc.ownerHash key.subject = owner) {response : Fields}
    (hnames : Names k response) :
    (remember key payloadHash response).Keeps (svc.guard owner) (fun k' _ => k' = k)
        (fun _ _ => False) k :=
  Asks.Keeps.request ⟨howner, hnames⟩ fun _ _ => rfl

theorem enrollWake_keeps (identity : Identity) {s : SandboxId} (hown : Own k s) :
    (svc.enrollWake identity s).Keeps (svc.guard owner) (fun k' _ => Own k' s ∧ Lasting k k')
      (fun _ _ => False) k := by
  unfold enrollWake
  split
  · exact Asks.Keeps.pure ⟨hown, rfl⟩
  · refine Asks.Keeps.bind (Asks.Keeps.request trivial fun sealed _ => ?_)
    cases sealed with
    | none => exact Asks.Keeps.pure ⟨hown, rfl⟩
    | some sealed =>
      dsimp only
      split
      · exact Asks.Keeps.pure ⟨hown, rfl⟩
      · refine Asks.Keeps.bind (Asks.Keeps.request hown fun applied _ => ?_)
        cases applied with
        | true => exact Asks.Keeps.pure ⟨hown, rfl⟩
        | false => exact Asks.Keeps.pure ⟨hown, rfl⟩

theorem stopRuntime_keeps (session : SessionId) (attempts : Nat) :
    (stopRuntime session attempts).Keeps (svc.guard owner) (fun k' _ => k' = k)
      (fun k' _ => k' = k) k := by
  induction attempts with
  | zero => exact Asks.Keeps.raise rfl
  | succ attempts ih =>
    refine Asks.Keeps.bind (Asks.Keeps.request trivial fun status _ => ?_)
    cases status with
    | none => exact Asks.Keeps.pure rfl
    | some status =>
      dsimp only
      split
      · exact ih
      · exact Asks.Keeps.pure rfl

/-! ### Bodies -/

theorem names_of_own {s : SandboxId} {body : Fields} (hown : Own k s)
    (hbody : bodySandbox body = some s.text) : Names k body := by
  intro id hid
  rw [hbody] at hid
  cases hid
  exact hown

theorem bodySandbox_startBody (svc : ControlService) (token : Str) (expires : Instant)
    (x : SandboxId × SandboxRecord) :
    bodySandbox (svc.startBody token expires x) = some x.1.text := by
  simp [bodySandbox, startBody, ManifestDecoder.get, Value.get, List.find?, Str.ofString_inj]

theorem bodySandbox_schedulerBody (svc : ControlService) (token : Str) (expires : Instant)
    (x : SandboxId × SandboxRecord) (authoritative : Bool) :
    bodySandbox (svc.schedulerBody token expires x authoritative) = some x.1.text := by
  simp [bodySandbox, schedulerBody, ManifestDecoder.get, Value.get, List.find?, Str.ofString_inj]

theorem bodySandbox_sandboxBody (x : SandboxId × SandboxRecord) : bodySandbox (sandboxBody x) =
    some x.1.text := by
  unfold sandboxBody
  split <;> simp [bodySandbox, ManifestDecoder.get, Value.get, List.find?, Str.ofString_inj]

theorem bodySandbox_publicConfig (svc : ControlService) : bodySandbox svc.publicConfig = none := by
  simp [bodySandbox, publicConfig, ManifestDecoder.get, Value.get, List.find?, Str.ofString_inj]

theorem bodySandbox_historyBody (svc : ControlService) (events : List HistoryEvent) :
    bodySandbox (svc.historyBody events) = none := by
  simp [bodySandbox, historyBody, ManifestDecoder.get, Value.get, List.find?, Str.ofString_inj]

/-! ### Operations -/

theorem start_keeps (lambda : Nat) {identity : Identity}
    (howner : svc.ownerHash identity.subject = owner) (key : Str)
    (hcreate : k.mayCreate = true) :
    (svc.start lambda identity key).Keeps (svc.guard owner) Names (Spared k) k := by
  refine Asks.Keeps.bind ((idempotent_keeps ⟨lambda, identity.subject, "start", key⟩ _ howner).mono
    ?_ fun _ _ h => h.spared _)
  rintro k₁ (_ | response) ⟨hnone, hsome⟩
  · obtain rfl := hnone rfl
    refine Asks.Keeps.bind ((getOrCreate_keeps howner fun _ => hcreate).mono ?_ fun _ _ h =>
      h.spared _)
    rintro k₂ existing ⟨-, hquiet₂⟩
    refine Asks.Keeps.bind ((acquireStart_keeps howner (fun _ => hquiet₂.2.trans hcreate) _).mono ?_
      fun _ _ h => .inr (h.1.trans hquiet₂.1))
    rintro k₃ ⟨x, authoritative⟩ ⟨hown, -⟩
    refine Asks.Keeps.bind ((issueToken_keeps false identity x).mono ?_ fun _ _ h => .inl h.2)
    rintro k₄ ⟨token, expires⟩ rfl
    refine Asks.Keeps.bind ((enrollWake_keeps identity hown).mono ?_ fun _ _ h => h.elim)
    rintro k₅ _ ⟨hown₅, -⟩
    have hnames := names_of_own hown₅ (bodySandbox_startBody svc token expires x)
    refine Asks.Keeps.bind ((remember_keeps ⟨lambda, identity.subject, "start", key⟩ _ howner
      hnames).mono ?_ fun _ _ h => h.elim)
    rintro k₆ _ rfl
    exact Asks.Keeps.pure hnames
  · exact Asks.Keeps.pure (hsome response rfl).1

/-- The sandbox a scheduler names is the owner's. -/
theorem named_keeps (howner : svc.ownerHash subject = owner) (sandboxId : Str) (missing : String) :
    (svc.named subject sandboxId missing).Keeps (svc.guard owner) (fun k' x => Own k' x.1 ∧
    Quiet k k') (fun k' _ => Quiet k k') k := by
  refine Asks.Keeps.bind (Asks.Keeps.attempt ((registryGet_keeps howner).mono ?_ ?_))
  · rintro k₁ existing ⟨hown, hquiet⟩
    split
    · exact Asks.Keeps.raise hquiet
    · exact Asks.Keeps.pure ⟨hown, hquiet⟩
  · rintro k₁ e ⟨hquiet, -⟩
    cases e with
    | unavailable => exact Asks.Keeps.raise hquiet
    | api status code category message retryable => exact Asks.Keeps.raise hquiet
    | conflict message => exact Asks.Keeps.raise hquiet
    | crash => exact Asks.Keeps.raise hquiet

theorem schedulerStart_keeps (lambda : Nat) {event : Fields}
    (howner : ∀ subject, nonemptyStr (get event "cognitoSubject") = some subject →
    svc.ownerHash subject = owner) :
    (svc.schedulerStart lambda event).Keeps (svc.guard owner) Names (Spared k) k := by
  unfold schedulerStart
  split
  · exact Asks.Keeps.raise (.inr rfl)
  · exact Asks.Keeps.raise (.inr rfl)
  · exact Asks.Keeps.raise (.inr rfl)
  · next subject sandboxId key hsubject _ _ =>
    have howner := howner subject hsubject
    refine Asks.Keeps.bind ((idempotent_keeps ⟨lambda, subject, "schedulerStart", key⟩ _
      howner).mono ?_ fun _ _ h => h.spared _)
    rintro k₁ (_ | response) ⟨hnone, hsome⟩
    · obtain rfl := hnone rfl
      refine Asks.Keeps.bind ((named_keeps howner _ _).mono ?_ fun _ _ h => h.spared _)
      rintro k₂ existing ⟨hown₂, hquiet₂⟩
      -- the sandbox is known, so no record is created
      have hcreate : k₂.own = none → k₂.mayCreate = true := by
        intro hnone
        rw [hown₂] at hnone
        cases hnone
      refine Asks.Keeps.bind ((acquireStart_keeps howner hcreate _).mono ?_ fun _ _ h =>
        .inr (h.1.trans hquiet₂.1))
      rintro k₃ ⟨x, authoritative⟩ ⟨hown, -⟩
      refine Asks.Keeps.bind ((issueToken_keeps true
        { subject := subject, administrator := false } x).mono ?_ fun _ _ h => .inl h.2)
      rintro k₄ ⟨token, expires⟩ rfl
      have hnames := names_of_own hown (bodySandbox_schedulerBody svc token expires x authoritative)
      refine Asks.Keeps.bind ((remember_keeps ⟨lambda, subject, "schedulerStart", key⟩ _ howner
        hnames).mono ?_ fun _ _ h => h.elim)
      rintro k₅ _ rfl
      exact Asks.Keeps.pure hnames
    · exact Asks.Keeps.pure (hsome response rfl).1

theorem stop_keeps (lambda : Nat) (identity : Identity)
    (howner : svc.ownerHash identity.subject = owner) (key : Str) (body : Fields) :
    (svc.stop lambda identity key body).Keeps (svc.guard owner) Names (Spared k) k := by
  unfold stop
  split
  · next receipt _ =>
    split
    · exact Asks.Keeps.raise (.inr rfl)
    · split
      · next bytes digest _ _ =>
        refine Asks.Keeps.bind ((idempotent_keeps ⟨lambda, identity.subject, "stop", key⟩ _
          howner).mono ?_ fun _ _ h => h.spared _)
        rintro k₁ (_ | response) ⟨hnone, hsome⟩
        · obtain rfl := hnone rfl
          refine Asks.Keeps.bind ((registryGet_keeps howner).mono ?_ fun _ _ h => h.1.spared _)
          rintro k₂ ⟨s, record⟩ ⟨hown, hquiet⟩
          refine Asks.Keeps.bind (Asks.Keeps.request trivial fun now _ => ?_)
          dsimp only
          split
          · exact Asks.Keeps.raise (.inr hquiet.1)
          · next generation digest _ =>
            refine Asks.Keeps.bind (Asks.Keeps.request hown fun metadata _ => ?_)
            split
            · exact Asks.Keeps.raise (.inr hquiet.1)
            · refine Asks.Keeps.bind ((stopRuntime_keeps record.runtimeSessionId
                svc.maxStopAttempts).mono ?_ ?_)
              · rintro k₃ _ rfl
                refine Asks.Keeps.bind ((transition_keeps howner _ _).mono ?_ fun _ _ h =>
                  .inr (h.1.trans hquiet.1))
                rintro k₄ stopped ⟨hown₄, -⟩
                have hnames := names_of_own hown₄ (bodySandbox_sandboxBody stopped)
                refine Asks.Keeps.bind ((remember_keeps ⟨lambda, identity.subject, "stop", key⟩ _
                  howner hnames).mono ?_
                  fun _ _ h => h.elim)
                rintro k₅ _ rfl
                exact Asks.Keeps.pure hnames
              · rintro k₃ e rfl
                exact .inr hquiet.1
        · exact Asks.Keeps.pure (hsome response rfl).1
      · exact Asks.Keeps.raise (.inl rfl)
  · exact Asks.Keeps.raise (.inr rfl)

theorem schedulerStop_keeps (lambda : Nat) {event : Fields}
    (howner : ∀ subject, nonemptyStr (get event "cognitoSubject") = some subject →
    svc.ownerHash subject = owner) :
    (svc.schedulerStop lambda event).Keeps (svc.guard owner) Names (Spared k) k := by
  unfold schedulerStop
  split
  · exact Asks.Keeps.raise (.inr rfl)
  · exact Asks.Keeps.raise (.inr rfl)
  · exact Asks.Keeps.raise (.inr rfl)
  · exact Asks.Keeps.raise (.inr rfl)
  · next subject sandboxId key receipt hsubject _ _ _ =>
    have howner := howner subject hsubject
    refine Asks.Keeps.bind ((named_keeps howner _ _).mono ?_ fun _ _ h => h.spared _)
    rintro k₁ existing ⟨-, hquiet⟩
    exact (stop_keeps lambda { subject := subject, administrator := false } howner _ _).mono
      (fun _ _ h => h) fun _ e h => h.imp id fun hsame => hsame.trans hquiet.1

/-! ### Requests -/

/-- What an answer says: a success, and no sandbox but the owner's. -/
def Answers (k : Known) (x : Nat × Value) : Prop :=
  x.1 < 400 ∧ ∀ body, x.2 = .obj body → Names k body

theorem Answers.obj {body : Fields} {status : Nat} (hstatus : status < 400) (h : Names k body) :
    Answers k (status, .obj body) := by
  refine ⟨hstatus, ?_⟩
  rintro _ ⟨⟩
  exact h

theorem names_of_none {body : Fields} (h : bodySandbox body = none) : Names k body := by
  intro id hid
  rw [h] at hid
  cases hid

theorem ofExcept_keeps {α : Type} (x : Except ControlError α) :
    (ofExcept x).Keeps (svc.guard owner) (fun k' a => k' = k ∧ x = .ok a)
      (fun k' _ => k' = k) k := by
  cases x with
  | ok a => exact Asks.Keeps.pure ⟨rfl, rfl⟩
  | error e => exact Asks.Keeps.raise rfl

theorem perform_keeps (lambda : Nat) (event : Fields) {identity : Identity}
    (howner : svc.ownerHash identity.subject = owner)
    (hcreate : k.mayCreate = true) (operation : ControlOperation) :
    (svc.perform lambda event identity operation).Keeps (svc.guard owner) Answers (Spared k) k := by
  cases operation with
  | getPublicConfig =>
    exact Asks.Keeps.pure (.obj (by decide) (names_of_none (bodySandbox_publicConfig svc)))
  | getSandbox =>
    refine Asks.Keeps.bind ((getOrCreate_keeps howner fun _ => hcreate).mono ?_ fun _ _ h =>
      h.spared _)
    rintro k₁ x ⟨hown, -⟩
    refine Asks.Keeps.bind (Asks.Keeps.request hown fun _ _ => ?_)
    exact Asks.Keeps.pure (.obj (by decide) (names_of_own hown (bodySandbox_sandboxBody x)))
  | getSandboxHistory =>
    refine Asks.Keeps.bind ((getOrCreate_keeps howner fun _ => hcreate).mono ?_ fun _ _ h =>
      h.spared _)
    rintro k₁ x ⟨hown, -⟩
    refine Asks.Keeps.bind (Asks.Keeps.request hown fun _ _ => ?_)
    refine Asks.Keeps.bind (Asks.Keeps.request hown fun events _ => ?_)
    exact Asks.Keeps.pure (.obj (by decide) (names_of_none (bodySandbox_historyBody svc events)))
  | startSandbox =>
    refine Asks.Keeps.bind ((ofExcept_keeps (idempotencyKey event)).mono ?_ fun _ _ h =>
      .inr (by rw [h]))
    rintro k₁ key ⟨rfl, -⟩
    refine Asks.Keeps.bind ((start_keeps lambda howner key hcreate).mono ?_ fun _ _ h => h)
    rintro k₂ body hnames
    exact Asks.Keeps.pure (.obj (by decide) hnames)
  | stopSandbox =>
    refine Asks.Keeps.bind ((ofExcept_keeps (idempotencyKey event)).mono ?_ fun _ _ h =>
      .inr (by rw [h]))
    rintro k₁ key ⟨rfl, -⟩
    refine Asks.Keeps.bind ((ofExcept_keeps (requestBody event)).mono ?_ fun _ _ h =>
      .inr (by rw [h]))
    rintro k₂ body ⟨rfl, -⟩
    refine Asks.Keeps.bind ((stop_keeps lambda identity howner key body).mono ?_ fun _ _ h => h)
    rintro k₃ response hnames
    exact Asks.Keeps.pure (.obj (by decide) hnames)
  | listCheckpoints =>
    refine Asks.Keeps.bind ((registryGet_keeps howner).mono ?_ fun _ _ h => h.1.spared _)
    rintro k₁ x ⟨hown, -⟩
    refine Asks.Keeps.bind (Asks.Keeps.request hown fun items _ => ?_)
    refine Asks.Keeps.pure ⟨show 200 < 400 by omega, ?_⟩
    rintro body ⟨⟩
  | deleteSandbox =>
    show Asks.Keeps _ _ _ (if identity.administrator = false then _ else _) k
    split
    · exact Asks.Keeps.raise (.inr rfl)
    · refine Asks.Keeps.bind ((requestDeletion_keeps howner).mono ?_ fun _ _ h => h.spared _)
      rintro k₁ x ⟨hown, -⟩
      exact Asks.Keeps.pure (.obj (by decide) (names_of_own hown (bodySandbox_sandboxBody x)))

/-- Who is let in is the subject of the claims. -/
theorem validate_subject {claims : Option Fields} {now : Instant} {identity : Identity}
    (h : svc.validate claims now = .ok identity) :
    (claims.bind fun claims => nonemptyStr (get claims "sub")) = some identity.subject := by
  have hvalid : ∀ claims subject scopes expires,
    validate.valid svc claims subject scopes expires now = .ok identity →
      identity.subject = subject := by
    intro claims subject scopes expires h
    unfold validate.valid at h
    split at h
    · cases h
    · dsimp only at h
      split at h
      · cases h
      · split at h
        · cases h
        · cases h
          rfl
  have hnonempty : ∀ {subject : Str} {a b c : Bool}, ¬(!subject.isEmpty && a && b && c) = false →
      nonemptyStr (.str subject) = some subject := by
    intro subject a b c h
    refine if_neg ?_
    rintro rfl
    exact h rfl
  unfold validate at h
  split at h
  · cases h
  · next claims =>
    split at h
    · cases h
    · dsimp only at h
      split at h
      · next subject scopes i hsub _ _ =>
        split at h
        · cases h
        · next hchecked =>
          rw [Option.bind_some, hsub, hvalid _ _ _ _ h]
          exact hnonempty hchecked
      · next subject scopes text hsub _ _ =>
        split at h
        · cases h
        · next hchecked =>
          rw [Option.bind_some, hsub, hvalid _ _ _ _ h]
          exact hnonempty hchecked
      · cases h

theorem handleHttp_keeps (lambda : Nat) (event context : Fields)
    (howner : ∀ claims, claimsFromEvent context = some claims →
    ∀ subject, nonemptyStr (get claims "sub") = some subject →
      svc.ownerHash subject = owner) (hcreate : k.mayCreate = true) :
    (svc.handleHttp lambda event context).Keeps (svc.guard owner) Answers (Spared k) k := by
  unfold handleHttp
  dsimp only
  split
  · next verb path _ _ =>
    split
    · exact Asks.Keeps.raise (.inr rfl)
    · split
      · exact Asks.Keeps.pure (.obj (by decide) (names_of_none rfl))
      · split
        · exact Asks.Keeps.raise (.inr rfl)
        · exact Asks.Keeps.pure (.obj (by decide) (names_of_none (bodySandbox_publicConfig svc)))
        · next operation _ _ =>
          refine Asks.Keeps.bind (Asks.Keeps.request trivial fun now _ => ?_)
          refine Asks.Keeps.bind ((ofExcept_keeps _).mono ?_ fun _ _ h => .inr (by rw [h]; rfl))
          rintro k₁ identity ⟨rfl, hvalid⟩
          obtain ⟨claims, hclaims, hsubject⟩ := Option.bind_eq_some_iff.1 (validate_subject hvalid)
          exact perform_keeps lambda event (howner claims hclaims _ hsubject) hcreate operation
  · exact Asks.Keeps.raise (.inr rfl)

theorem handleEvent_keeps (lambda : Nat) (event : Fields)
    (howner : (eventSubject event).bind svc.ownerHash = owner)
    (hcreate : schedules event "schedulerStart" = false → schedules event "schedulerStop" = false →
    k.mayCreate = true) :
    (svc.handleEvent lambda event).Keeps (svc.guard owner) Answers (Spared k) k := by
  unfold eventSubject at howner
  have hnamed : (schedules event "schedulerStart" || schedules event "schedulerStop") = true →
      ∀ subject, nonemptyStr (get event "cognitoSubject") = some subject →
      svc.ownerHash subject = owner := by
    intro hschedules subject hsubject
    rw [if_pos hschedules, hsubject] at howner
    exact howner
  unfold handleEvent
  split
  · next hstart =>
    refine Asks.Keeps.bind ((schedulerStart_keeps lambda (hnamed (by rw [hstart]; rfl))).mono
      ?_ fun _ _ h => h)
    intro k₁ body hnames
    exact Asks.Keeps.pure (.obj (by decide) hnames)
  · next hstart =>
    split
    · next hstop =>
      refine Asks.Keeps.bind ((schedulerStop_keeps lambda
        (hnamed (by rw [hstop, Bool.or_true]))).mono ?_ fun _ _ h => h)
      intro k₁ body hnames
      exact Asks.Keeps.pure (.obj (by decide) hnames)
    · next hstop =>
      rw [Bool.not_eq_true] at hstart hstop
      refine handleHttp_keeps lambda event _ ?_ (hcreate hstart hstop)
      intro claims hclaims subject hsubject
      rw [hstart, hstop, Bool.or_self, if_neg Bool.false_ne_true, hclaims, Option.bind_some,
        hsubject] at howner
      exact howner

/-- What holds of an answer: it names no sandbox but the owner's, and an error has changed no
record. -/
def Answered (k : Known) (r : Option ControlResponse) : Prop :=
  ∀ response, r = some response →
    (∀ body, response.body = some (.obj body) → Names k body) ∧
    (400 ≤ response.status → k.changed = false)

theorem answered_error {k' : Known} {e : ControlError} (h : Spared k k' e)
    (hchanged : k.changed = false) (correlationId : Str) :
    Answered k' (e.response correlationId) := by
  intro response hresponse
  have hbody : ∀ code category message retryable, bodySandbox
      [(Str.ofString "category", .str category), (Str.ofString "code", .str code),
        (Str.ofString "correlationId", .str correlationId),
        (Str.ofString "message", .str message), (Str.ofString "retryable", .bool retryable)] =
        none := by
    intro code category message retryable
    simp [bodySandbox, ManifestDecoder.get, Value.get, List.find?, Str.ofString_inj]
  have hspared : e ≠ .crash → k'.changed = false := by
    intro hne
    exact (h.resolve_left hne).trans hchanged
  cases e with
  | api status code category message retryable =>
    cases hresponse
    refine ⟨?_, fun _ => hspared (by rintro ⟨⟩)⟩
    rintro _ ⟨⟩
    exact names_of_none (hbody _ _ _ _)
  | unavailable =>
    cases hresponse
    refine ⟨?_, fun _ => hspared (by rintro ⟨⟩)⟩
    rintro _ ⟨⟩
    exact names_of_none (hbody _ _ _ _)
  | conflict message =>
    cases hresponse
    refine ⟨?_, fun _ => hspared (by rintro ⟨⟩)⟩
    rintro _ ⟨⟩
    exact names_of_none (hbody _ _ _ _)
  | crash => cases hresponse

/-- What a request knows at first. -/
def initialKnown (event : Fields) : Known :=
  { mayCreate := !(schedules event "schedulerStart" || schedules event "schedulerStop") }

theorem respond_keeps (lambda : Nat) (event : Fields) (correlationId : Str) :
    (svc.respond lambda event correlationId).Keeps
      (svc.guard ((eventSubject event).bind svc.ownerHash)) Answered (initialKnown event) := by
  refine Program.Keeps.bind (Program.Keeps.mono (handleEvent_keeps lambda event rfl ?_) ?_)
  · intro hstart hstop
    show (!(schedules event "schedulerStart" || schedules event "schedulerStop")) = true
    rw [hstart, hstop]
    rfl
  · rintro k₁ (e | ⟨status, body⟩) h
    · exact answered_error h rfl correlationId
    · rintro response ⟨⟩
      refine ⟨?_, ?_⟩
      · intro fields hbody
        dsimp only at hbody
        split at hbody
        · cases hbody
        · cases hbody
          exact h.2 fields rfl
      · intro herror
        have := h.1
        dsimp only at this herror
        omega

/-- `handle` asks for nothing but its owner's, and its answer names nothing else, whatever it is
answered. -/
theorem handle_keeps (lambda : Nat) (event : Fields) :
    (svc.handle lambda event).Keeps (svc.guard ((eventSubject event).bind svc.ownerHash)) Answered
      (initialKnown event) := by
  unfold handle
  split
  · exact respond_keeps lambda event _
  · exact ⟨trivial, fun value _ => respond_keeps lambda event _⟩

end ControlService

end KiroCrew
