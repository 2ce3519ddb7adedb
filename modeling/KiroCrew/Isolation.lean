import KiroCrew.Tenants
import KiroCrew.TokenRuns

/-!
# Runs of the control plane

Requests that keep their guards know only what is so (`ControlService.guarded`). So an owner has one
sandbox, its own, whatever ids are drawn (`one_sandbox`), and where no id is drawn twice every run
looks to each owner as if there were no other (`isolated`). A request that is answered with an error
has changed no record (`error_changes_nothing`), and a scheduled one creates none
(`schedule_creates_nothing`).
-/

namespace KiroCrew

namespace ControlService

variable {svc : ControlService} {owner : Option Digest} {k : Known}

/-! ## What is known is true -/

variable (svc) in
/-- Every record has one owner, and what is remembered names the sandbox of its subject. -/
structure Inv (w : ControlWorld) : Prop where
  owned : ∀ hash s, w.owners hash = some s → (w.sandboxes s).item.isSome
  unique : ∀ hash hash' s, w.owners hash = some s → w.owners hash' = some s → hash = hash'
  born : ∀ s, (w.sandboxes s).item.isSome → ∃ hash, w.owners hash = some s
  kept : ∀ key payloadHash response, w.memory key = some (payloadHash, response) →
    ∀ id, bodySandbox response = some id →
    ∃ hash s, svc.ownerHash key.subject = some hash ∧ w.owners hash = some s ∧ s.text = id

/-- What a request knows of its owner is so. -/
def Valid (owner : Option Digest) (k : Known) (w : ControlWorld) : Prop :=
  ∀ id, k.own = some id → ∃ hash s, owner = some hash ∧ w.owners hash = some s ∧ s.text = id

/-- Owners keep their sandboxes. -/
def Grows (w w' : ControlWorld) : Prop := ∀ hash s, w.owners hash = some s → w'.owners hash = some s

variable {w w' : ControlWorld} {c : Outside} {s : SandboxId}

theorem Valid.mono (h : Valid owner k w) (hgrows : Grows w w') : Valid owner k w' := by
  intro id hid
  obtain ⟨hash, s, howner, hs, htext⟩ := h id hid
  exact ⟨hash, s, howner, hgrows hash s hs, htext⟩

/-- The sandbox a request knows is its owner's. -/
theorem Valid.own (h : Valid owner k w) (hown : Own k s) : ∃ hash, owner = some hash ∧
    w.owners hash = some s := by
  obtain ⟨hash, s', howner, hs', htext⟩ := h _ hown
  rw [SandboxId.ext_text htext] at hs'
  exact ⟨hash, howner, hs'⟩

/-- What an operation on the items of a sandbox leaves: a record there if there was one. -/
def Keeping {α : Type} (f : SandboxTable → SandboxTable × α) : Prop :=
  ∀ t, (f t).1.item.isSome = t.item.isSome

theorem keeping_read {α : Type} (f : SandboxTable → α) : Keeping fun t => (t, f t) := fun _ => rfl

theorem keeping_put (previous updated : SandboxRecord) : Keeping (·.put previous updated) := by
  intro t
  dsimp only [SandboxTable.put]
  cases hitem : t.item with
  | none => exact congrArg Option.isSome hitem
  | some item =>
    rw [Option.bind_some]
    cases KiroCrew.putUpdated item previous updated with
    | none => exact congrArg Option.isSome hitem
    | some item' => rfl

theorem keeping_observe (record : SandboxRecord) : Keeping fun t => (t.observe record, ()) := by
  intro t
  dsimp only [SandboxTable.observe]
  split <;> rfl

theorem keeping_wakeSubject (sealed : String) : Keeping (·.wakeSubject sealed) := by
  intro t
  dsimp only [SandboxTable.wakeSubject]
  cases hitem : t.item with
  | none => exact congrArg Option.isSome hitem
  | some item => rfl

theorem keeping_brokerWrite (call : BrokerCall) (now : Instant) :
    Keeping (·.brokerWrite call now) := by
  intro t
  unfold SandboxTable.brokerWrite
  dsimp only
  split
  · rfl
  · next item hitem =>
    split
    · rfl
    · split <;> simp [hitem]

theorem Inv.on {α : Type} {f : SandboxTable → SandboxTable × α} (hf : Keeping f) (h : svc.Inv w)
    (s : SandboxId) :
    svc.Inv (w.on s f).1 := by
  have hitem : ∀ s', ((w.on s f).1.sandboxes s').item.isSome = (w.sandboxes s').item.isSome := by
    intro s'
    by_cases hs : s' = s
    · subst hs
      exact (congrArg (fun t : SandboxTable => t.item.isSome) (Function.update_self _ _ _)).trans
        (hf _)
    · exact congrArg (fun t : SandboxTable => t.item.isSome) (Function.update_of_ne hs _ _)
  refine ⟨?_, h.unique, ?_, h.kept⟩
  · intro hash s' hs'
    rw [hitem]
    exact h.owned hash s' hs'
  · intro s' hs'
    rw [hitem] at hs'
    exact h.born s' hs'

theorem grows_refl (w : ControlWorld) : Grows w w := fun _ _ h => h

/-- Whatever is asked, what is owned stays so. -/
theorem grows_of_serve {q : ControlQuery} {a : ControlAnswer q} (h : w.serve c q = some (w', a)) :
    Grows w w' := by
  cases q with
  | create hash s record =>
    rcases ControlWorld.serve_create h with ⟨rfl, hnone, -, rfl⟩ | ⟨rfl, rfl⟩
    · intro hash' s' hs'
      refine (Function.update_of_ne ?_ _ _).trans hs'
      rintro rfl
      rw [hs'] at hnone
      cases hnone
    · exact grows_refl _
  | clock | random | sandboxId | sessionId | salt | nonce | owner | metadata | put | observe
  | history | checkpoint | checkpoints
    | sealSubject | wakeSubject | stopRuntime | idempotency | remember | brokerWrite =>
    cases h
    exact grows_refl _

/-- The transaction that puts a record finds neither the owner nor the id taken. -/
theorem Inv.create (h : svc.Inv w) {hash : Digest} {record : SandboxRecord}
    (hnone : w.owners hash = none)
    (hitem : (w.sandboxes s).item = none) :
    svc.Inv { w with
      owners := Function.update w.owners hash (some s)
      sandboxes :=
        Function.update w.sandboxes s { w.sandboxes s with item := some record.item } } := by
  have howners : ∀ hash' s', w.owners hash' = some s' →
      Function.update w.owners hash (some s) hash' = some s' := by
    intro hash' s' hs'
    refine (Function.update_of_ne ?_ _ _).trans hs'
    rintro rfl
    rw [hnone] at hs'
    cases hs'
  -- the sandboxes that had an owner are others
  have hother : ∀ hash' s', w.owners hash' = some s' → s' ≠ s := by
    rintro hash' s' hs' rfl
    have hitem' := h.owned hash' s' hs'
    rw [hitem] at hitem'
    cases hitem'
  have hcases : ∀ hash' s', Function.update w.owners hash (some s) hash' = some s' →
      (hash' = hash ∧ s' = s) ∨ w.owners hash' = some s' := by
    intro hash' s' hs'
    by_cases hhash : hash' = hash
    · subst hhash
      rw [Function.update_self] at hs'
      cases hs'
      exact .inl ⟨rfl, rfl⟩
    · rw [Function.update_of_ne hhash] at hs'
      exact .inr hs'
  refine ⟨?_, ?_, ?_, ?_⟩
  · intro hash' s' hs'
    dsimp only at hs' ⊢
    rcases hcases hash' s' hs' with ⟨rfl, rfl⟩ | hs'
    · rw [Function.update_self]
      rfl
    · rw [Function.update_of_ne (hother hash' s' hs')]
      exact h.owned hash' s' hs'
  · intro hash₁ hash₂ s' h₁ h₂
    rcases hcases hash₁ s' h₁ with ⟨hhash₁, hs⟩ | howned₁
    · rcases hcases hash₂ s' h₂ with ⟨hhash₂, -⟩ | howned₂
      · exact hhash₁.trans hhash₂.symm
      · exact absurd hs (hother hash₂ s' howned₂)
    · rcases hcases hash₂ s' h₂ with ⟨-, hs⟩ | howned₂
      · exact absurd hs (hother hash₁ s' howned₁)
      · exact h.unique hash₁ hash₂ s' howned₁ howned₂
  · intro s' hs'
    dsimp only at hs' ⊢
    by_cases hne : s' = s
    · subst hne
      exact ⟨hash, Function.update_self _ _ _⟩
    · rw [Function.update_of_ne hne] at hs'
      obtain ⟨hash', hhash'⟩ := h.born s' hs'
      exact ⟨hash', howners _ _ hhash'⟩
  · intro key payloadHash response hmemory id hid
    obtain ⟨hash', s', hkey, hs', htext⟩ := h.kept key payloadHash response hmemory id hid
    exact ⟨hash', s', hkey, howners _ _ hs', htext⟩

theorem Inv.remember (h : svc.Inv w) (hvalid : Valid owner k w) {key : MemoryKey}
    {payloadHash : Str} {response : Fields}
    (howner : svc.ownerHash key.subject = owner) (hnames : Names k response) :
    svc.Inv { w with memory := Function.update w.memory key (some (payloadHash, response)) } := by
  refine ⟨h.owned, h.unique, h.born, ?_⟩
  intro key' payloadHash' response' hmemory id hid
  dsimp only at hmemory ⊢
  by_cases hkey : key' = key
  · subst hkey
    rw [Function.update_self] at hmemory
    cases hmemory
    obtain ⟨hash, s, howner', hs, htext⟩ := hvalid id (hnames id hid)
    exact ⟨hash, s, howner.trans howner', hs, htext⟩
  · rw [Function.update_of_ne hkey] at hmemory
    exact h.kept key' payloadHash' response' hmemory id hid

/-- The answer to what may be asked keeps the invariant. -/
theorem Inv.serve {q : ControlQuery} {a : ControlAnswer q} (h : svc.Inv w)
    (hvalid : Valid owner k w)
    (hmay : (svc.guard owner).may k q) (hserve : w.serve c q = some (w', a)) : svc.Inv w' := by
  cases q with
  | sandboxId hash =>
    cases hserve
    exact ⟨h.owned, h.unique, h.born, h.kept⟩
  | create hash s record =>
    rcases ControlWorld.serve_create hserve with ⟨rfl, hnone, hitem, rfl⟩ | ⟨rfl, rfl⟩
    · exact h.create hnone hitem
    · exact h
  | remember key payloadHash response =>
    cases hserve
    exact h.remember hvalid hmay.1 hmay.2
  | clock | random | sessionId | salt | nonce | owner | sealSubject | stopRuntime | idempotency =>
    cases hserve
    exact h
  | metadata s | history s | checkpoint s | checkpoints s =>
    cases hserve
    exact Inv.on (keeping_read _) h s
  | put s previous updated =>
    cases hserve
    exact Inv.on (keeping_put previous updated) h s
  | observe s record =>
    cases hserve
    exact Inv.on (keeping_observe record) h s
  | wakeSubject s sealed =>
    cases hserve
    exact Inv.on (keeping_wakeSubject sealed) h s
  | brokerWrite s call =>
    cases hserve
    exact Inv.on (keeping_brokerWrite call c.now) h s

theorem Valid.serve {q : ControlQuery} {a : ControlAnswer q} (h : svc.Inv w)
    (hvalid : Valid owner k w)
    (hmay : (svc.guard owner).may k q) (hserve : w.serve c q = some (w', a)) :
    (svc.guard owner).sees k q a ∧ Valid owner ((svc.guard owner).learn k q a) w' := by
  have hafter : Valid owner k w' := hvalid.mono (grows_of_serve hserve)
  cases q with
  | owner hash =>
    cases hserve
    refine ⟨?_, ?_⟩
    · intro id hid
      obtain ⟨hash', s, howner, hs, htext⟩ := hvalid id hid
      have hsame : hash' = hash := Option.some.inj (howner.symm.trans hmay)
      subst hsame
      exact ⟨s, hs, htext⟩
    · cases hfound : w.owners hash with
      | none => exact hvalid
      | some s =>
        rintro id ⟨⟩
        exact ⟨hash, s, hmay, hfound, rfl⟩
  | metadata s =>
    cases hserve
    obtain ⟨hash, -, hs⟩ := hvalid.own hmay
    exact ⟨h.owned hash s hs, hafter⟩
  | create hash s record =>
    refine ⟨trivial, ?_⟩
    rcases ControlWorld.serve_create hserve with ⟨rfl, -, -, rfl⟩ | ⟨rfl, rfl⟩
    · rintro id ⟨⟩
      exact ⟨hash, s, hmay.1, Function.update_self _ _ _, rfl⟩
    · exact hvalid
  | put s previous updated =>
    refine ⟨trivial, ?_⟩
    cases a with
    | true => exact hafter
    | false => exact hafter
  | wakeSubject s sealed =>
    refine ⟨trivial, ?_⟩
    cases a with
    | true => exact hafter
    | false => exact hafter
  | idempotency key =>
    cases hserve
    refine ⟨trivial, ?_⟩
    cases hmemory : w.memory key with
    | none => exact hvalid
    | some x =>
      obtain ⟨payloadHash, response⟩ := x
      intro id hid
      rcases Option.or_eq_some_iff.1 hid with hbody | ⟨-, hown⟩
      · obtain ⟨hash, s, hkey, hs, htext⟩ := h.kept key payloadHash response hmemory id hbody
        exact ⟨hash, s, hmay.symm.trans hkey, hs, htext⟩
      · exact hvalid id hown
  | brokerWrite s call =>
    refine ⟨trivial, ?_⟩
    cases a with
    | true => exact hafter
    | false => exact hafter
  | clock | random | sandboxId | sessionId | salt | nonce | observe | history | checkpoint
  | checkpoints | sealSubject | stopRuntime
    | remember =>
    exact ⟨trivial, hafter⟩

variable (svc) in
/-- A request that starts knows at most the sandbox of its owner. -/
theorem starts_knowing {r : Request} (hstarts : svc.server.starts w r = true) :
    ∃ k, k.draft = none ∧ Valid (svc.server.label r) k w ∧
      (svc.server.program r).Keeps (svc.guard (svc.server.label r)) Answered k := by
  cases r with
  | invoke lambda event =>
    refine ⟨initialKnown event, rfl, ?_, handle_keeps lambda event⟩
    rintro id ⟨⟩
  | broker hash s call =>
    refine ⟨{ own := some s.text }, rfl, ?_, rfl, ?_⟩
    · rintro id ⟨⟩
      exact ⟨hash, s, rfl, of_decide_eq_true hstarts, rfl⟩
    · rintro a - response ⟨⟩

/-- Whatever runs side by side, every request knows only what is so. -/
theorem guarded (svc : ControlService) : svc.server.Guarded svc.guard svc.Inv Valid fun _ =>
    Answered where
  start w r hinv hstarts := by
    obtain ⟨k, -, hvalid, hkeeps⟩ := starts_knowing svc hstarts
    exact ⟨k, hvalid, hkeeps⟩
  serve w w' owner k q c a hinv hvalid hmay hserve :=
    ⟨hinv.serve hvalid hmay hserve, Valid.serve hinv hvalid hmay hserve⟩
  stable w w' owner k q c a hinv hvalid hmay hserve owner' k' hvalid' :=
    hvalid'.mono (grows_of_serve hserve)

theorem inv_init (svc : ControlService) : svc.Inv {} where
  owned hash s h := by cases h
  unique hash hash' s h := by cases h
  born s h := by cases h
  kept key payloadHash response h := by cases h

/-! ## Fresh ids -/

/-- An id that is drawn was never drawn before. -/
def fresh (w : ControlWorld) (c : Outside) : ControlQuery → Bool
  | .sandboxId _ => (w.drawn c.sandbox).isNone
  | _ => true

variable (svc) in
/-- The server under the assumption that `new_sandbox_id` never draws an id twice. -/
def freshServer : Server Request (Option Digest) Outside ControlQuery ControlAnswer
    (Option ControlResponse) ControlWorld :=
  svc.server.restrict fresh

theorem serve_of_fresh {q : ControlQuery} {a : ControlAnswer q}
    (h : svc.freshServer.serve w c q = some (w', a)) :
    fresh w c q = true ∧ w.serve c q = some (w', a) :=
  Server.restrict_serve h

/-- A sandbox is of the owner its id was drawn for. -/
def Drawn (w : ControlWorld) : Prop := ∀ hash s, w.owners hash = some s → w.drawn s = some hash

/-- The id a request drew was drawn for its owner. -/
def Drafted (owner : Option Digest) (k : Known) (w : ControlWorld) : Prop :=
  ∀ s, k.draft = some s → ∃ hash, owner = some hash ∧ w.drawn s = some hash

/-- Ids stay those they were drawn for. -/
theorem drawn_of_serve {q : ControlQuery} {a : ControlAnswer q}
    (hserve : svc.freshServer.serve w c q = some (w', a)) :
    ∀ s hash, w.drawn s = some hash → w'.drawn s = some hash := by
  obtain ⟨hfresh, hserve⟩ := serve_of_fresh hserve
  cases q with
  | sandboxId hash =>
    cases hserve
    intro s hash' hs
    refine (Function.update_of_ne ?_ _ _).trans hs
    rintro rfl
    rw [Option.isNone_iff_eq_none.1 hfresh] at hs
    cases hs
  | create hash s record =>
    rcases ControlWorld.serve_create hserve with ⟨-, -, -, rfl⟩ | ⟨-, rfl⟩
    · exact fun _ _ h => h
    · exact fun _ _ h => h
  | clock | random | sessionId | salt | nonce | owner | metadata | put | observe | history
  | checkpoint | checkpoints | sealSubject
    | wakeSubject | stopRuntime | idempotency | remember | brokerWrite =>
    cases hserve
    exact fun _ _ h => h

theorem Drafted.mono (h : Drafted owner k w) (hdrawn : ∀ s hash, w.drawn s = some hash →
    w'.drawn s = some hash) :
    Drafted owner k w' := by
  intro s hs
  obtain ⟨hash, howner, hdrawnFor⟩ := h s hs
  exact ⟨hash, howner, hdrawn s hash hdrawnFor⟩

theorem Drawn.serve {q : ControlQuery} {a : ControlAnswer q} (h : Drawn w)
    (hdrafted : Drafted owner k w)
    (hmay : (svc.guard owner).may k q) (hserve : svc.freshServer.serve w c q = some (w', a)) :
    Drawn w' := by
  have hdrawn := drawn_of_serve hserve
  have hserve := (serve_of_fresh hserve).2
  cases q with
  | create hash s record =>
    rcases ControlWorld.serve_create hserve with ⟨-, -, -, rfl⟩ | ⟨-, rfl⟩
    · obtain ⟨howner, hdraft, -⟩ := hmay
      obtain ⟨hash', howner', hdrawnFor⟩ := hdrafted s hdraft
      cases howner.symm.trans howner'
      intro hash' s' hs'
      dsimp only at hs' ⊢
      by_cases hhash : hash' = hash
      · subst hhash
        rw [Function.update_self] at hs'
        cases hs'
        exact hdrawnFor
      · rw [Function.update_of_ne hhash] at hs'
        exact h hash' s' hs'
    · exact h
  | clock | random | sandboxId | sessionId | salt | nonce | owner | metadata | put | observe
  | history | checkpoint | checkpoints
    | sealSubject | wakeSubject | stopRuntime | idempotency | remember | brokerWrite =>
    cases hserve
    exact fun hash' s' hs' => hdrawn s' hash' (h hash' s' hs')

theorem Drafted.serve {q : ControlQuery} {a : ControlAnswer q} (h : Drafted owner k w)
    (hmay : (svc.guard owner).may k q)
    (hserve : svc.freshServer.serve w c q = some (w', a)) :
    Drafted owner ((svc.guard owner).learn k q a) w' := by
  have hafter := h.mono (drawn_of_serve hserve)
  have hserve := (serve_of_fresh hserve).2
  cases q with
  | sandboxId hash =>
    cases hserve
    rintro s ⟨⟩
    exact ⟨hash, hmay, Function.update_self _ _ _⟩
  | owner hash =>
    cases a with
    | none => exact hafter
    | some s => exact hafter
  | create hash s record =>
    cases a with
    | true => exact hafter
    | false => exact hafter
  | put s previous updated =>
    cases a with
    | true => exact hafter
    | false => exact hafter
  | wakeSubject s sealed =>
    cases a with
    | true => exact hafter
    | false => exact hafter
  | brokerWrite s call =>
    cases a with
    | true => exact hafter
    | false => exact hafter
  | idempotency key =>
    cases a with
    | none => exact hafter
    | some x => exact hafter
  | clock | random | sessionId | salt | nonce | metadata | observe | history | checkpoint
  | checkpoints | sealSubject | stopRuntime
    | remember => exact hafter

/-- What holds of the shared state where ids are fresh. -/
def FreshInv (svc : ControlService) (w : ControlWorld) : Prop := svc.Inv w ∧ Drawn w

def FreshValid (owner : Option Digest) (k : Known) (w : ControlWorld) : Prop :=
  Valid owner k w ∧ Drafted owner k w

theorem freshGuarded (svc : ControlService) :
    svc.freshServer.Guarded svc.guard svc.FreshInv FreshValid fun _ => Answered where
  start w r hinv hstarts := by
    obtain ⟨k, hdraft, hvalid, hkeeps⟩ := starts_knowing svc hstarts
    refine ⟨k, ⟨hvalid, ?_⟩, hkeeps⟩
    intro s hs
    rw [hdraft] at hs
    cases hs
  serve w w' owner k q c a hinv hvalid hmay hserve := by
    have hanswer := (serve_of_fresh hserve).2
    obtain ⟨hsees, hlearn⟩ := Valid.serve hinv.1 hvalid.1 hmay hanswer
    exact ⟨⟨hinv.1.serve hvalid.1 hmay hanswer, hinv.2.serve hvalid.2 hmay hserve⟩, hsees, hlearn,
      hvalid.2.serve hmay hserve⟩
  stable w w' owner k q c a hinv hvalid hmay hserve owner' k' hvalid' :=
    ⟨hvalid'.1.mono (grows_of_serve (serve_of_fresh hserve).2),
      hvalid'.2.mono (drawn_of_serve hserve)⟩

/-! ## Each owner alone -/

variable (svc) in
/-- `w'` has what is in `w` of an owner, and of nobody. -/
structure Same (hash : Digest) (w w' : ControlWorld) : Prop where
  owners : w'.owners hash = w.owners hash
  tables : ∀ s, w.drawn s = none ∨ w.drawn s = some hash → w'.drawn s = w.drawn s ∧
    w'.sandboxes s = w.sandboxes s
  memory : ∀ key, svc.ownerHash key.subject = some hash → w'.memory key = w.memory key

variable {v : ControlWorld} {hash : Digest}

theorem Same.on {α : Type} {f : SandboxTable → SandboxTable × α} (h : svc.Same hash w v)
    (hs : w.drawn s = some hash) :
    (v.on s f).2 = (w.on s f).2 ∧ svc.Same hash (w.on s f).1 (v.on s f).1 := by
  obtain ⟨-, htable⟩ := h.tables s (.inr hs)
  refine ⟨congrArg (fun t => (f t).2) htable, h.owners, ?_, h.memory⟩
  intro s' hs'
  obtain ⟨hdrawn', htable'⟩ := h.tables s' hs'
  refine ⟨hdrawn', ?_⟩
  show Function.update v.sandboxes s (f (v.sandboxes s)).1 s' = Function.update w.sandboxes s
    (f (w.sandboxes s)).1 s'
  rw [Function.update_apply, Function.update_apply, htable, htable']

theorem Same.on_foreign {α : Type} {f : SandboxTable → SandboxTable × α} (h : svc.Same hash w v)
    {hash' : Digest}
    (hs : w.drawn s = some hash') (hne : hash' ≠ hash) : svc.Same hash (w.on s f).1 v := by
  refine ⟨h.owners, ?_, h.memory⟩
  intro s' hs'
  have hother : s' ≠ s := by
    rintro rfl
    rcases hs' with hs' | hs' <;> cases hs.symm.trans hs'
    exact hne rfl
  exact ⟨(h.tables s' hs').1, (h.tables s' hs').2.trans (Function.update_of_ne hother _ _).symm⟩

/-- The queries on a sandbox, for which a request has to know it. -/
def tableAnswer (c : Outside) : (q : ControlQuery) →
    Option (SandboxId × (SandboxTable → SandboxTable × ControlAnswer q))
  | .metadata s => some (s, fun t => (t, t.item))
  | .put s previous updated => some (s, (·.put previous updated))
  | .observe s record => some (s, fun t => (t.observe record, ()))
  | .history s limit => some (s, fun t => (t, t.history limit))
  | .checkpoint s generation => some (s, fun t => (t, t.checkpoint generation))
  | .checkpoints s => some (s, fun t => (t, t.checkpoints))
  | .wakeSubject s sealed => some (s, (·.wakeSubject sealed))
  | .brokerWrite s call => some (s, (·.brokerWrite call c.now))
  | _ => none

theorem serve_of_tableAnswer {q : ControlQuery} {f : SandboxTable → SandboxTable × ControlAnswer q}
    (h : tableAnswer c q = some (s, f)) (w : ControlWorld) : w.serve c q = some (w.on s f) := by
  cases q <;> cases h <;> rfl

theorem own_of_tableAnswer {q : ControlQuery} {f : SandboxTable → SandboxTable × ControlAnswer q}
    (h : tableAnswer c q = some (s, f)) (hmay : (svc.guard owner).may k q) : Own k s := by
  cases q <;> cases h <;> exact hmay

/-- An id that is new among all is new among the owner's. -/
theorem fresh_of_same {q : ControlQuery} (h : svc.Same hash w v) (hfresh : fresh w c q = true) :
    fresh v c q = true := by
  cases q with
  | sandboxId hash' =>
    have hnone := Option.isNone_iff_eq_none.1 hfresh
    exact Option.isNone_iff_eq_none.2 ((h.tables _ (.inl hnone)).1.trans hnone)
  | clock | random | sessionId | salt | nonce | owner | metadata | create | put | observe | history
  | checkpoint | checkpoints
    | sealSubject | wakeSubject | stopRuntime | idempotency | remember | brokerWrite => rfl

/-- What an owner's request is answered does not depend on the others. -/
theorem Same.serve {q : ControlQuery} {a : ControlAnswer q} (hinv : svc.FreshInv w)
    (hvalid : FreshValid (some hash) k w)
    (hmay : (svc.guard (some hash)).may k q) (h : svc.Same hash w v) (hfresh : fresh w c q = true)
    (hserve : w.serve c q = some (w', a)) : ∃ v', v.serve c q = some (v', a) ∧
        svc.Same hash w' v' := by
  cases htable : tableAnswer c q with
  | some x =>
    obtain ⟨s, f⟩ := x
    obtain ⟨hash', howner, hs⟩ := hvalid.1.own (own_of_tableAnswer htable hmay)
    cases howner
    obtain ⟨hsame, hafter⟩ := h.on (f := f) (hinv.2 hash s hs)
    rw [serve_of_tableAnswer htable] at hserve
    cases hserve
    exact ⟨_, (serve_of_tableAnswer htable v).trans
      (congrArg (fun x => some ((v.on s f).1, x)) hsame), hafter⟩
  | none =>
    cases q with
    | metadata | put | observe | history | checkpoint | checkpoints | wakeSubject | brokerWrite =>
      cases htable
    | clock | random | sessionId | salt | nonce | sealSubject | stopRuntime =>
      cases hserve
      exact ⟨v, rfl, h⟩
    | owner hash' =>
      cases hserve
      cases hmay
      exact ⟨v, congrArg (fun x => some (v, x)) h.owners, h⟩
    | idempotency key =>
      cases hserve
      exact ⟨v, congrArg (fun x => some (v, x)) (h.memory key hmay), h⟩
    | remember key payloadHash response =>
      cases hserve
      refine ⟨_, rfl, h.owners, h.tables, ?_⟩
      intro key' hkey'
      show Function.update v.memory key _ key' = Function.update w.memory key _ key'
      rw [Function.update_apply, Function.update_apply, h.memory key' hkey']
    | sandboxId hash' =>
      cases hserve
      obtain ⟨-, htables⟩ := h.tables _ (.inl (Option.isNone_iff_eq_none.1 hfresh))
      refine ⟨_, rfl, h.owners, ?_, h.memory⟩
      intro s hs
      dsimp only at hs ⊢
      by_cases hne : s = c.sandbox
      · subst hne
        exact ⟨by rw [Function.update_self, Function.update_self], htables⟩
      · rw [Function.update_of_ne hne] at hs
        rw [Function.update_of_ne hne, Function.update_of_ne hne]
        exact h.tables s hs
    | create hash' s record =>
      obtain ⟨howner, hdraft, -⟩ := hmay
      cases howner
      obtain ⟨hash', howner, hdrawn⟩ := hvalid.2 s hdraft
      cases howner
      have htables := (h.tables s (.inr hdrawn)).2
      unfold ControlWorld.serve at hserve ⊢
      dsimp only at hserve ⊢
      rw [h.owners, htables]
      split at hserve
      · next hnone =>
        cases hserve
        rw [if_pos hnone]
        refine ⟨_, rfl, ?_, ?_, h.memory⟩
        · dsimp only
          rw [Function.update_self, Function.update_self]
        · intro s' hs'
          refine ⟨(h.tables s' hs').1, ?_⟩
          dsimp only
          rw [Function.update_apply, Function.update_apply, (h.tables s' hs').2]
      · next hsome =>
        cases hserve
        rw [if_neg hsome]
        exact ⟨v, rfl, h⟩

/-- What the others ask changes nothing of an owner's. -/
theorem Same.foreign {q : ControlQuery} {a : ControlAnswer q} (hinv : svc.FreshInv w)
    (hvalid : FreshValid owner k w)
    (hmay : (svc.guard owner).may k q) (hforeign : owner ≠ some hash) (h : svc.Same hash w v)
    (hserve : w.serve c q = some (w', a)) : svc.Same hash w' v := by
  cases htable : tableAnswer c q with
  | some x =>
    obtain ⟨s, f⟩ := x
    obtain ⟨hash', rfl, hs⟩ := hvalid.1.own (own_of_tableAnswer htable hmay)
    rw [serve_of_tableAnswer htable] at hserve
    cases hserve
    exact h.on_foreign (hinv.2 hash' s hs) fun heq => hforeign (congrArg some heq)
  | none =>
    cases q with
    | metadata | put | observe | history | checkpoint | checkpoints | wakeSubject | brokerWrite =>
      cases htable
    | clock | random | sessionId | salt | nonce | owner | sealSubject | stopRuntime | idempotency =>
      cases hserve
      exact h
    | remember key payloadHash response =>
      cases hserve
      refine ⟨h.owners, h.tables, ?_⟩
      intro key' hkey'
      refine (h.memory key' hkey').trans (Function.update_of_ne ?_ _ _).symm
      rintro rfl
      exact hforeign (hmay.1.symm.trans hkey')
    | sandboxId hash' =>
      have hne : hash' ≠ hash := fun heq => hforeign (hmay.trans (congrArg some heq))
      cases hserve
      refine ⟨h.owners, ?_, h.memory⟩
      intro s hs
      dsimp only at hs ⊢
      have hother : s ≠ c.sandbox := by
        rintro rfl
        rw [Function.update_self] at hs
        rcases hs with hs | hs <;> cases hs
        exact hne rfl
      rw [Function.update_of_ne hother] at hs ⊢
      exact h.tables s hs
    | create hash' s record =>
      obtain ⟨rfl, hdraft, -⟩ := hmay
      have hne : hash' ≠ hash := fun heq => hforeign (congrArg some heq)
      obtain ⟨_, howner, hdrawn⟩ := hvalid.2 s hdraft
      cases howner
      rcases ControlWorld.serve_create hserve with ⟨-, -, -, rfl⟩ | ⟨-, rfl⟩
      · refine ⟨h.owners.trans (Function.update_of_ne (Ne.symm hne) _ _).symm, ?_, h.memory⟩
        intro s' hs'
        have hother : s' ≠ s := by
          rintro rfl
          rcases hs' with hs' | hs' <;> cases hdrawn.symm.trans hs'
          exact hne rfl
        exact ⟨(h.tables s' hs').1, (h.tables s' hs').2.trans
          (Function.update_of_ne hother _ _).symm⟩
      · exact h

theorem isolates (svc : ControlService) (hash : Digest) :
    svc.freshServer.Isolates svc.guard svc.FreshInv FreshValid
      (fun owner => decide (owner = some hash)) (svc.Same hash) where
  starts w v r hlow h := by
    cases r with
    | invoke lambda event => rfl
    | broker hash' s call =>
      have hsame : hash' = hash := Option.some.inj (of_decide_eq_true hlow)
      subst hsame
      exact congrArg (fun x => decide (x = some s)) h.owners
  serve w v w' owner k q c a hlow hinv hvalid hmay h hserve := by
    obtain rfl : owner = some hash := of_decide_eq_true hlow
    obtain ⟨hfresh, hserve⟩ := serve_of_fresh hserve
    obtain ⟨v', hserve', hsame⟩ := h.serve hinv hvalid hmay hfresh hserve
    exact ⟨v', (if_pos (fresh_of_same h hfresh)).trans hserve', hsame⟩
  foreign w v w' owner k q c a hlow hinv hvalid hmay h hserve :=
    h.foreign hinv hvalid hmay (of_decide_eq_false hlow) (serve_of_fresh hserve).2

/-! ## Runs -/

/-- Some requests side by side, at some point. -/
abbrev Requests :=
  Pool (Option Digest) ControlQuery ControlAnswer (Option ControlResponse) ControlWorld

theorem sound_init (svc : ControlService) : Server.Sound svc.guard svc.Inv Valid (fun _ => Answered)
    { shared := {} } := by
  refine ⟨inv_init svc, ?_⟩
  rintro n owner p ⟨⟩

theorem sound_of_reaches {r : Requests}
    (hreach : Machine.Reaches svc.server.step Machine.Any { shared := {} } r) :
    Server.Sound svc.guard svc.Inv Valid (fun _ => Answered) r :=
  (guarded svc).reaches (sound_init svc) hreach

theorem freshSound_init (svc : ControlService) :
    Server.Sound svc.guard svc.FreshInv FreshValid (fun _ => Answered) { shared := {} } := by
  refine ⟨⟨inv_init svc, ?_⟩, ?_⟩
  · rintro hash s ⟨⟩
  · rintro n owner p ⟨⟩

/-- However the requests and the writes of the broker interleave, where no sandbox id is drawn twice
an owner's requests go on and are answered as if nobody else ever called, and its sandbox is the
same. -/
theorem isolated (svc : ControlService) {turns : List (Turn Request (Option Digest) Outside)}
    {r : Requests}
    (hrun : Machine.runAlong svc.freshServer.step Machine.Any { shared := {} } turns = some r)
    (hash : Digest) :
    ∃ v, Machine.runAlong svc.freshServer.step Machine.Any { shared := {} }
        (turns.filter fun e => decide (svc.freshServer.turnLabel e = some hash)) = some v ∧
      (∀ n, v.threads n = (r.threads n).filter fun x => decide (x.1 = some hash)) ∧
      v.shared.owners hash = r.shared.owners hash ∧
      ∀ s, r.shared.owners hash = some s → v.shared.sandboxes s = r.shared.sandboxes s := by
  have hagree : Server.Agree (fun owner => decide (owner = some hash)) (svc.Same hash)
      ({ shared := {} } : Requests) { shared := {} } :=
    ⟨⟨rfl, fun _ _ => ⟨rfl, rfl⟩, fun _ _ => rfl⟩, fun _ => rfl⟩
  obtain ⟨v, hrun', hsame, hthreads⟩ :=
    (isolates svc hash).run (freshGuarded svc) (freshSound_init svc) hagree hrun
  refine ⟨v, hrun', hthreads, hsame.owners, ?_⟩
  intro s hs
  have hinv := ((freshGuarded svc).reaches (freshSound_init svc) (.of_runAlong hrun)).1
  exact (hsame.tables s (.inr (hinv.2 hash s hs))).2

theorem grows_of_step {r r' : Requests} {e : Turn Request (Option Digest) Outside}
    (h : svc.server.step r e = some r') :
    Grows r.shared r'.shared := by
  rcases Server.step_eq_some.1 h with ⟨-, -⟩ | ⟨-, hserve⟩ | ⟨-⟩
  · exact grows_refl _
  · exact grows_of_serve hserve
  · exact grows_refl _

/-- An owner keeps its one sandbox and shares it with nobody, there is no record without an owner,
and no answer names another sandbox than its owner's. -/
theorem one_sandbox {r r' : Requests}
    (hreach : Machine.Reaches svc.server.step Machine.Any { shared := {} } r)
    (hlater : Machine.Reaches svc.server.step Machine.Any r r') :
    (∀ hash s, r.shared.owners hash = some s → r'.shared.owners hash = some s) ∧
      (∀ hash hash' s, r'.shared.owners hash = some s → r'.shared.owners hash' = some s →
      hash = hash') ∧
      (∀ s, (r'.shared.sandboxes s).item.isSome ↔ ∃ hash, r'.shared.owners hash = some s) ∧
      ∀ n owner response, r'.threads n = some (owner, .done (some response)) →
        ∀ body id, response.body = some (.obj body) → bodySandbox body = some id →
          ∃ hash s, owner = some hash ∧ r'.shared.owners hash = some s ∧ s.text = id := by
  obtain ⟨hinv, hthreads⟩ := sound_of_reaches (hreach.trans hlater)
  refine ⟨?_, ?_, ?_, ?_⟩
  · exact hlater.invariant (I := fun r' => Grows r.shared r'.shared)
      (fun _ _ _ hgrows _ hstep hash s hs => grows_of_step hstep hash s (hgrows hash s hs))
        (grows_refl _)
  · exact hinv.unique
  · intro s
    refine ⟨hinv.born s, ?_⟩
    rintro ⟨hash, hs⟩
    exact hinv.owned hash s hs
  · intro n owner response hanswer body id hbody hid
    obtain ⟨k, hvalid, hanswered⟩ := hthreads n owner _ hanswer
    exact hvalid id ((hanswered response rfl).1 body hbody id hid)

/-- An operation that is refused leaves the items alone. -/
theorem put_refused {previous updated : SandboxRecord} {t : SandboxTable}
    (h : (t.put previous updated).2 = false) :
    (t.put previous updated).1 = t := by
  unfold SandboxTable.put at h ⊢
  split at h
  · rfl
  · cases h

theorem wakeSubject_refused {sealed : String} {t : SandboxTable}
    (h : (t.wakeSubject sealed).2 = false) :
    (t.wakeSubject sealed).1 = t := by
  unfold SandboxTable.wakeSubject at h ⊢
  split at h
  · rfl
  · cases h

theorem brokerWrite_refused {call : BrokerCall} {now : Instant} {t : SandboxTable}
    (h : (t.brokerWrite call now).2 = false) :
    (t.brokerWrite call now).1 = t := by
  unfold SandboxTable.brokerWrite at h ⊢
  split at h
  · rfl
  · split at h
    · rfl
    · split at h <;> cases h

/-- An operation that changes a record is known to have. -/
theorem item_of_tableAnswer {q : ControlQuery} {f : SandboxTable → SandboxTable × ControlAnswer q}
    (h : tableAnswer c q = some (s, f)) (t : SandboxTable) :
    (f t).1.item = t.item ∨ ((svc.guard owner).learn k q (f t).2).changed = true := by
  cases q with
  | put s previous updated =>
    cases h
    cases ha : (t.put previous updated).2 with
    | true => exact .inr rfl
    | false => exact .inl (congrArg SandboxTable.item (put_refused ha))
  | wakeSubject s sealed =>
    cases h
    cases ha : (t.wakeSubject sealed).2 with
    | true => exact .inr rfl
    | false => exact .inl (congrArg SandboxTable.item (wakeSubject_refused ha))
  | brokerWrite s call =>
    cases h
    cases ha : (t.brokerWrite call c.now).2 with
    | true => exact .inr rfl
    | false => exact .inl (congrArg SandboxTable.item (brokerWrite_refused ha))
  | observe s record =>
    cases h
    refine .inl ?_
    dsimp only [SandboxTable.observe]
    split <;> rfl
  | metadata | history | checkpoint | checkpoints =>
    cases h
    exact .inl rfl
  | clock | random | sandboxId | sessionId | salt | nonce | owner | create | sealSubject
  | stopRuntime | idempotency | remember => cases h

variable (svc owner k) in
theorem changed_of_serve {q : ControlQuery} {a : ControlAnswer q}
    (hserve : w.serve c q = some (w', a)) :
    (∀ s item, (w.sandboxes s).item = some item → (w'.sandboxes s).item = some item) ∨
    ((svc.guard owner).learn k q a).changed = true := by
  cases htable : tableAnswer c q with
  | some x =>
    obtain ⟨s, f⟩ := x
    rw [serve_of_tableAnswer htable] at hserve
    cases hserve
    refine (item_of_tableAnswer htable (w.sandboxes s)).imp ?_ id
    intro hf s' item hitem
    show (Function.update w.sandboxes s (f (w.sandboxes s)).1 s').item = some item
    by_cases hs : s' = s
    · subst hs
      rw [Function.update_self, hf, hitem]
    · rw [Function.update_of_ne hs, hitem]
  | none =>
    refine .inl ?_
    cases q with
    | metadata | put | observe | history | checkpoint | checkpoints | wakeSubject | brokerWrite =>
      cases htable
    | create hash s record =>
      rcases ControlWorld.serve_create hserve with ⟨-, -, hnone, rfl⟩ | ⟨-, rfl⟩
      · intro s' item hitem
        have hs : s' ≠ s := by
          rintro rfl
          rw [hnone] at hitem
          cases hitem
        dsimp only
        rw [Function.update_of_ne hs, hitem]
      · exact fun _ _ h => h
    | clock | random | sandboxId | sessionId | salt | nonce | owner | sealSubject | stopRuntime
    | idempotency | remember =>
      cases hserve
      exact fun _ _ h => h

theorem learn_changed {q : ControlQuery} {a : ControlAnswer q} (h : k.changed = true) :
    ((svc.guard owner).learn k q a).changed = true := by
  unfold guard
  dsimp only
  split <;> first | exact h | rfl

theorem learn_mayCreate (q : ControlQuery) (a : ControlAnswer q) :
    ((svc.guard owner).learn k q a).mayCreate = k.mayCreate := by
  unfold guard
  dsimp only
  split <;> rfl

variable {r r₁ r₂ r₃ : Requests} {n : Nat} {owner' : Option Digest}

/-- A request that `handle` answers with an error has changed no record. -/
theorem error_changes_nothing
    (hreach : Machine.Reaches svc.server.step Machine.Any { shared := {} } r)
    (htick : svc.server.step r (.tick n owner c) = some r₁)
    (hlater : Machine.Reaches svc.server.step (fun _ e => e.drops n = false) r₁ r₂)
      {response : ControlResponse}
    (hanswer : r₂.threads n = some (owner', .done (some response))) (herror : 400 ≤ response.status)
      {s : SandboxId} {item : Item}
    (hitem : (r.shared.sandboxes s).item = some item) : (r₁.shared.sandboxes s).item =
        some item := by
  have hsound := sound_of_reaches hreach
  cases Server.step_eq_some.1 htick with
  | @tick _ _ _ q f w' a hthread hserve =>
    obtain ⟨k, hvalid, hmay, hnext⟩ := hsound.2 n owner _ hthread
    rcases changed_of_serve svc owner k hserve with hsame | hchanged
    · exact hsame s item hitem
    · -- what it knows to have changed it knows at the end
      obtain ⟨hsees, hlearn⟩ := Valid.serve hsound.1 hvalid hmay hserve
      have hknows : Server.Guarded.Knows svc.guard Valid (fun _ => Answered) n
        (fun k => k.changed = true)
          { shared := w', threads := Function.update r.threads n (some (owner, f a)) } :=
        ⟨owner, f a, _, Function.update_self _ _ _, hlearn, hnext a hsees, hchanged⟩
      obtain ⟨l, p, k', hthread', -, hanswered, hchanged'⟩ :=
        (guarded svc).knows_reaches (fun _ _ _ _ h => learn_changed h)
          ((guarded svc).step hsound htick) hknows hlater
      rw [hanswer] at hthread'
      cases hthread'
      rw [(hanswered response rfl).2 herror] at hchanged'
      cases hchanged'

/-- A scheduled wake or stop never creates a sandbox, whoever creates and looks up what
meanwhile. -/
theorem schedule_creates_nothing
    (hreach : Machine.Reaches svc.server.step Machine.Any { shared := {} } r) {lambda : Nat}
    {event : Fields}
    (hschedules : (schedules event "schedulerStart" || schedules event "schedulerStop") = true)
    (hstart : svc.server.step r (.start n (.invoke lambda event)) = some r₁)
    (hlater : Machine.Reaches svc.server.step (fun _ e => e.drops n = false) r₁ r₂)
    (htick : svc.server.step r₂ (.tick n owner c) = some r₃) :
        r₃.shared.owners = r₂.shared.owners := by
  have hsound := (guarded svc).step (sound_of_reaches hreach) hstart
  have hknows : Server.Guarded.Knows svc.guard Valid (fun _ => Answered) n
      (fun k => k.mayCreate = false) r₁ := by
    cases Server.step_eq_some.1 hstart with
    | start hfree hstarts =>
      refine ⟨_, _, initialKnown event, Function.update_self _ _ _, ?_,
        handle_keeps lambda event, ?_⟩
      · rintro id ⟨⟩
      · show (!(schedules event "schedulerStart" || schedules event "schedulerStop")) = false
        rw [hschedules]
        rfl
  obtain ⟨l, p, k, hthread, -, hkeeps, hmay⟩ :=
    (guarded svc).knows_reaches (fun _ _ _ _ h => (learn_mayCreate _ _).trans h) hsound
      hknows hlater
  cases Server.step_eq_some.1 htick with
  | @tick _ _ _ q f w' a hthread' hserve =>
    rw [hthread] at hthread'
    cases hthread'
    cases q with
    | create hash s record => cases hmay.symm.trans hkeeps.1.2.2
    | clock | random | sandboxId | sessionId | salt | nonce | owner | metadata | put | observe
    | history | checkpoint | checkpoints
      | sealSubject | wakeSubject | stopRuntime | idempotency | remember | brokerWrite =>
      cases hserve
      rfl

end ControlService

namespace ControlExample

/-- A digest that tells the two subjects apart. -/
def sha : Sha256 where
  hexdigest data := if data.getLast? = some 97 then List.replicate 64 'a' else List.replicate 64 'b'
  isDigest data := by
    split
    · decide
    · decide

def service : ControlService where
  sha := sha
  tokens := TokenExample.service.tokens
  issuer := Str.ofString "issuer"
  appClientId := Str.ofString "client"
  requiredScope := Str.ofString "control"
  administratorGroup := Str.ofString "sandbox-admins"
  allowedOrigin := Str.ofString "https://page"
  region := Str.ofString "eu-west-1"
  runtimeArn := Str.ofString "arn:runtime"
  qualifier := Str.ofString "DEFAULT"
  httpUrl := Str.ofString "https://runtime"
  websocketUrl := Str.ofString "wss://runtime"
  deploymentMode := Str.ofString "microvm"
  frontendCompatibilityVersion := Str.ofString "1"
  persistedPaths := []
  kirocrewVersion := "0.2.0"
  sealsWakes := false

def request (verb path subject : String) : Fields :=
  [(Str.ofString "rawPath", .str (Str.ofString path)),
    (Str.ofString "headers", .obj [(Str.ofString "X-Correlation-Id", .str (List.replicate 26 48))]),
    (Str.ofString "requestContext",
      .obj [(Str.ofString "http", .obj [(Str.ofString "method", .str (Str.ofString verb))]),
      (Str.ofString "authorizer", .obj [(Str.ofString "jwt", .obj [(Str.ofString "claims", .obj
        [(Str.ofString "sub", .str (Str.ofString subject)),
          (Str.ofString "iss", .str (Str.ofString "issuer")),
          (Str.ofString "client_id", .str (Str.ofString "client")),
          (Str.ofString "exp", .str (Str.ofString "1000")),
          (Str.ofString "scope", .str (Str.ofString "openid control")),
            (Str.ofString "token_use", .str (Str.ofString "access"))])])])])]

def ownerA : Option Digest := some (List.replicate 64 'a')

def ownerB : Option Digest := some (List.replicate 64 'b')

def sandboxB : SandboxId where
  text := Str.ofString "sbx_01ARZ3NDEKTSV4RRFFQ69G5FAW"
  pattern := by decide

def outsideA : Outside := { sandbox := Example.sandbox }

def outsideB : Outside := { sandbox := sandboxB }

/-- Two subjects ask for their sandboxes at once, and both are created. -/
def opening : List (Turn ControlService.Request (Option Digest) Outside) :=
  [.start 0 (.invoke 0 (request "GET" "/control/v1/sandbox" "a")),
    .start 1 (.invoke 1 (request "GET" "/control/v1/sandbox" "b"))] ++
    (List.replicate 6 [.tick 0 ownerA outsideA, .tick 1 ownerB outsideB]).flatten

def opened : ControlService.Requests :=
  (Machine.runAlong service.server.step Machine.Any { shared := {} } opening).getD { shared := {} }

def freshlyOpened : ControlService.Requests :=
  (Machine.runAlong service.freshServer.step Machine.Any { shared := {} } opening).getD
    { shared := {} }

/-- A deletion by a subject that is no administrator. -/
def deletion : Turn ControlService.Request (Option Digest) Outside :=
  .start 2 (.invoke 0 (request "DELETE" "/control/v1/sandbox" "a"))

def deleting : ControlService.Requests := (service.server.step opened deletion).getD opened

def refused : ControlService.Requests :=
  (service.server.step deleting (.tick 2 ownerA outsideA)).getD deleting

def wake : Fields :=
  [(Str.ofString "operation", .str (Str.ofString "schedulerStart")),
    (Str.ofString "cognitoSubject", .str (Str.ofString "a")),
    (Str.ofString "sandboxId", .str Example.sandbox.text),
    (Str.ofString "idempotencyKey", .str (Str.ofString "wake-1")),
    (Str.ofString "headers", .obj [(Str.ofString "X-Correlation-Id", .str (List.replicate 26 48))])]

def waking : ControlService.Requests :=
  (service.server.step opened (.start 2 (.invoke 0 wake))).getD opened

/-- The answer of a thread, where it has one. -/
def answerOf (r : ControlService.Requests) (n : Nat) : Option (Option Digest × ControlResponse) :=
  match r.threads n with
  | some (owner, .done (some response)) => some (owner, response)
  | _ => none

theorem threads_of_answerOf {r : ControlService.Requests} {n : Nat}
    {x : Option Digest × ControlResponse} (h : answerOf r n = some x) :
    r.threads n = some (x.1, .done (some x.2)) := by
  unfold answerOf at h
  split at h
  · next hthread =>
    cases h
    exact hthread
  · cases h

/-- The runs go through, to these answers. -/
theorem evaluated :
    (Machine.runAlong service.server.step Machine.Any { shared := {} } opening ≠ none ∧
      opened.shared.owners (List.replicate 64 'a') = some Example.sandbox ∧
      (opened.shared.sandboxes Example.sandbox).item.isSome) ∧
    (service.server.step opened deletion ≠ none ∧
      service.server.step deleting (.tick 2 ownerA outsideA) ≠ none ∧
      (deleting.shared.sandboxes Example.sandbox).item.isSome ∧
      (answerOf refused 2).map (·.2.status) = some 403) ∧
    (service.server.step opened (.start 2 (.invoke 0 wake)) ≠ none ∧
      service.server.step waking (.tick 2 ownerA outsideA) ≠ none) ∧
    Machine.runAlong service.freshServer.step Machine.Any { shared := {} } opening ≠ none ∧
      freshlyOpened.shared.owners (List.replicate 64 'a') = some Example.sandbox := by
        decide +kernel

theorem run_opened : Machine.runAlong service.server.step Machine.Any { shared := {} } opening =
    some opened :=
  (Option.getD_of_ne_none evaluated.1.1 _).symm

theorem reaches_opened : Machine.Reaches service.server.step Machine.Any { shared := {} } opened :=
  .of_runAlong run_opened

/-- Without the other subject the sandbox would have been the same. -/
theorem isolated_opened : ∃ v, Machine.runAlong service.freshServer.step Machine.Any
    { shared := {} }
    (opening.filter fun e => decide (service.freshServer.turnLabel e = ownerA)) = some v ∧
      v.shared.owners (List.replicate 64 'a') = some Example.sandbox := by
  obtain ⟨hrun, howner⟩ := evaluated.2.2.2
  obtain ⟨v, hrun, -, hsame, -⟩ :=
    ControlService.isolated service (Option.getD_of_ne_none hrun _).symm (List.replicate 64 'a')
  exact ⟨v, hrun, hsame.trans howner⟩

theorem one_sandbox_opened : (opened.shared.sandboxes Example.sandbox).item.isSome ∧
    opened.shared.owners (List.replicate 64 'b') ≠ some Example.sandbox := by
  obtain ⟨-, hunique, hrecord, -⟩ := ControlService.one_sandbox reaches_opened .refl
  refine ⟨(hrecord _).2 ⟨_, evaluated.1.2.1⟩, ?_⟩
  intro h
  exact absurd (hunique _ _ _ h evaluated.1.2.1) (by decide)

theorem error_changes_nothing_refused : ∃ item, (deleting.shared.sandboxes Example.sandbox).item =
    some item ∧
    (refused.shared.sandboxes Example.sandbox).item = some item := by
  obtain ⟨hdeletion, hrefused, hitem, hstatus⟩ := evaluated.2.1
  obtain ⟨item, hitem⟩ := Option.isSome_iff_exists.1 hitem
  obtain ⟨⟨owner, response⟩, hanswer, hstatus⟩ := Option.map_eq_some_iff.1 hstatus
  have hreaches : Machine.Reaches service.server.step Machine.Any { shared := {} } deleting :=
    reaches_opened.trans (.single trivial (Option.getD_of_ne_none hdeletion _).symm)
  have herror : 400 ≤ response.status := by
    dsimp only at hstatus
    omega
  exact ⟨item, hitem, ControlService.error_changes_nothing hreaches
    (Option.getD_of_ne_none hrefused _).symm .refl
    (threads_of_answerOf hanswer) herror hitem⟩

theorem schedule_creates_nothing_wake : ∃ r, service.server.step waking (.tick 2 ownerA outsideA) =
    some r ∧
    r.shared.owners = waking.shared.owners := by
  obtain ⟨hstart, hlookup⟩ := evaluated.2.2.1
  have hstep := (Option.getD_of_ne_none hlookup waking).symm
  exact ⟨_, hstep, ControlService.schedule_creates_nothing reaches_opened (by decide)
    (Option.getD_of_ne_none hstart opened).symm .refl
    hstep⟩

end ControlExample

end KiroCrew
