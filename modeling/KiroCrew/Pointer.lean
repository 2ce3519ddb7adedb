import KiroCrew.Fencing

/-!
# The checkpoint pointer

A receipt is accepted only when it moves `lastCheckpointGeneration` forward or repeats the receipt
the record already carries, and every other write keeps the pointer. `Chain` is what follows for all
the receipts a run has issued: they lie at or below the pointer, one generation has one digest, and
each has its catalog item. A full-record put forgets the stored digest; from then on the generation
at the pointer cannot be repeated at all, which is why `Chain.current` speaks of a stored digest
only.
-/

namespace KiroCrew

namespace System

/-- The event is a receipt for the request `r` and it is accepted. -/
def Accepts (r : ReceiptRequest) (s : System) : Event → Prop
  | .call c _ now => (∃ commit, c.op = .checkpointReceipt r commit) ∧ c.write s.item now ≠ none
  | _ => False

end System

variable {item item' : Item} {now : Instant}

/-- No call renames the sandbox, and one that is no receipt keeps the stored digest. -/
theorem BrokerCall.write_frame {c : BrokerCall} (hw : c.write item now = some item') :
    item'.sandboxId = item.sandboxId ∧ ((∀ r commit, c.op ≠ .checkpointReceipt r commit) →
      item'.lastCheckpointManifestDigest = item.lastCheckpointManifestDigest) := by
  obtain ⟨session, op⟩ := c
  cases op with
  | acquireInit owner =>
    simp only [write, KiroCrew.acquireInit] at hw
    split at hw <;> cases hw
    exact ⟨rfl, fun _ => rfl⟩
  | heartbeatInit owner progress =>
    simp only [write, KiroCrew.heartbeatInit] at hw
    split at hw <;> cases hw
    exact ⟨rfl, fun _ => rfl⟩
  | heartbeatLease holder served =>
    simp only [write, KiroCrew.heartbeatLease] at hw
    split at hw
    · cases hw
    · split at hw <;> cases hw
      exact ⟨rfl, fun _ => rfl⟩
  | healReady =>
    simp only [write, KiroCrew.healReady] at hw
    split at hw <;> cases hw
    exact ⟨rfl, fun _ => rfl⟩
  | markReady owner outcome =>
    simp only [write, KiroCrew.markReady] at hw
    split at hw <;> cases hw
    exact ⟨rfl, fun _ => rfl⟩
  | markError owner d =>
    simp only [write, KiroCrew.markError] at hw
    split at hw <;> cases hw
    exact ⟨rfl, fun _ => rfl⟩
  | checkpointReceipt r commit =>
    obtain ⟨⟨i, k⟩, hc, rfl⟩ := Option.map_eq_some_iff.1 hw
    obtain ⟨-, -, rfl, -⟩ := checkpointReceipt_eq_some hc
    exact ⟨rfl, fun hop => absurd rfl (hop r commit)⟩

/-- A call that is no receipt keeps the pointer. -/
theorem BrokerCall.write_pointer {c : BrokerCall}
    (hop : ∀ r commit, c.op ≠ .checkpointReceipt r commit)
    (hw : c.write item now = some item') : item'.lastCheckpointGeneration =
    item.lastCheckpointGeneration := by
  obtain ⟨session, op⟩ := c
  have he : BrokerCall.Effect item item' session op := BrokerCall.write_effect hw
  cases he with
  | acquireInit _ hc | heartbeatInit _ hc | heartbeatLease _ hc | healReady _ _ hc
  | markReady _ _ hc
  | markError _ hc => exact congrArg Core.lastCheckpointGeneration hc
  | checkpointReceipt => exact absurd rfl (hop _ _)

/-- An accepted receipt moves the pointer forward, or finds its own generation and digest there. -/
theorem ReceiptRequest.forward {r : ReceiptRequest} {commit : Option CommitRecord} {pointer : Nat}
    (hv : r.valid commit now = true) (hp : r.pointerOk item)
    (h : item.lastCheckpointGeneration = some pointer) :
    pointer < r.generation ∨
      pointer = r.generation ∧ item.lastCheckpointManifestDigest = some r.manifestDigest := by
  simp only [ReceiptRequest.valid, Bool.and_eq_true, decide_eq_true_eq] at hv
  obtain ⟨⟨⟨⟨-, hbase⟩, -⟩, -⟩, -⟩ := hv
  simp only [ReceiptRequest.pointerOk, h] at hp
  rcases hp with hadv | heq
  · left
    unfold ReceiptRequest.advance at hadv
    cases hb : r.baseGeneration with
    | none => simpa [hb] using hadv
    | some base =>
      simp only [hb, Option.all_some, decide_eq_true_eq] at hadv hbase
      omega
  · exact .inr heq

namespace System

variable {s s' s₁ s₂ : System} {e : Event} {r : ReceiptRequest}

/-- What one event does to the pointer, the stored digest, the catalog and the issued receipts. -/
inductive PointerChange (s : System) (e : Event) (s' : System) : Prop
  | kept (pointer : s'.item.lastCheckpointGeneration = s.item.lastCheckpointGeneration)
      (digest : s'.item.lastCheckpointManifestDigest = none ∨
        s'.item.lastCheckpointManifestDigest = s.item.lastCheckpointManifestDigest)
      (catalog : s'.catalog = s.catalog) (issued : s'.issued = s.issued)
        (refused : ∀ r, ¬ Accepts r s e)
  | accepted {r : ReceiptRequest} {c : CheckpointItem} {a : ReceiptClaims} (accepts : Accepts r s e)
      (forward : ∀ pointer, s.item.lastCheckpointGeneration = some pointer →
        pointer < r.generation ∨
        pointer = r.generation ∧ s.item.lastCheckpointManifestDigest = some r.manifestDigest)
      (pointer : s'.item.lastCheckpointGeneration = some r.generation)
      (digest : s'.item.lastCheckpointManifestDigest = some r.manifestDigest)
      (catalog : s'.catalog = Function.update s.catalog r.generation (some c))
      (item : c.generation = r.generation ∧ c.manifestDigest = r.manifestDigest ∧
        c.status = .committed)
      (issued : s'.issued = a :: s.issued)
      (claims : a.generation = r.generation ∧ a.manifestDigest = r.manifestDigest)
      (unique : ∀ r', Accepts r' s e → r' = r)

theorem applied_of_ne {c : BrokerCall} (subjectHash : String) (now : Instant) (item : Item)
    (hop : ∀ r commit, c.op ≠ .checkpointReceipt r commit) :
    (s.applied c subjectHash now item).catalog = s.catalog ∧
      (s.applied c subjectHash now item).issued = s.issued := by
  obtain ⟨session, op⟩ := c
  cases op with
  | checkpointReceipt r commit => exact absurd rfl (hop r commit)
  | acquireInit | heartbeatInit | heartbeatLease | healReady | markReady | markError =>
    exact ⟨rfl, rfl⟩

theorem call_pointerChange {c : BrokerCall} {subjectHash : String} {now : Instant}
    (h : s.step (.call c subjectHash now) = some s') :
    PointerChange s (.call c subjectHash now) s' := by
  simp only [step] at h
  split at h
  · next hw =>
    obtain rfl := Option.some.inj h
    exact .kept rfl (.inr rfl) rfl rfl fun r hr => hr.2 hw
  · next item hw =>
    obtain rfl := Option.some.inj h
    by_cases hop : ∃ r commit, c.op = .checkpointReceipt r commit
    · obtain ⟨r, commit, hop⟩ := hop
      obtain ⟨session, op⟩ := c
      subst hop
      obtain ⟨⟨i, k⟩, hc, rfl⟩ := Option.map_eq_some_iff.1 hw
      obtain ⟨hv, hallowed, rfl, hk⟩ := checkpointReceipt_eq_some hc
      refine .accepted (c := k) (a := r.claims session s.item.sandboxId subjectHash now)
        ⟨⟨commit, rfl⟩, by rw [hw]; simp⟩ (fun p hp => r.forward hv hallowed.2.2.2 hp) rfl rfl ?_ hk
          rfl ⟨rfl, rfl⟩ ?_
      · simp only [applied, hc, Option.map_some]
      · rintro r' ⟨⟨commit', heq⟩, -⟩
        injection heq with heq
        exact heq.symm
    · push Not at hop
      obtain ⟨hcatalog, hissued⟩ := applied_of_ne (s := s) subjectHash now item hop
      refine .kept ?_ (.inr ?_) hcatalog hissued fun r hr => ?_
      · rw [applied_item]; exact BrokerCall.write_pointer hop hw
      · rw [applied_item]; exact (BrokerCall.write_frame hw).2 hop
      · obtain ⟨commit, heq⟩ := hr.1
        exact hop r commit heq

/-- An event that is no broker call keeps the pointer, and the stored digest or none. -/
theorem kept_of_books (hreads : ∀ r ∈ s.reads, Agrees r s.item) (h : s.step e = some s')
    (hev : ∀ c subjectHash now, e ≠ .call c subjectHash now) (hcatalog : s'.catalog = s.catalog)
    (hissued : s'.issued = s.issued) : PointerChange s e s' := by
  refine .kept ?_ ?_ hcatalog hissued fun r hr => ?_
  · rcases step_pointer hreads h with hp | ⟨c, subjectHash, now, _, _, he, -⟩
    · exact hp
    · exact absurd he (hev c subjectHash now)
  · rcases step_item h with hi | ⟨c, subjectHash, now, he, -⟩ | ⟨record, updated, -, -,
      hi⟩ | ⟨sealed, -, hi⟩
    · exact .inr (by rw [hi])
    · exact absurd he (hev c subjectHash now)
    · exact .inl (by rw [hi]; rfl)
    · exact .inr (by rw [hi])
  · cases e with
    | call c subjectHash now => exact hev c subjectHash now rfl
    | read | acquireStart | stop | transition | requestDeletion | recordWakeSubject => exact hr

theorem step_pointerChange (hreads : ∀ r ∈ s.reads, Agrees r s.item) (h : s.step e = some s') :
    PointerChange s e s' := by
  cases step_books h with
  | same _ _ hcatalog hissued hev => exact kept_of_books hreads h hev hcatalog hissued
  | call hev =>
    subst hev
    exact call_pointerChange h
  | read _ _ _ hcatalog hissued hev => exact kept_of_books hreads h (by simp [hev]) hcatalog hissued
  | stop hev _ _ _ _ _ _ hcatalog hissued =>
    exact kept_of_books hreads h (by simp [hev]) hcatalog hissued

/-- The receipts a run has issued, against the record and the catalog. -/
structure Chain (s : System) : Prop where
  below : ∀ a ∈ s.issued, ∃ pointer, s.item.lastCheckpointGeneration = some pointer ∧
    a.generation ≤ pointer
  unique : ∀ a ∈ s.issued, ∀ b ∈ s.issued, a.generation = b.generation →
    a.manifestDigest = b.manifestDigest
  /-- A stored digest is the one issued for the generation at the pointer. -/
  current : ∀ a ∈ s.issued, s.item.lastCheckpointGeneration = some a.generation →
    ∀ d, s.item.lastCheckpointManifestDigest = some d → d = a.manifestDigest
  catalog : ∀ a ∈ s.issued, ∃ c, s.catalog a.generation = some c ∧ c.generation = a.generation ∧
    c.manifestDigest = a.manifestDigest ∧ c.status = .committed
  pointer : ∀ g, s.item.lastCheckpointGeneration = some g → ∃ a ∈ s.issued, a.generation = g

theorem Chain.init (ownerHash sandboxId : String) (session : SessionId) (version : String)
    (now : Instant) :
    Chain (System.init ownerHash sandboxId session version now) := by
  constructor <;> simp [System.init, newRecord, SandboxRecord.item]

/-- A request that may advance has the digest already issued for its generation, if one was. -/
theorem Chain.digest_eq (h : Chain s) {a : ReceiptClaims} (ha : a ∈ s.issued)
    (hg : a.generation = r.generation)
    (hforward : ∀ pointer, s.item.lastCheckpointGeneration = some pointer → pointer < r.generation ∨
      pointer = r.generation ∧ s.item.lastCheckpointManifestDigest = some r.manifestDigest) :
    a.manifestDigest = r.manifestDigest := by
  obtain ⟨pointer, hp, hle⟩ := h.below a ha
  rcases hforward pointer hp with hlt | ⟨heq, hd⟩
  · omega
  · exact (h.current a ha (by rw [hp, heq, hg]) _ hd).symm

theorem Chain.step (h : Chain s) (hreads : ∀ r ∈ s.reads, Agrees r s.item)
    (he : s.step e = some s') : Chain s' := by
  cases step_pointerChange hreads he with
  | kept hp hd hcatalog hissued =>
    constructor
    · rw [hissued, hp]; exact h.below
    · rw [hissued]; exact h.unique
    · rw [hissued, hp]
      intro a ha hg d hstored
      rcases hd with hd | hd
      · rw [hd] at hstored; simp at hstored
      · exact h.current a ha hg d (by rw [← hd]; exact hstored)
    · rw [hissued, hcatalog]; exact h.catalog
    · rw [hissued, hp]; exact h.pointer
  | @accepted r c a _ hforward hp hd hcatalog hc hissued ha =>
    have hold : ∀ b ∈ s.issued, b.generation = r.generation → b.manifestDigest = r.manifestDigest :=
      fun b hb hg => h.digest_eq hb hg hforward
    constructor
    · rw [hissued, hp]
      intro b hb
      refine ⟨_, rfl, ?_⟩
      rcases List.mem_cons.1 hb with rfl | hb
      · exact Nat.le_of_eq ha.1
      · obtain ⟨pointer, hq, hle⟩ := h.below b hb
        rcases hforward pointer hq with hlt | ⟨heq, -⟩ <;> omega
    · rw [hissued]
      intro b hb b' hb' hg
      rcases List.mem_cons.1 hb with heq | hm
      · rcases List.mem_cons.1 hb' with heq' | hm'
        · rw [heq, heq']
        · rw [heq, ha.2, hold b' hm' (by rw [← hg, heq, ha.1])]
      · rcases List.mem_cons.1 hb' with heq' | hm'
        · rw [heq', ha.2, hold b hm (by rw [hg, heq', ha.1])]
        · exact h.unique b hm b' hm' hg
    · rw [hissued, hp, hd]
      intro b hb hg d hstored
      obtain rfl := Option.some.inj hstored
      have hg : r.generation = b.generation := Option.some.inj hg
      rcases List.mem_cons.1 hb with rfl | hb
      · exact ha.2.symm
      · exact (hold b hb hg.symm).symm
    · rw [hissued, hcatalog]
      intro b hb
      by_cases hg : b.generation = r.generation
      · refine ⟨c, by rw [hg, Function.update_self], by rw [hc.1, hg], ?_, hc.2.2⟩
        rcases List.mem_cons.1 hb with rfl | hb
        · rw [hc.2.1, ha.2]
        · rw [hc.2.1, hold b hb hg]
      · rcases List.mem_cons.1 hb with rfl | hb
        · exact absurd ha.1 hg
        · rw [Function.update_of_ne hg]
          exact h.catalog b hb
    · rw [hissued, hp]
      intro g hg
      exact ⟨a, List.mem_cons_self .., by rw [ha.1]; exact Option.some.inj hg⟩

theorem step_issued (hreads : ∀ r ∈ s.reads, Agrees r s.item) (h : s.step e = some s') :
    ∀ a ∈ s.issued, a ∈ s'.issued := by
  intro a ha
  cases step_pointerChange hreads h with
  | kept _ _ _ hissued => rw [hissued]; exact ha
  | accepted _ _ _ _ _ _ hissued => rw [hissued]; exact List.mem_cons_of_mem _ ha

theorem Reachable.chain (h : Reachable s) : Chain s := by
  obtain ⟨ownerHash, sandboxId, session, version, now, hr⟩ := h
  exact (hr.invariant (I := fun s => Chain s ∧ Inv s)
    (fun _ _ _ hs _ he => ⟨hs.1.step hs.2.reads he, hs.2.step he⟩)
    ⟨.init ownerHash sandboxId session version now,
      .init ownerHash sandboxId session version now⟩).1

theorem Reachable.issued_run {C : System → Event → Prop} (h : Reachable s)
    (hrun : Machine.Reaches System.step C s s') :
    ∀ a ∈ s.issued, a ∈ s'.issued :=
  (hrun.invariant (I := fun s' => (∀ a ∈ s.issued, a ∈ s'.issued) ∧ Inv s')
    (fun _ _ _ hs _ he => ⟨fun a ha => step_issued hs.2.reads he a (hs.1 a ha), hs.2.step he⟩)
      ⟨fun _ => id, h.inv⟩).1

theorem Accepts.issued (h : Accepts r s e) (hreads : ∀ r ∈ s.reads, Agrees r s.item)
    (he : s.step e = some s') :
    ∃ a ∈ s'.issued, a.generation = r.generation ∧ a.manifestDigest = r.manifestDigest := by
  cases step_pointerChange hreads he with
  | kept _ _ _ _ hrefused => exact absurd h (hrefused r)
  | accepted _ _ _ _ _ _ hissued hclaims hunique =>
    obtain rfl := hunique r h
    exact ⟨_, by rw [hissued]; exact List.mem_cons_self .., hclaims⟩

theorem Accepts.forward (h : Accepts r s e) (hreads : ∀ r ∈ s.reads, Agrees r s.item)
    (he : s.step e = some s') :
    ∀ pointer, s.item.lastCheckpointGeneration = some pointer → pointer < r.generation ∨
      pointer = r.generation ∧ s.item.lastCheckpointManifestDigest = some r.manifestDigest := by
  cases step_pointerChange hreads he with
  | kept _ _ _ _ hrefused => exact absurd h (hrefused r)
  | accepted _ hforward _ _ _ _ _ _ hunique =>
    obtain rfl := hunique r h
    exact hforward

theorem Accepts.version (h : Accepts r s e) (he : s.step e = some s') :
    s.item.stateVersion < s'.item.stateVersion := by
  cases e with
  | call c subjectHash now =>
    obtain ⟨⟨commit, hop⟩, hw⟩ := h
    obtain ⟨session, op⟩ := c
    subst hop
    obtain ⟨item, hw⟩ := Option.ne_none_iff_exists'.1 hw
    simp only [step, hw] at he
    obtain rfl := Option.some.inj he
    rw [applied_item]
    obtain ⟨⟨i, k⟩, hc, rfl⟩ := Option.map_eq_some_iff.1 hw
    obtain ⟨-, -, rfl, -⟩ := checkpointReceipt_eq_some hc
    exact Nat.lt_succ_self _
  | read | acquireStart | stop | transition | requestDeletion | recordWakeSubject => exact h.elim

/-- The pointer is a monotone chain: in every run from a reachable record it stays and never moves
back, a generation is accepted under one digest only, a receipt that names a base finds the pointer
absent, at most there, or at its own generation and digest, and every value the pointer has taken
keeps a catalog item. -/
theorem pointer_chain (hr : Reachable s) (hrun : Machine.Reaches System.step Machine.Any s s') :
    (∀ g, s.item.lastCheckpointGeneration = some g → ∃ g', s'.item.lastCheckpointGeneration =
      some g' ∧ g ≤ g') ∧
    (∀ e₁ s₁ r₁ e₂ r₂, Accepts r₁ s e₁ → s.step e₁ = some s₁ →
      Machine.Reaches System.step Machine.Any s₁ s' →
      Accepts r₂ s' e₂ → r₁.generation = r₂.generation → r₁.manifestDigest = r₂.manifestDigest) ∧
    (∀ e r base, Accepts r s' e → r.baseGeneration = some base →
      s'.item.lastCheckpointGeneration = none ∨ ∃ pointer, s'.item.lastCheckpointGeneration =
        some pointer ∧
        (pointer ≤ base ∨
          pointer = r.generation ∧ s'.item.lastCheckpointManifestDigest = some r.manifestDigest)) ∧
    (∀ g, s.item.lastCheckpointGeneration = some g →
      ∃ c, s'.catalog g = some c ∧ c.generation = g ∧ c.status = .committed) := by
  have hr' : Reachable s' := hr.trans hrun
  refine ⟨fun g hg => ?_, fun e₁ s₁ r₁ e₂ r₂ h₁ he₁ hrun₁ h₂ hgen => ?_, fun e r base h hb =>
    ?_, fun g hg => ?_⟩
  · obtain ⟨a, ha, rfl⟩ := hr.chain.pointer g hg
    exact hr'.chain.below a (hr.issued_run hrun a ha)
  · -- the first receipt is still on record when the second is accepted
    obtain ⟨a, ha, hag, had⟩ := h₁.issued hr.inv.reads he₁
    have hr₁ : Reachable s₁ := hr.step he₁
    obtain ⟨s₂, he₂⟩ : ∃ s₂, s'.step e₂ = some s₂ := by
      cases e₂ with
      | call c subjectHash now =>
        obtain ⟨item, hw⟩ := Option.ne_none_iff_exists'.1 h₂.2
        exact ⟨_, by rw [System.step, hw]⟩
      | read | acquireStart | stop | transition | requestDeletion | recordWakeSubject =>
        exact h₂.elim
    have := hr'.chain.digest_eq (hr₁.issued_run hrun₁ a ha) (hag.trans hgen)
      (h₂.forward hr'.inv.reads he₂)
    rw [← had, this]
  · cases e with
    | call c subjectHash now =>
      obtain ⟨⟨commit, hop⟩, hw⟩ := h
      obtain ⟨session, op⟩ := c
      subst hop
      obtain ⟨item, hw⟩ := Option.ne_none_iff_exists'.1 hw
      obtain ⟨⟨i, k⟩, hc, -⟩ := Option.map_eq_some_iff.1 hw
      have hpointer := (checkpointReceipt_eq_some hc).2.1.2.2.2
      unfold ReceiptRequest.pointerOk at hpointer
      cases hp : s'.item.lastCheckpointGeneration with
      | none => exact .inl rfl
      | some pointer =>
        simp only [hp, ReceiptRequest.advance, hb] at hpointer
        exact .inr ⟨pointer, rfl, hpointer⟩
    | read | acquireStart | stop | transition | requestDeletion | recordWakeSubject => exact h.elim
  · obtain ⟨a, ha, rfl⟩ := hr.chain.pointer g hg
    obtain ⟨c, hc, hcg, -, hcs⟩ := hr'.chain.catalog a (hr.issued_run hrun a ha)
    exact ⟨c, hc, hcg, hcs⟩

/-! ## A sandbox with one checkpoint -/

def sampleDigest : Digest := List.replicate 64 'a'

/-- Instance 10 is ready, and its receipt for generation 1 is accepted. -/
def firstReceipt : List Event :=
  [.call ⟨⟨1⟩, .markReady ⟨10⟩ "success"⟩ "sub" ⟨3000000⟩,
    .call ⟨⟨1⟩, .checkpointReceipt ⟨1, sampleDigest, false, none, some ⟨10⟩, {}⟩
    (some ⟨1, sampleDigest, ⟨4000000⟩⟩)⟩
      "sub" ⟨5000000⟩]

def checkpointedSystem : System :=
  (Machine.runAlong System.step Machine.Any claimedSystem firstReceipt).get (by decide +kernel)

theorem checkpointedSystem_reachable : Reachable checkpointedSystem :=
  claimedSystem_reachable.trans (.of_isSome (C := Machine.Any) _)

/-- The next start reads the record and rotates it; the put forgets the stored digest. -/
def nextStart : List Event :=
  [.read, .acquireStart checkpointedSystem.item.record ⟨7⟩ 90 true ⟨2⟩ ⟨200000000⟩]

def restartedSystem : System :=
  (Machine.runAlong System.step Machine.Any checkpointedSystem nextStart).get (by decide +kernel)

/-- Generation 1 is still the pointer's lower bound after the next start, and is in the catalog. -/
theorem pointer_chain_restart :
    (∃ g', restartedSystem.item.lastCheckpointGeneration = some g' ∧ 1 ≤ g') ∧
      ∃ c, restartedSystem.catalog 1 = some c ∧ c.generation = 1 ∧ c.status = .committed :=
  have hrun : Machine.Reaches System.step Machine.Any checkpointedSystem restartedSystem :=
    .of_isSome _
  have h := pointer_chain checkpointedSystem_reachable hrun
  ⟨h.1 1 (by decide +kernel), h.2.2.2 1 (by decide +kernel)⟩

end System

end KiroCrew
