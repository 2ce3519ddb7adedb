import KiroCrew.Overwrite
import KiroCrew.Pointer
import KiroCrew.Store

/-!
# What STOPPED means

`Ledger` is the record under all its writers together with the commit objects of its bucket. The
broker reads the commit it checks a receipt against from the bucket, and a stop is asked for by the
identity whose subject the record was found under, so it carries the owner's subject hash; both are
the conditions of `Ledger.admits`. Receipts are the ones the broker has issued (`System.issued`).

The version the stop read is the one its put is conditioned on, so whatever the stop checked on its
copy is true of the record at the put, and no receipt was accepted in between
(`Ledger.stopped_durable`).
-/

namespace KiroCrew

structure Ledger where
  sys : System
  objects : Objects Unit := {}
  /-- `Identity.subject_hash` of the owner. -/
  owner : String

namespace Ledger

inductive Event
  | record (e : KiroCrew.Event)
  | putCommit (c : CommitRecord)
deriving DecidableEq, Repr

/-- A receipt is checked against the bucket, or the commit was not there yet; a stop is the
owner's. -/
def admits (l : Ledger) : KiroCrew.Event → Bool
  | .call ⟨_, .checkpointReceipt r commit⟩ _ _ =>
    commit = none || commit = l.objects.commit? r.generation
  | .stop _ _ subjectHash _ => subjectHash = l.owner
  | _ => true

def step (l : Ledger) : Event → Option Ledger
  | .record e => if l.admits e then (l.sys.step e).map fun sys => { l with sys := sys } else none
  | .putCommit c => some { l with objects := (l.objects.putCommit c).getD l.objects }

/-- Reached from a newly created record over an empty prefix. -/
def Reachable (l : Ledger) : Prop :=
  ∃ ownerHash sandboxId session version now owner,
    Machine.Reaches step Machine.Any ⟨System.init ownerHash sandboxId session version now,
    {}, owner⟩ l

variable {l l' l₀ l₁ : Ledger} {e : Event}

/-! ## The record in a ledger -/

theorem step_sys (h : l.step e = some l') :
    l'.sys = l.sys ∨ ∃ ev, e = .record ev ∧ l.admits ev = true ∧ l.sys.step ev = some l'.sys := by
  cases e with
  | record ev =>
    simp only [step] at h
    split at h
    · next ha =>
      obtain ⟨sys, hs, rfl⟩ := Option.map_eq_some_iff.1 h
      exact .inr ⟨ev, rfl, ha, hs⟩
    · simp at h
  | putCommit c =>
    obtain rfl := Option.some.inj h
    exact .inl rfl

theorem step_owner (h : l.step e = some l') : l'.owner = l.owner := by
  cases e with
  | record ev =>
    simp only [step] at h
    split at h
    · obtain ⟨sys, hs, rfl⟩ := Option.map_eq_some_iff.1 h
      rfl
    · simp at h
  | putCommit c =>
    obtain rfl := Option.some.inj h
    rfl

theorem run_sys {C : Ledger → Event → Prop} (h : Machine.Reaches step C l l') :
    Machine.Reaches System.step Machine.Any l.sys l'.sys :=
  h.relation (R := fun l l' => Machine.Reaches System.step Machine.Any l.sys l'.sys)
    (fun _ => .refl)
    fun _ _ _ _ hrun _ he => by
      rcases step_sys he with hsame | ⟨ev, -, -, hs⟩
      · rw [hsame]; exact hrun
      · exact hrun.tail trivial hs

theorem Reachable.sys (h : l.Reachable) : l.sys.Reachable := by
  obtain ⟨ownerHash, sandboxId, session, version, now, owner, hr⟩ := h
  exact ⟨ownerHash, sandboxId, session, version, now, run_sys hr⟩

theorem Reachable.step (h : l.Reachable) (he : l.step e = some l') : l'.Reachable := by
  obtain ⟨ownerHash, sandboxId, session, version, now, owner, hr⟩ := h
  exact ⟨ownerHash, sandboxId, session, version, now, owner, hr.tail trivial he⟩

theorem Reachable.induct {P : Ledger → Prop}
    (hinit : ∀ ownerHash sandboxId session version now owner,
      P ⟨System.init ownerHash sandboxId session version now, {}, owner⟩)
    (hstep : ∀ l e l', l.Reachable → P l → l.step e = some l' → P l') (h : l.Reachable) : P l := by
  obtain ⟨ownerHash, sandboxId, session, version, now, owner, hr⟩ := h
  exact (hr.invariant (I := fun l => l.Reachable ∧ P l)
    (fun l e l' hl _ he => ⟨hl.1.step he, hstep l e l' hl.1 hl.2 he⟩)
    ⟨⟨ownerHash, sandboxId, session, version, now, owner, .refl⟩,
      hinit ownerHash sandboxId session version now owner⟩).2

/-! ## Commits -/

theorem commit?_putCommit {o : Objects Unit} {c c' : CommitRecord} {g : Nat}
    (h : o.commit? g = some c) :
    ((o.putCommit c').getD o).commit? g = some c := by
  cases hp : o.putCommit c' with
  | none => exact h
  | some o' =>
    obtain ⟨hnew, rfl⟩ := Objects.putCommit_eq_some hp
    obtain ⟨hmem, hg⟩ := Objects.commit?_eq_some h
    have hne : c'.generation ≠ g := fun heq => hnew c hmem (hg.trans heq.symm)
    simp only [Option.getD_some, Objects.commit?, List.find?_cons, hne, decide_false]
    exact h

theorem Reachable.committed (h : l.Reachable) : ∀ a ∈ l.sys.issued, ∃ c,
    l.objects.commit? a.generation = some c ∧ c.manifestDigest = a.manifestDigest := by
  refine h.induct (P := fun l => ∀ a ∈ l.sys.issued, ∃ c,
    l.objects.commit? a.generation = some c ∧ c.manifestDigest = a.manifestDigest) ?_ ?_
  · intro ownerHash sandboxId session version now owner a ha
    simp [System.init] at ha
  · intro l e l' hr hl he
    cases e with
    | putCommit c =>
      obtain rfl := Option.some.inj he
      intro a ha
      obtain ⟨k, hk, hd⟩ := hl a ha
      exact ⟨k, commit?_putCommit hk, hd⟩
    | record ev =>
      simp only [Ledger.step] at he
      split at he
      · next hadmits =>
        obtain ⟨sys, hs, rfl⟩ := Option.map_eq_some_iff.1 he
        have hinv := hr.sys.inv
        cases System.step_pointerChange hinv.reads hs with
        | kept _ _ _ hissued =>
          intro a ha
          rw [show sys.issued = l.sys.issued from hissued] at ha
          exact hl a ha
        | @accepted r k a accepts _ _ _ _ _ hissued hclaims =>
          intro b hb
          rw [show sys.issued = a :: l.sys.issued from hissued] at hb
          rcases List.mem_cons.1 hb with heq | hb
          · -- the request was checked against the object in the bucket
            cases ev with
            | call c subjectHash now =>
              obtain ⟨⟨commit, hop⟩, hw⟩ := accepts
              obtain ⟨session, op⟩ := c
              subst hop
              obtain ⟨item, hw⟩ := Option.ne_none_iff_exists'.1 hw
              obtain ⟨⟨i, k'⟩, hc, -⟩ := Option.map_eq_some_iff.1 hw
              have hv := (checkpointReceipt_eq_some hc).1
              simp only [ReceiptRequest.valid, Bool.and_eq_true] at hv
              obtain ⟨⟨-, hcommit⟩, -⟩ := hv
              obtain ⟨o, rfl, ho⟩ := (Option.any_eq_true _ _).1 hcommit
              simp only [Bool.and_eq_true, decide_eq_true_eq] at ho
              have hbucket : some o = l.objects.commit? r.generation := by
                simpa [admits] using hadmits
              refine ⟨o, ?_, ?_⟩
              · rw [heq, hclaims.1]; exact hbucket.symm
              · rw [heq, hclaims.2]; exact ho.2
            | read | acquireStart | stop | transition | requestDeletion | recordWakeSubject =>
              exact accepts.elim
          · exact hl b hb
      · simp at he

/-! ## Stopping -/

theorem Reachable.sandboxId (h : l.Reachable) : ∀ r ∈ l.sys.reads, r.sandboxId =
    l.sys.item.sandboxId := by
  refine h.induct (P := fun l => ∀ r ∈ l.sys.reads, r.sandboxId = l.sys.item.sandboxId) ?_ ?_
  · intro ownerHash sandboxId session version now owner r hr
    simp [System.init] at hr
  · intro l e l' hr hl he
    rcases step_sys he with hsame | ⟨ev, -, -, hs⟩
    · rw [hsame]; exact hl
    · have hid : l'.sys.item.sandboxId = l.sys.item.sandboxId := by
        rcases System.step_item hs with hi | ⟨c, subjectHash, now, -, hw⟩ | ⟨record, updated, hd,
          hv, hi⟩ | ⟨sealed, -, hi⟩
        · rw [hi]
        · exact (BrokerCall.write_frame hw).1
        · have hmem := System.decision_mem hd hs
          have hvalue :=
            System.decision_value hd (a := .sandboxId) (by cases ev <;> simp [Event.replaced])
          rw [hi, ← hl record hmem]
          simpa [Item.value, SandboxRecord.item] using hvalue
        · rw [hi]
      intro r hmem
      rcases System.step_reads hs r hmem with hmem | rfl
      · rw [hid]; exact hl r hmem
      · rfl

/-- What the stop has checked of a pending request. -/
structure Checked (l : Ledger) (p : PendingStop) : Prop where
  read : p.record ∈ l.sys.reads
  issued : p.receipt ∈ l.sys.issued
  sandbox : p.receipt.sandboxId = p.record.sandboxId
  session : p.receipt.runtimeSessionId = p.record.runtimeSessionId
  owner : p.receipt.subjectHash = l.owner
  pointer : p.record.lastCheckpointGeneration = some p.receipt.generation

theorem Reachable.checked (h : l.Reachable) : ∀ p ∈ l.sys.stops, Checked l p := by
  refine h.induct (P := fun l => ∀ p ∈ l.sys.stops, Checked l p) ?_ ?_
  · intro ownerHash sandboxId session version now owner p hp
    simp [System.init] at hp
  · intro l e l' hr hl he p hp
    have howner := step_owner he
    rcases step_sys he with hsame | ⟨ev, -, hadmits, hs⟩
    · rw [hsame] at hp
      obtain ⟨h₁, h₂, h₃, h₄, h₅, h₆⟩ := hl p hp
      exact ⟨hsame ▸ h₁, hsame ▸ h₂, h₃, h₄, by rw [howner]; exact h₅, h₆⟩
    · have hkeep : p ∈ l.sys.stops → Checked l' p := by
        intro hp
        obtain ⟨h₁, h₂, h₃, h₄, h₅, h₆⟩ := hl p hp
        exact ⟨System.step_reads_mono hs _ h₁, System.step_issued hr.sys.inv.reads hs _ h₂, h₃, h₄,
          by rw [howner]; exact h₅, h₆⟩
      cases System.step_books hs with
      | same _ hstops | call _ _ hstops | read _ _ hstops => exact hkeep (hstops ▸ hp)
      | @stop record receipt subjectHash now hev hknown hreceipts hverified hallowed _ hstops =>
        rw [hstops] at hp
        rcases List.mem_cons.1 hp with rfl | hp
        · subst hev
          simp only [verifyCheckpointReceipt, Bool.and_eq_true, decide_eq_true_eq] at hverified
          obtain ⟨⟨⟨⟨⟨hsandbox, hsession⟩, hsubject⟩, -⟩, -⟩, -⟩ := hverified
          simp only [stopAllowed, Bool.and_eq_true, decide_eq_true_eq] at hallowed
          have hsame : subjectHash = l.owner := by simpa [admits] using hadmits
          exact ⟨System.step_reads_mono hs _ hknown,
            System.step_issued hr.sys.inv.reads hs _ hreceipts, hsandbox,
            hsession, by rw [howner, hsubject, hsame], hallowed.1.2⟩
        · exact hkeep hp

/-- A final receipt of the record's session has moved the record to `STOPPING`. -/
def FinallyReceipted (l : Ledger) : Prop :=
  ∃ (l₀ l₁ : Ledger) (r : ReceiptRequest) (commit : Option
    CommitRecord) (subjectHash : String) (now : Instant),
    l₀.Reachable ∧ r.final = true ∧ l₀.sys.item.state ≠ .stopping ∧
    l₀.step (.record (.call ⟨l.sys.item.runtimeSessionId, .checkpointReceipt r commit⟩ subjectHash
      now)) = some l₁ ∧
    l₁.sys.item.state = .stopping ∧ Machine.Reaches Ledger.step Machine.Any l₁ l

/-- Only a final receipt moves the record to `STOPPING`, and there it keeps its session. -/
theorem step_stopping {s s' : System} {ev : KiroCrew.Event}
    (hreads : ∀ r ∈ s.reads, System.Agrees r s.item)
    (he : s.step ev = some s') (hs : s'.item.state = .stopping) :
    s'.item.runtimeSessionId = s.item.runtimeSessionId ∧
      (s.item.state = .stopping ∨ ∃ r commit subjectHash now,
      r.final = true ∧ ev = .call ⟨s.item.runtimeSessionId, .checkpointReceipt r commit⟩
      subjectHash now) := by
  cases System.step_change hreads he with
  | same hc =>
    obtain ⟨hst, hse, -, -⟩ := System.core_eq hc
    exact ⟨hse, .inl (hst.symm.trans hs)⟩
  | @call c subjectHash now hev hw =>
    refine ⟨System.write_runtimeSessionId hw, ?_⟩
    obtain ⟨session, op⟩ := c
    have heff : BrokerCall.Effect s.item s'.item session op := BrokerCall.write_effect hw
    cases heff with
    | acquireInit _ hc | healReady _ _ hc | markReady _ _ hc | markError _ hc =>
      have := (System.core_eq hc).1
      rw [hs] at this; simp at this
    | heartbeatInit _ hc | heartbeatLease _ hc => exact .inl ((System.core_eq hc).1.symm.trans hs)
    | @checkpointReceipt r commit _ _ hallowed hu =>
      by_cases hfinal : r.final = true
      · exact .inr ⟨r, commit, subjectHash, now, hfinal, by rw [hev, hallowed.1]⟩
      · rw [hu] at hs
        simp only [ReceiptRequest.update, hfinal] at hs
        exact .inl hs
  | rotate _ hc | stopped _ hc =>
    have := (System.core_eq hc).1
    rw [hs] at this; simp at this
  | deletion hst hc =>
    have := (System.core_eq hc).1
    rw [hs, show s.item.core.state = .stopped from hst] at this
    simp at this

theorem Reachable.finallyReceipted (h : l.Reachable) : l.sys.item.state = .stopping →
    FinallyReceipted l := by
  refine h.induct (P := fun l => l.sys.item.state = .stopping → FinallyReceipted l) ?_ ?_
  · intro ownerHash sandboxId session version now owner hs
    simp [System.init, newRecord, SandboxRecord.item] at hs
  · intro l e l' hr hl he hs
    rcases step_sys he with hsame | ⟨ev, rfl, -, hstep⟩
    · obtain ⟨l₀, l₁, r, commit, subjectHash, now, h₀, hfinal, hne, hreceipt, hst, hrun⟩ :=
        hl (by rw [← hsame]; exact hs)
      exact ⟨l₀, l₁, r, commit, subjectHash, now, h₀, hfinal, hne, by rw [hsame]; exact hreceipt,
        hst, hrun.tail trivial he⟩
    · obtain ⟨hsession, hcases⟩ := step_stopping hr.sys.inv.reads hstep hs
      by_cases hstopping : l.sys.item.state = .stopping
      · obtain ⟨l₀, l₁, r, commit, subjectHash, now, h₀, hfinal, hne, hreceipt, hst, hrun⟩ :=
          hl hstopping
        exact ⟨l₀, l₁, r, commit, subjectHash, now, h₀, hfinal,
          hne, by rw [hsession]; exact hreceipt, hst,
          hrun.tail trivial he⟩
      · obtain ⟨r, commit, subjectHash, now, hfinal, rfl⟩ := hcases.resolve_left hstopping
        exact ⟨l, l', r, commit, subjectHash, now, hr, hfinal,
          hstopping, by rw [hsession]; exact he, hs, .refl⟩

theorem step_stopped {s s' : System} {ev : KiroCrew.Event}
    (hreads : ∀ r ∈ s.reads, System.Agrees r s.item)
    (he : s.step ev = some s') (hbefore : s.item.state ≠ .stopped)
    (hafter : s'.item.state = .stopped) :
    ∃ pending record updated now, ev = .transition pending record now ∧ pending ∈ s.stops ∧
      transition record pending.record.stateVersion pending.record.leaseOwner now = some updated ∧
      s.item.stateVersion = record.stateVersion ∧ s'.item = updated.item := by
  rcases System.step_item he with hi | ⟨c, subjectHash, now, rfl, hw⟩ | ⟨record, updated, hd, hv,
    hi⟩ | ⟨sealed, -, hi⟩
  · rw [hi] at hafter
    exact absurd hafter hbefore
  · -- no broker call stops the record
    obtain ⟨session, op⟩ := c
    have heff : BrokerCall.Effect s.item s'.item session op := BrokerCall.write_effect hw
    cases heff with
    | acquireInit _ hc | healReady _ _ hc | markReady _ _ hc | markError _ hc =>
      have := (System.core_eq hc).1
      rw [hafter] at this; simp at this
    | heartbeatInit _ hc | heartbeatLease _ hc =>
      exact absurd ((System.core_eq hc).1.symm.trans hafter) hbefore
    | @checkpointReceipt r _ _ _ hallowed hu =>
      rw [hu] at hafter
      simp only [ReceiptRequest.update] at hafter
      split at hafter
      · simp at hafter
      · exact absurd hafter hbefore
  · cases ev with
    | call | read | stop | recordWakeSubject => simp [Event.decision] at hd
    | acquireStart r leaseOwner ttl confirmedInactive rotated now =>
      simp only [Event.decision] at hd
      split at hd
      · next u hu =>
        obtain ⟨-, rfl⟩ := Prod.mk.inj (Option.some.inj hd)
        rw [hi, acquireStart_rotate hu] at hafter
        simp [SandboxRecord.item] at hafter
      · simp at hd
      · simp at hd
    | transition pending r now =>
      obtain ⟨u, hu, heq⟩ := Option.map_eq_some_iff.1 hd
      obtain ⟨rfl, rfl⟩ := Prod.mk.inj heq
      refine ⟨pending, r, u, now, rfl, ?_, hu, hv, hi⟩
      simp only [System.step] at he
      split at he
      · next hg => exact hg.1
      · simp at he
    | requestDeletion r now =>
      obtain ⟨u, hu, heq⟩ := Option.map_eq_some_iff.1 hd
      obtain ⟨rfl, rfl⟩ := Prod.mk.inj heq
      have hcore := (hreads r (System.decision_mem hd he)).2 hv.symm
      have hst : r.state = .stopped := (requestDeletion_eq_some hu).1
      exact absurd ((congrArg Core.state hcore).symm.trans hst) hbefore
  · rw [hi] at hafter
    exact absurd hafter hbefore

/-- What is stored for the receipt a stop presented. -/
structure Stored (l : Ledger) (receipt : ReceiptClaims) : Prop where
  pointer : l.sys.item.lastCheckpointGeneration = some receipt.generation
  commit : ∃ c, l.objects.commit? receipt.generation = some c ∧ c.generation = receipt.generation ∧
    c.manifestDigest = receipt.manifestDigest
  catalog : ∃ m, l.sys.catalog receipt.generation = some m ∧ m.status = .committed ∧
    m.generation = receipt.generation ∧ m.manifestDigest = receipt.manifestDigest
  issued : receipt ∈ l.sys.issued
  session : receipt.runtimeSessionId = l.sys.item.runtimeSessionId
  sandbox : receipt.sandboxId = l.sys.item.sandboxId
  owner : receipt.subjectHash = l.owner

/-- No receipt is accepted between a read of `record` and `l`. -/
def Unreceipted (record : SandboxRecord) (l : Ledger) : Prop :=
  ∀ (read read' before after : Ledger) (ev : KiroCrew.Event) (r : ReceiptRequest), read.Reachable →
    read.sys.item.record = record →
    read.step (.record .read) = some read' → Machine.Reaches Ledger.step Machine.Any read' before →
    before.step (.record ev) = some after → Machine.Reaches Ledger.step Machine.Any after l →
    ¬ System.Accepts r before.sys ev

/-- Nothing is accepted between a read and a state that still has the version that was read. -/
theorem unreceipted {record : SandboxRecord} (hv : l.sys.item.stateVersion = record.stateVersion) :
    Unreceipted record l := by
  intro read read' before after ev r hr hrecord hread hrun hstep hrun' haccept
  have hsys : before.sys.step ev = some after.sys := by
    simp only [step] at hstep
    split at hstep
    · obtain ⟨sys, hs, rfl⟩ := Option.map_eq_some_iff.1 hstep
      exact hs
    · simp at hstep
  have h₁ : read.sys.item.stateVersion ≤ before.sys.item.stateVersion :=
    (System.Since.run (run_sys
      ((Machine.Reaches.single (C := Machine.Any) trivial hread).trans hrun))).le
  have h₂ : before.sys.item.stateVersion < after.sys.item.stateVersion := haccept.version hsys
  have h₃ : after.sys.item.stateVersion ≤ l.sys.item.stateVersion :=
    (System.Since.run (run_sys hrun')).le
  have h₄ : read.sys.item.stateVersion = record.stateVersion := by rw [← hrecord]; rfl
  omega

/-- Whenever the record enters `STOPPED`, it does so by a stop whose receipt is the one at the
pointer: its commit object and its catalog item are stored with its digest, it was issued for this
session, sandbox and owner, a final receipt of the session had moved the record to `STOPPING`, and
no receipt was accepted since the stop read the record. -/
theorem stopped_durable (hr : l.Reachable) (he : l.step e = some l')
    (hbefore : l.sys.item.state ≠ .stopped)
    (hafter : l'.sys.item.state = .stopped) :
    ∃ pending record now, e = .record (.transition pending record now) ∧ Stored l' pending.receipt ∧
      FinallyReceipted l ∧ Unreceipted pending.record l := by
  rcases step_sys he with hsame | ⟨ev, rfl, -, hs⟩
  · rw [hsame] at hafter
    exact absurd hafter hbefore
  have hinv := hr.sys.inv
  obtain ⟨pending, record, updated, now, rfl, hpending, hu, hv, hi⟩ :=
    step_stopped hinv.reads hs hbefore hafter
  obtain ⟨hversion, -, hstopping, hupdated⟩ := transition_eq_some hu
  have hchecked := hr.checked pending hpending
  -- the copy the stop checked has the record's version, so it agrees with the record
  have hcore : pending.record.core = l.sys.item.core :=
    (hinv.reads pending.record hchecked.read).2 (hversion.symm.trans hv.symm)
  have hd : (KiroCrew.Event.transition pending record now).decision = some (record, updated) := by
    simp only [Event.decision, hu, Option.map_some]
  have hread : record ∈ l.sys.reads := System.decision_mem hd hs
  have hrecord : record.core = l.sys.item.core := (hinv.reads record hread).2 hv.symm
  have hstate : l.sys.item.state = .stopping := (congrArg Core.state hrecord).symm.trans hstopping
  have hcore' : l'.sys.item.core = { l.sys.item.core with state := .stopped,
                                                          leaseOwner := none } := by
    rw [hi, hupdated, ← hrecord]
    rfl
  have hr' : l'.Reachable := hr.step he
  have hissued : pending.receipt ∈ l'.sys.issued :=
    System.step_issued hinv.reads hs _ hchecked.issued
  refine ⟨pending, record, now, rfl, ⟨?_, ?_, ?_, hissued, ?_, ?_, ?_⟩, hr.finallyReceipted hstate,
    unreceipted (hv.trans hversion)⟩
  · have hkept : l'.sys.item.lastCheckpointGeneration = l.sys.item.lastCheckpointGeneration :=
      congrArg Core.lastCheckpointGeneration hcore'
    have hread : pending.record.lastCheckpointGeneration = l.sys.item.lastCheckpointGeneration :=
      congrArg Core.lastCheckpointGeneration hcore
    rw [hkept, ← hread, hchecked.pointer]
  · obtain ⟨c, hc, hd⟩ := hr'.committed _ hissued
    exact ⟨c, hc, (Objects.commit?_eq_some hc).2, hd⟩
  · obtain ⟨m, hm, hg, hd, hcommitted⟩ := hr'.sys.chain.catalog _ hissued
    exact ⟨m, hm, hcommitted, hg, hd⟩
  · have hkept : l'.sys.item.runtimeSessionId = l.sys.item.runtimeSessionId :=
      congrArg Core.runtimeSessionId hcore'
    have hread : pending.record.runtimeSessionId = l.sys.item.runtimeSessionId :=
      congrArg Core.runtimeSessionId hcore
    rw [hchecked.session, hkept, hread]
  · rw [hchecked.sandbox, hr'.sandboxId _ (System.step_reads_mono hs _ hchecked.read)]
  · rw [hchecked.owner, step_owner he]

/-! ## A sandbox that is stopped -/

def sampleCommit : CommitRecord := ⟨1, System.sampleDigest, ⟨4000000⟩⟩

def finalReceipt : ReceiptRequest := ⟨1, System.sampleDigest, true, none, some ⟨10⟩, {}⟩

def sampleLedger : Ledger := ⟨System.newSystem, {}, "sub"⟩

/-- Instance 10 starts, commits generation 1 and sends its final receipt; then the record is
read. -/
def toStopping : List Event :=
  [.record .read, .record (.acquireStart (newRecord "sub" "box" ⟨0⟩ "1" ⟨0⟩) ⟨0⟩ 90 false
    ⟨1⟩ ⟨1000000⟩),
    .record (.call ⟨⟨1⟩, .acquireInit ⟨10⟩⟩ "sub" ⟨2000000⟩),
    .record (.call ⟨⟨1⟩, .markReady ⟨10⟩ "success"⟩ "sub" ⟨3000000⟩), .putCommit sampleCommit,
    .record (.call ⟨⟨1⟩, .checkpointReceipt finalReceipt (some sampleCommit)⟩ "sub" ⟨5000000⟩),
      .record .read]

def stoppingLedger : Ledger :=
  (Machine.runAlong step Machine.Any sampleLedger toStopping).get (by decide +kernel)

def stopRequest : PendingStop :=
  ⟨stoppingLedger.sys.item.record, finalReceipt.claims ⟨1⟩ "box" "sub" ⟨5000000⟩⟩

/-- The owner asks for the stop with the receipt, and `transition` reads the record again. -/
def toStopped : List Event :=
  [.record (.stop stopRequest.record stopRequest.receipt "sub" ⟨6000000⟩), .record .read]

def checkedLedger : Ledger :=
  (Machine.runAlong step Machine.Any stoppingLedger toStopped).get (by decide +kernel)

def stopEvent : Event := .record (.transition stopRequest stoppingLedger.sys.item.record ⟨7000000⟩)

theorem stopped_durable_sample :
    ∃ pending record now, stopEvent = .record (.transition pending record now) ∧
      Stored ((checkedLedger.step stopEvent).get (by decide +kernel)) pending.receipt ∧
      FinallyReceipted checkedLedger ∧ Unreceipted pending.record checkedLedger :=
  have h₁ : Machine.Reaches step Machine.Any sampleLedger stoppingLedger := .of_isSome _
  have h₂ : Machine.Reaches step Machine.Any stoppingLedger checkedLedger := .of_isSome _
  stopped_durable ⟨"sub", "box", ⟨0⟩, "1", ⟨0⟩, "sub", h₁.trans h₂⟩ (Option.some_get _).symm
    (by decide +kernel)
    (by decide +kernel)

end Ledger

end KiroCrew
