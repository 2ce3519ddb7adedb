import KiroCrew.Overwrite

/-!
# The serving holder

`Watch` follows the record from the moment an instance is marked ready, with one clock and the time
of its last applied lease heartbeat. As long as the heartbeats are less than 90 seconds apart the
lease never runs out (`Kept.lease`), so no claim is applied and a start that has seen the current
lease keeps the record. A start whose copy carries the current version was read after `markReady`
and after every receipt, but a heartbeat does not move the version: a copy can be current and still
hold a lease that has been renewed since. `Overtaken` is that case, and `holder_kept` says that it
is the only one in which the holder is displaced.
-/

namespace KiroCrew

namespace System

structure Timed where
  time : Instant
  event : Event

/-- The record, the clock, and the last applied heartbeat of the holder. -/
structure Watch where
  sys : System
  clock : Instant
  lastBeat : Instant

def beats (H : InstanceId) (s : System) : Event → Bool
  | .call ⟨session, .heartbeatLease holder served⟩ _ now =>
    holder = some H && (KiroCrew.heartbeatLease s.item session holder served now).isSome
  | _ => false

def ends (s : System) : Event → Bool
  | .call ⟨session, .checkpointReceipt r commit⟩ _ now =>
    r.final && (KiroCrew.checkpointReceipt s.item session r commit now).isSome
  | .call ⟨session, .markError owner d⟩ _ now =>
    (KiroCrew.markError s.item session owner d now).isSome
  | _ => false

def Watch.step (H : InstanceId) (w : Watch) (e : Timed) : Option Watch :=
  (w.sys.step e.event).map fun sys =>
    ⟨sys, e.time, if beats H w.sys e.event then e.time else w.lastBeat⟩

/-- A broker call is evaluated at its own time, a control request no earlier than it took its
time. -/
def Timed.stamped (e : Timed) : Prop :=
  match e.event with
  | .call _ _ now => now = e.time
  | .acquireStart _ _ _ _ _ now | .stop _ _ _ now | .transition _ _ now | .requestDeletion _ now =>
    now ≤ e.time
  | .read | .recordWakeSubject _ => True

/-- The holder was served within the last minute when another instance claims. -/
def recent (H : InstanceId) (item : Item) : Event → Bool
  | .call ⟨_, .acquireInit owner⟩ _ now =>
    owner = H || item.lastServedAt.all fun served => now.subSeconds takeoverIdle ≤ served
  | _ => true

/-- The stored times compare in time order where a claim is evaluated. -/
def ordered (item : Item) : Event → Bool
  | .call _ _ now =>
    (item.leaseExpiresAt.all fun lease => lease.isoLt now == decide (lease < now)) &&
      item.lastServedAt.all fun served =>
        served.isoLt (now.subSeconds takeoverIdle) == decide (served < now.subSeconds takeoverIdle)
  | _ => true

/-- What is assumed of every event while the holder serves. -/
structure Serves (H : InstanceId) (w : Watch) (e : Timed) : Prop where
  clock : w.clock ≤ e.time
  stamped : e.stamped
  /-- The next heartbeat is less than 90 seconds after the last. -/
  beat : e.time < w.lastBeat.addSeconds 90
  recent : recent H w.sys.item e.event = true
  alive : ends w.sys e.event = false
  ordered : ordered w.sys.item e.event = true

/-- A start is decided after the lease of its copy has run out, on a copy of the current version
whose lease has been renewed since; the caller names the lease owner, or is sure of the holder's
end. -/
def Overtaken (s : System) : Event → Prop
  | .acquireStart record leaseOwner _ confirmedInactive _ now =>
    record.stateVersion = s.item.stateVersion ∧ record.leaseExpiresAt ≠ s.item.leaseExpiresAt ∧
      (∀ lease, record.leaseExpiresAt = some lease → ¬ now < lease) ∧
      (record.leaseOwner = some leaseOwner ∨ confirmedInactive = true)
  | _ => False

/-- `H` serves under the session `S`. -/
structure Kept (S : SessionId) (H : InstanceId) (w : Watch) : Prop where
  inv : Inv w.sys
  state : w.sys.item.state = .ready
  session : w.sys.item.runtimeSessionId = S
  holder : w.sys.item.holderInstance = some H
  initOwner : w.sys.item.initOwner = none
  initExpiresAt : w.sys.item.initExpiresAt = none
  leaseOwner : w.sys.item.leaseOwner = some S
  lease : ∃ lease, w.sys.item.leaseExpiresAt = some lease ∧ w.lastBeat.addSeconds 90 ≤ lease
  beat : w.lastBeat ≤ w.clock
  copies : ∀ r ∈ w.sys.reads, r.stateVersion = w.sys.item.stateVersion → r.initExpiresAt = none

variable {s s' s₁ : System} {w w' : Watch} {e : Timed} {S : SessionId} {H : InstanceId}
    {t₀ : Instant}

/-! ## The claims -/

theorem recent_claim {item : Item} {session : SessionId} {owner : InstanceId} {subjectHash : String}
    {now : Instant}
    (h : recent H item (.call ⟨session, .acquireInit owner⟩ subjectHash now) = true)
    (hne : owner ≠ H) :
    ∀ served, item.lastServedAt = some served → ¬ served < now.subSeconds takeoverIdle := by
  intro served hs
  simp only [recent] at h
  rw [hs, Option.all_some] at h
  rcases Bool.or_eq_true_iff.1 h with h | h
  · exact absurd (of_decide_eq_true h) hne
  · exact Instant.not_lt.2 (of_decide_eq_true h)

theorem ordered_call {item : Item} {c : BrokerCall} {subjectHash : String} {now : Instant}
    (h : ordered item (.call c subjectHash now) = true) :
    (∀ lease, item.leaseExpiresAt = some lease → lease.isoLt now = true → lease < now) ∧
      ∀ served, item.lastServedAt = some served →
      served.isoLt (now.subSeconds takeoverIdle) = true →
        served < now.subSeconds takeoverIdle := by
  simp only [ordered, Bool.and_eq_true] at h
  obtain ⟨hlease, hserved⟩ := h
  refine ⟨fun lease hl hlt => ?_, fun served hs hlt => ?_⟩
  · rw [hl, Option.all_some, beq_iff_eq, hlt] at hlease
    exact of_decide_eq_true hlease.symm
  · rw [hs, Option.all_some, beq_iff_eq, hlt] at hserved
    exact of_decide_eq_true hserved.symm

theorem Kept.unclaimable (h : Kept S H w) {session : SessionId} {owner : InstanceId}
    {subjectHash : String}
    {time now : Instant} (hs : Serves H w
    ⟨time, .call ⟨session, .acquireInit owner⟩ subjectHash now⟩) :
    ¬ acquireInitAllowed w.sys.item session owner now := by
  rintro ⟨-, hstate, -⟩
  obtain ⟨lease, hl, hle⟩ := h.lease
  obtain ⟨hlt, hservedlt⟩ := ordered_call hs.ordered
  have hstamp : now = time := hs.stamped
  rcases hstate with hst | ⟨-, hl' | hl' | ⟨⟨-, hother⟩, hserved⟩⟩
  · rw [h.state] at hst; simp at hst
  · rw [hl] at hl'; simp at hl'
  · -- the lease has not run out
    rw [hl, Option.any_some] at hl'
    have hlive : now < lease := hstamp ▸ Instant.lt_of_lt_of_le hs.beat hle
    exact Instant.not_lt.2 (Instant.le_of_lt (hlt lease hl hl')) hlive
  · -- another instance takes over from an idle holder only
    have hne : owner ≠ H := by
      rintro rfl
      exact hother h.holder
    cases hv : w.sys.item.lastServedAt with
    | none => rw [hv] at hserved; simp at hserved
    | some served =>
      rw [hv, Option.any_some] at hserved
      exact recent_claim hs.recent hne served hv (hservedlt served hv hserved)

/-! ## The starts -/

/-- On a copy that is ready, leased to `S` and not initializing, a start rotates exactly when the
lease has run out and the caller names `S` or is sure of the holder's end. -/
theorem acquireStart_ready_iff {record : SandboxRecord} (leaseOwner rotated : SessionId) (ttl : Nat)
    (confirmedInactive : Bool) (now : Instant) (hst : record.state = .ready)
    (hinit : record.initExpiresAt = none)
    (hown : record.leaseOwner = some S) :
    (∃ updated, acquireStart record leaseOwner ttl confirmedInactive rotated now =
      .rotate updated) ↔
      (∀ lease, record.leaseExpiresAt = some lease → ¬ now < lease) ∧
        (record.leaseOwner = some leaseOwner ∨ confirmedInactive = true) := by
  have hactive : record.initLeaseActive now = false := by
    simp [SandboxRecord.initLeaseActive, hinit]
  have hprogress : record.startInProgress now = false := by
    simp [SandboxRecord.startInProgress, hst]
  unfold acquireStart
  simp only [hactive, hprogress]
  cases hl : record.leaseExpiresAt with
  | none =>
    cases confirmedInactive <;> by_cases hS : S = leaseOwner <;> simp [hown, hst, hS]
  | some lease =>
    by_cases hlt : now < lease
    · simp [hlt]
    · cases confirmedInactive <;> by_cases hS : S = leaseOwner <;> simp [hown, hst, hS, hlt]

theorem Kept.copy (h : Kept S H w) {r : SandboxRecord} (hr : r ∈ w.sys.reads)
    (hv : r.stateVersion = w.sys.item.stateVersion) :
    r.state = .ready ∧ r.initExpiresAt = none ∧ r.leaseOwner = some S := by
  have hcore : r.core = w.sys.item.core := (h.inv.reads r hr).2 hv
  exact ⟨(congrArg Core.state hcore).trans h.state, h.copies r hr hv,
    (congrArg Core.leaseOwner hcore).trans h.leaseOwner⟩

/-- A control request puts a decision on a copy of the current version only if it is an overtaken
start. -/
theorem Kept.decided (h : Kept S H w) (hs : Serves H w e) {record updated : SandboxRecord}
    (hd : e.event.decision = some (record, updated)) (hr : record ∈ w.sys.reads)
    (hv : w.sys.item.stateVersion = record.stateVersion) : Overtaken w.sys e.event := by
  obtain ⟨hst, hinit, hown⟩ := h.copy hr hv.symm
  obtain ⟨time, event⟩ := e
  cases event with
  | call | read | stop | recordWakeSubject => simp [Event.decision] at hd
  | acquireStart r leaseOwner ttl confirmedInactive rotated now =>
    simp only [Event.decision] at hd
    split at hd
    · next u hu =>
      obtain ⟨rfl, rfl⟩ := Prod.mk.inj (Option.some.inj hd)
      obtain ⟨hexpired, howner⟩ :=
        (acquireStart_ready_iff leaseOwner rotated ttl confirmedInactive now hst hinit hown).1
          ⟨_, hu⟩
      refine ⟨hv.symm, fun heq => ?_, hexpired, howner⟩
      -- the current lease is live
      obtain ⟨lease, hl, hle⟩ := h.lease
      refine hexpired lease (heq.trans hl) ?_
      exact Instant.lt_of_lt_of_le (Instant.lt_of_le_of_lt hs.stamped hs.beat) hle
    · simp at hd
    · simp at hd
  | transition pending r now =>
    obtain ⟨u, hu, heq⟩ := Option.map_eq_some_iff.1 hd
    obtain ⟨rfl, -⟩ := Prod.mk.inj heq
    rw [(transition_eq_some hu).2.2.1] at hst
    simp at hst
  | requestDeletion r now =>
    obtain ⟨u, hu, heq⟩ := Option.map_eq_some_iff.1 hd
    obtain ⟨rfl, -⟩ := Prod.mk.inj heq
    rw [(requestDeletion_eq_some hu).1] at hst
    simp at hst

/-! ## One event -/

structure Carried (item item' : Item) : Prop where
  state : item'.state = .ready
  session : item'.runtimeSessionId = item.runtimeSessionId
  holder : item'.holderInstance = item.holderInstance
  initOwner : item'.initOwner = none
  initExpiresAt : item'.initExpiresAt = none
  leaseOwner : item'.leaseOwner = item.leaseOwner

theorem Kept.call (h : Kept S H w) {c : BrokerCall} {subjectHash : String} {time now : Instant}
    {item' : Item}
    (hs : Serves H w ⟨time, .call c subjectHash now⟩) (hw : c.write w.sys.item now = some item') :
    Carried w.sys.item item' ∧ (item'.leaseExpiresAt = w.sys.item.leaseExpiresAt ∧
        beats H w.sys (.call c subjectHash now) = false ∨
      item'.leaseExpiresAt = some (now.addSeconds 90)) := by
  obtain ⟨session, op⟩ := c
  cases op with
  | acquireInit owner => exact absurd (acquireInit_eq_some hw).1 (h.unclaimable hs)
  | heartbeatInit owner progress =>
    have := (heartbeatInit_eq_some hw).1
    rw [h.initOwner] at this; simp at this
  | heartbeatLease holder served =>
    simp only [BrokerCall.write, KiroCrew.heartbeatLease] at hw
    split at hw
    · simp at hw
    · split at hw
      · obtain rfl := Option.some.inj hw
        exact ⟨⟨h.state, rfl, rfl, h.initOwner, h.initExpiresAt, rfl⟩, .inr rfl⟩
      · simp at hw
  | healReady =>
    have := (healReady_eq_some hw).2.1
    rw [h.state] at this; simp at this
  | markReady owner outcome =>
    have := (markReady_eq_some hw).2.1
    rw [h.initOwner] at this; simp at this
  | markError owner d =>
    have halive : (markError w.sys.item session owner d now).isSome = false := hs.alive
    rw [show markError w.sys.item session owner d now = some item' from hw] at halive
    simp at halive
  | checkpointReceipt r commit =>
    obtain ⟨⟨i, k⟩, hc, rfl⟩ := Option.map_eq_some_iff.1 hw
    have halive : (r.final && (checkpointReceipt w.sys.item session r commit now).isSome) = false :=
      hs.alive
    rw [hc] at halive
    have hfinal : r.final = false := by simpa using halive
    obtain ⟨-, -, rfl, -⟩ := checkpointReceipt_eq_some hc
    refine ⟨⟨?_, rfl, rfl, h.initOwner, h.initExpiresAt, rfl⟩, .inl ⟨rfl, rfl⟩⟩
    simp [ReceiptRequest.update, hfinal, h.state]

theorem Kept.of_carried (h : Kept S H w) (hs : Serves H w e) (he : w.sys.step e.event = some s')
    (hc : Carried w.sys.item s'.item)
    (hlease : s'.item.leaseExpiresAt = w.sys.item.leaseExpiresAt ∧ beats H w.sys e.event = false ∨
      s'.item.leaseExpiresAt = some (e.time.addSeconds 90)) :
    Kept S H ⟨s', e.time, if beats H w.sys e.event then e.time else w.lastBeat⟩ where
  inv := h.inv.step he
  state := hc.state
  session := hc.session.trans h.session
  holder := hc.holder.trans h.holder
  initOwner := hc.initOwner
  initExpiresAt := hc.initExpiresAt
  leaseOwner := hc.leaseOwner.trans h.leaseOwner
  lease := by
    rcases hlease with ⟨hl, hb⟩ | hl
    · obtain ⟨lease, hlease, hle⟩ := h.lease
      exact ⟨lease, hl.trans hlease, by rw [hb]; exact hle⟩
    · refine ⟨_, hl, ?_⟩
      dsimp only
      split
      · exact Nat.le_refl _
      · exact Nat.add_le_add_right (Nat.le_trans h.beat hs.clock) _
  beat := by
    dsimp only
    split
    · exact Nat.le_refl _
    · exact Nat.le_trans h.beat hs.clock
  copies := by
    intro r hr hv
    dsimp only at hv
    rcases step_reads he r hr with hr | rfl
    · -- a copy of the version now was a copy of the version before
      have hold := (h.inv.reads r hr).1
      rcases (step_change h.inv.reads he).versioned with hlt | ⟨hsame, -⟩
      · omega
      · exact h.copies r hr (hv.trans hsame)
    · simp [Item.record, hc.initExpiresAt]

/-- One event that does not start over an overtaken copy keeps the holder. -/
theorem Kept.step (h : Kept S H w) (hs : Serves H w e) (ho : ¬ Overtaken w.sys e.event)
    (he : w.step H e = some w') : Kept S H w' := by
  obtain ⟨s', he', hw'⟩ := Option.map_eq_some_iff.1 he
  have hsame : Carried w.sys.item w.sys.item :=
    ⟨h.state, rfl, rfl, h.initOwner, h.initExpiresAt, rfl⟩
  subst hw'
  obtain ⟨time, event⟩ := e
  rcases step_item he' with hi | ⟨c, subjectHash, now, rfl, hw⟩ | ⟨record, updated, hd, hv,
    hi⟩ | ⟨sealed, rfl, hi⟩
  · -- nothing was written
    by_cases hb : beats H w.sys event = true
    · cases event with
      | call c subjectHash now =>
        obtain ⟨item', hw⟩ : ∃ item', c.write w.sys.item now = some item' := by
          obtain ⟨session, op⟩ := c
          cases op <;> simp [beats] at hb
          exact Option.isSome_iff_exists.1 hb.2
        have hitem : s'.item = item' := by
          simp only [System.step, hw] at he'
          rw [← Option.some.inj he', applied_item]
        obtain ⟨hc, hl⟩ := h.call hs hw
        have hstamp : now = time := hs.stamped
        rw [← hitem] at hc hl
        exact h.of_carried hs he' hc (by rw [← hstamp]; exact hl)
      | read | acquireStart | stop | transition | requestDeletion | recordWakeSubject =>
        simp [beats] at hb
    · exact h.of_carried hs he' (by rw [hi]; exact hsame) (.inl ⟨by rw [hi], by simpa using hb⟩)
  · obtain ⟨hc, hl⟩ := h.call hs hw
    have hstamp : now = time := hs.stamped
    exact h.of_carried hs he' hc (by rw [← hstamp]; exact hl)
  · exact absurd (h.decided hs hd (decision_mem hd he') hv) ho
  · refine h.of_carried hs he' ?_ (.inl ⟨by rw [hi], rfl⟩)
    rw [hi]
    exact ⟨h.state, rfl, rfl, h.initOwner, h.initExpiresAt, rfl⟩

/-! ## Runs -/

theorem Kept.of_markReady {outcome subjectHash : String} (hinv : Inv s)
    (hw : (BrokerCall.mk S (.markReady H outcome)).write s.item t₀ ≠ none)
    (he : s.step (.call ⟨S, .markReady H outcome⟩ subjectHash t₀) = some s₁) :
        Kept S H ⟨s₁, t₀, t₀⟩ := by
  obtain ⟨item', hw⟩ := Option.ne_none_iff_exists'.1 hw
  have hinv₁ : Inv s₁ := hinv.step he
  have hreads : ∀ r ∈ s₁.reads, r ∈ s.reads ∨ r = s₁.item.record := step_reads he
  simp only [System.step, hw] at he
  obtain rfl := Option.some.inj he
  simp only [BrokerCall.write, KiroCrew.markReady] at hw
  split at hw
  · next hallowed =>
    obtain rfl := Option.some.inj hw
    refine ⟨hinv₁, rfl, hallowed.1, rfl, rfl, rfl, rfl, ⟨_, rfl, Nat.le_refl _⟩,
      Nat.le_refl _, fun r hr hv => ?_⟩
    rcases hreads r hr with hr | rfl
    · -- a copy read before `markReady` carries an older version
      have hold := (hinv.reads r hr).1
      have hnew : r.stateVersion = s.item.stateVersion + 1 := hv
      omega
    · rfl
  · simp at hw

theorem Kept.rotates (h : Kept S H w) (ho : Overtaken w.sys e.event) (he : w.step H e = some w') :
    w'.sys.item.runtimeSessionId ≠ S := by
  obtain ⟨s', he', rfl⟩ := Option.map_eq_some_iff.1 he
  obtain ⟨time, event⟩ := e
  cases event with
  | call | read | stop | transition | requestDeletion | recordWakeSubject => exact ho.elim
  | acquireStart record leaseOwner ttl confirmedInactive rotated now =>
    obtain ⟨hv, -, hexpired, howner⟩ := ho
    have hguard : record ∈ w.sys.reads ∧ rotated ∉ w.sys.sessions := by
      simp only [System.step] at he'
      split at he'
      · next hg => exact hg
      · simp at he'
    obtain ⟨hst, hinit, hown⟩ := h.copy hguard.1 hv
    obtain ⟨updated, hu⟩ :=
      (acquireStart_ready_iff leaseOwner rotated ttl confirmedInactive now hst hinit hown).2
        ⟨hexpired, howner⟩
    have hd : (Event.acquireStart record leaseOwner ttl confirmedInactive rotated now).decision =
        some (record, updated) := by
      simp only [Event.decision, hu]
    show s'.item.runtimeSessionId ≠ S
    rw [step_put hd hv.symm he', acquireStart_rotate hu]
    intro hsame
    have hknown := h.inv.session
    rw [h.session, ← hsame] at hknown
    exact hguard.2 hknown

/-- From the moment `H` is marked ready, in every run in which its heartbeats are less than 90
seconds apart, it was served within the minute before any competing claim, and no final receipt or
`markError` is applied: as long as no start has been overtaken by a heartbeat, `H` holds the ready
record under its session, no claim is applied, and the next event rotates the session if and only if
it is such a start. -/
theorem holder_kept {outcome subjectHash : String} (hr : Reachable s)
    (hw : (BrokerCall.mk S (.markReady H outcome)).write s.item t₀ ≠ none)
    (he : s.step (.call ⟨S, .markReady H outcome⟩ subjectHash t₀) = some s₁)
    (hrun : Machine.Reaches (Watch.step H) (fun w e => Serves H w e ∧ ¬ Overtaken w.sys e.event)
      ⟨s₁, t₀, t₀⟩ w) :
    (w.sys.item.state = .ready ∧ w.sys.item.runtimeSessionId = S ∧
      w.sys.item.holderInstance = some H) ∧
      ∀ e w', Serves H w e → w.step H e = some w' →
        (∀ B, ¬ Claims B w.sys e.event) ∧
        (w'.sys.item.runtimeSessionId ≠ S ↔ Overtaken w.sys e.event) := by
  have hkept : Kept S H w :=
    hrun.invariant (fun _ _ _ h hC he => h.step hC.1 hC.2 he) (.of_markReady hr.inv hw he)
  refine ⟨⟨hkept.state, hkept.session, hkept.holder⟩, fun e w' hs he =>
    ⟨fun B hB => ?_, ?_, fun ho => hkept.rotates ho he⟩⟩
  · obtain ⟨time, event⟩ := e
    cases event with
    | call c subjectHash now =>
      obtain ⟨session, op⟩ := c
      obtain ⟨hop, hw⟩ := hB
      subst hop
      obtain ⟨item', hw⟩ := Option.ne_none_iff_exists'.1 hw
      exact hkept.unclaimable hs (acquireInit_eq_some hw).1
    | read | acquireStart | stop | transition | requestDeletion | recordWakeSubject => exact hB.elim
  · intro hne
    by_contra ho
    exact hne (hkept.step hs ho he).session

/-! ## A start that is overtaken -/

def readyWatch : Watch := ⟨readiedSystem, ⟨3000000⟩, ⟨3000000⟩⟩

/-- A start reads the record at second 90. -/
def startRead : Timed := ⟨⟨90000000⟩, .read⟩

/-- The heartbeat of instance 10 is applied at second 92. -/
def heartbeat : Timed :=
  ⟨⟨92000000⟩, .call ⟨⟨1⟩, .heartbeatLease (some ⟨10⟩) (some 91)⟩ "sub" ⟨92000000⟩⟩

def readWatch : Watch := (readyWatch.step ⟨10⟩ startRead).get (by decide)

def renewedWatch : Watch := (readWatch.step ⟨10⟩ heartbeat).get (by decide)

theorem serves_startRead : Serves ⟨10⟩ readyWatch startRead :=
  ⟨by decide, trivial, by decide, rfl, rfl, rfl⟩

theorem serves_heartbeat : Serves ⟨10⟩ readWatch heartbeat :=
  ⟨by decide, rfl, by decide, rfl, rfl, by decide⟩

theorem serves_lateStart : Serves ⟨10⟩ renewedWatch ⟨⟨95000000⟩, lateStart⟩ :=
  ⟨by decide, Nat.le_refl _, by decide, rfl, rfl, rfl⟩

/-- The record after the heartbeat is still instance 10's, and a start that was read before it is
the one that can take it away. -/
theorem holder_kept_heartbeat :
    (renewedWatch.sys.item.state = .ready ∧ renewedWatch.sys.item.runtimeSessionId = ⟨1⟩ ∧
      renewedWatch.sys.item.holderInstance = some ⟨10⟩) ∧
      ∀ e w', Serves ⟨10⟩ renewedWatch e → renewedWatch.step ⟨10⟩ e = some w' →
        (∀ B, ¬ Claims B renewedWatch.sys e.event) ∧
          (w'.sys.item.runtimeSessionId ≠ ⟨1⟩ ↔ Overtaken renewedWatch.sys e.event) :=
  holder_kept claimedSystem_reachable (by decide) step_readiedSystem
    ((Machine.Reaches.single ⟨serves_startRead, id⟩ (Option.some_get _).symm).tail
      ⟨serves_heartbeat, id⟩
      (Option.some_get _).symm)

/-- Instance 10 is marked ready at second 3 and heartbeats at second 92; the start that read the
record at second 90 takes its time at second 95 and rotates the session. -/
theorem holder_displaced : ¬ ∀ (s s₁ : System) (S : SessionId) (H : InstanceId) (t₀ : Instant)
    (outcome subjectHash : String) (w w' : Watch) (e : Timed), Reachable s →
    (BrokerCall.mk S (.markReady H outcome)).write s.item t₀ ≠ none →
    s.step (.call ⟨S, .markReady H outcome⟩ subjectHash t₀) = some s₁ →
    Machine.Reaches (Watch.step H) (Serves H) ⟨s₁, t₀, t₀⟩ w → Serves H w e → w.step H e = some w' →
    (∀ B, B ≠ H → ¬ Claims B w.sys e.event) ∧ w'.sys.item.runtimeSessionId = S := by
  intro h
  have hkept :=
    (h claimedSystem readiedSystem ⟨1⟩ ⟨10⟩ ⟨3000000⟩ "success" "sub" renewedWatch _
      ⟨⟨95000000⟩, lateStart⟩
    claimedSystem_reachable (by decide) (Option.some_get _).symm
    ((Machine.Reaches.single serves_startRead (Option.some_get _).symm).tail serves_heartbeat
      (Option.some_get _).symm)
    serves_lateStart (Option.some_get (by decide +kernel)).symm).2
  revert hkept
  decide +kernel

end System

end KiroCrew
