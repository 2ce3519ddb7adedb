import KiroCrew.SystemInv

/-!
# The history of a record

`record_observation` stores one event for each `stateVersion`, from whatever copy a status poll
happened to read. A version has one state, session, checkpoint and deletion state, and the stored
state is the one of the version (`version_identifies`). Its time is that of the write when no
heartbeat came between the write and the read (`dated_of_prompt`): heartbeats set `updatedAt` and
keep the version.
-/

namespace KiroCrew

namespace System

variable {s s₁ s₂ s' : System} {e : Event}

theorem version_run (h : Inv s) (hrun : Machine.Reaches step Machine.Any s s₁) :
    s.item.stateVersion ≤ s₁.item.stateVersion ∧
    (s.item.stateVersion = s₁.item.stateVersion → s₁.item.core = s.item.core) := by
  refine (hrun.invariant (I := fun s₁ => Inv s₁ ∧ s.item.stateVersion ≤ s₁.item.stateVersion ∧
    (s.item.stateVersion = s₁.item.stateVersion → s₁.item.core = s.item.core))
    (fun s₁ e s₂ hs _ he => ⟨hs.1.step he, ?_⟩)
    ⟨h, le_rfl, fun _ => rfl⟩).2
  obtain ⟨hinv, hle, hcore⟩ := hs
  rcases (step_change hinv.reads he).versioned with hlt | ⟨heq, hsame⟩
  · exact ⟨by omega, fun heq => absurd heq (by omega)⟩
  · exact ⟨by omega, fun heq' => hsame.trans (hcore (heq'.trans heq))⟩

end System

/-! ## When a version is written -/

/-- The clock of the writer. -/
def Event.now : Event → Option Instant
  | .call _ _ now | .acquireStart _ _ _ _ _ now | .stop _ _ _ now | .transition _ _
      now | .requestDeletion _ now => some now
  | .read | .recordWakeSubject _ => none

namespace System

variable {s s' : System} {e : Event}

/-- A broker call that is applied. Where the version stays, it is a heartbeat. -/
def applies (s : System) : Event → Bool
  | .call c _ now => (c.write s.item now).isSome
  | _ => false

theorem write_updatedAt {item item' : Item} {c : BrokerCall} {now : Instant}
    (h : c.write item now = some item') : item'.updatedAt = now := by
  obtain ⟨session, op⟩ := c
  cases op with
  | acquireInit owner =>
    simp only [BrokerCall.write, acquireInit] at h
    split at h
    · cases h
      rfl
    · cases h
  | heartbeatInit owner progress =>
    simp only [BrokerCall.write, heartbeatInit] at h
    split at h
    · cases h
      rfl
    · cases h
  | heartbeatLease holder served =>
    simp only [BrokerCall.write, heartbeatLease] at h
    split at h
    · cases h
    · split at h
      · cases h
        rfl
      · cases h
  | healReady =>
    simp only [BrokerCall.write, healReady] at h
    split at h
    · cases h
      rfl
    · cases h
  | markReady owner outcome =>
    simp only [BrokerCall.write, markReady] at h
    split at h
    · cases h
      rfl
    · cases h
  | markError owner d =>
    simp only [BrokerCall.write, markError] at h
    split at h
    · cases h
      rfl
    · cases h
  | checkpointReceipt r commit =>
    obtain ⟨⟨updated, c⟩, hreceipt, rfl⟩ := Option.map_eq_some_iff.1 h
    rw [(checkpointReceipt_eq_some hreceipt).2.2.1]
    rfl

theorem decision_updatedAt {record updated : SandboxRecord}
    (hd : e.decision = some (record, updated)) : e.now = some updated.updatedAt := by
  cases e with
  | call | read | stop | recordWakeSubject => simp [Event.decision] at hd
  | acquireStart r leaseOwner ttl confirmedInactive rotated now =>
    simp only [Event.decision] at hd
    split at hd
    · next u hu =>
      obtain ⟨rfl, rfl⟩ := Prod.mk.inj (Option.some.inj hd)
      rw [acquireStart_rotate hu]
      rfl
    · cases hd
    · cases hd
  | transition pending r now =>
    obtain ⟨u, hu, heq⟩ := Option.map_eq_some_iff.1 hd
    obtain ⟨rfl, rfl⟩ := Prod.mk.inj heq
    rw [(transition_eq_some hu).2.2.2]
    rfl
  | requestDeletion r now =>
    obtain ⟨u, hu, heq⟩ := Option.map_eq_some_iff.1 hd
    obtain ⟨rfl, rfl⟩ := Prod.mk.inj heq
    rw [(requestDeletion_eq_some hu).2]
    rfl

/-- A step keeps the version with its time, is a heartbeat, or writes the next version at its own
time. -/
theorem step_times (hinv : Inv s) (h : s.step e = some s') :
    (s'.item.stateVersion = s.item.stateVersion ∧ s'.item.state = s.item.state ∧
    (s'.item.updatedAt = s.item.updatedAt ∨ s.applies e = true)) ∨
    (s.item.stateVersion < s'.item.stateVersion ∧ e.now = some s'.item.updatedAt) := by
  rcases (step_change hinv.reads h).versioned with hlt | ⟨heq, hcore⟩
  · refine Or.inr ⟨hlt, ?_⟩
    rcases step_item h with hsame | ⟨c, subjectHash, now, rfl, hwrite⟩ | ⟨record, updated, hd, -,
      hitem⟩ | ⟨sealed, rfl, hitem⟩
    · rw [hsame] at hlt
      exact absurd hlt (lt_irrefl _)
    · rw [write_updatedAt hwrite]
      rfl
    · rw [hitem]
      exact decision_updatedAt hd
    · rw [hitem] at hlt
      exact absurd hlt (lt_irrefl _)
  · refine Or.inl ⟨heq, congrArg Core.state hcore, ?_⟩
    rcases step_item h with hsame | ⟨c, subjectHash, now, rfl, hwrite⟩ | ⟨record, updated, hd, hv,
      hitem⟩ | ⟨sealed, rfl, hitem⟩
    · exact Or.inl (congrArg Item.updatedAt hsame)
    · exact Or.inr (by rw [applies, hwrite]; rfl)
    · have hversion := decision_version hd
      rw [hitem] at heq
      have hput : updated.item.stateVersion = updated.stateVersion := rfl
      omega
    · exact Or.inl (by rw [hitem])

end System

/-! ## The stored events -/

structure HistoryEvent where
  stateVersion : Nat
  state : SandboxState
  time : Instant
deriving DecidableEq, Repr

/-- A record with its stored events, and what they are compared with: the write of each version, and
whether a heartbeat has been applied since the last one. -/
structure Archive where
  system : System
  events : Nat → Option HistoryEvent := fun _ => none
  /-- The copies that polls have read, with whether a heartbeat came first. -/
  copies : List (SandboxRecord × Bool) := []
  written : Nat → Option HistoryEvent
  beaten : Bool := false

inductive ArchiveEvent
  | base (e : Event)
  /-- `get_or_create` of a status poll -/
  | poll
  /-- `record_observation` of a copy -/
  | observe (record : SandboxRecord) (late : Bool)
  /-- The table drops an event whose time to live is over. -/
  | expire (stateVersion : Nat)
deriving DecidableEq, Repr

namespace Archive

variable {a a' : Archive} {e : ArchiveEvent}

/-- What `record_observation` puts, if the version has no event. -/
def recordObservation (events : Nat → Option HistoryEvent) (record : SandboxRecord) : Nat →
    Option HistoryEvent :=
  if events record.stateVersion = none then
    Function.update events record.stateVersion
      (some ⟨record.stateVersion, record.state, record.updatedAt⟩)
  else events

/-- The record after a step, with the bookkeeping. -/
def advance (a : Archive) (e : Event) (s' : System) : Archive :=
  if s'.item.stateVersion = a.system.item.stateVersion then
    { a with
      system := s'
      beaten := a.beaten || a.system.applies e }
  else
    { a with
      system := s'
      written := Function.update a.written s'.item.stateVersion
        (e.now.map fun now => ⟨s'.item.stateVersion, s'.item.state, now⟩)
      beaten := false }

def step (a : Archive) : ArchiveEvent → Option Archive
  | .base e => (a.system.step e).map (a.advance e)
  | .poll => some { a with copies := (a.system.item.record, a.beaten) :: a.copies }
  | .observe record late =>
    if (record, late) ∈ a.copies then some { a with events := recordObservation a.events record }
      else none
  | .expire stateVersion => some { a with events := Function.update a.events stateVersion none }

/-- After `get_or_create`. -/
def init (ownerHash sandboxId : String) (session : SessionId) (version : String) (now : Instant) :
    Archive where
  system := System.init ownerHash sandboxId session version now
  written := Function.update (fun _ => none) 0 (some ⟨0, .stopped, now⟩)

def Reachable (a : Archive) : Prop :=
  ∃ ownerHash sandboxId session version now, Machine.Reaches step Machine.Any
    (init ownerHash sandboxId session version now) a

/-- A version without an event gets one from a copy that no heartbeat came before. -/
def Prompt (a : Archive) : ArchiveEvent → Prop
  | .observe record late => a.events record.stateVersion = none → late = false
  | _ => True

instance (a : Archive) : (e : ArchiveEvent) → Decidable (a.Prompt e)
  | .observe record late =>
    inferInstanceAs (Decidable (a.events record.stateVersion = none → late = false))
  | .base _ | .poll | .expire _ => .isTrue trivial

/-- The write of a version, at a time that is the record's unless a heartbeat came after it. -/
def Wrote (a : Archive) (stateVersion : Nat) (state : SandboxState) (updatedAt : Instant)
    (late : Bool) : Prop :=
  ∃ time, a.written stateVersion = some ⟨stateVersion, state, time⟩ ∧
    (late = false → updatedAt = time)

structure Inv (a : Archive) : Prop where
  system : a.system.Inv
  current : a.Wrote a.system.item.stateVersion a.system.item.state a.system.item.updatedAt a.beaten
  copies : ∀ record late, (record, late) ∈ a.copies →
    record.stateVersion ≤ a.system.item.stateVersion ∧
    a.Wrote record.stateVersion record.state record.updatedAt late
  events : ∀ v event, a.events v = some event →
    v ≤ a.system.item.stateVersion ∧ event.stateVersion = v ∧
    ∃ time, a.written v = some ⟨v, event.state, time⟩

theorem Inv.init (ownerHash sandboxId : String) (session : SessionId) (version : String)
    (now : Instant) :
    Inv (init ownerHash sandboxId session version now) where
  system := System.Inv.init ownerHash sandboxId session version now
  current := ⟨now, rfl, fun _ => rfl⟩
  copies := fun _ _ hmem => by cases hmem
  events := fun _ _ hevent => by cases hevent

theorem advance_same {e : Event} {s' : System}
    (h : s'.item.stateVersion = a.system.item.stateVersion) :
    (a.advance e s').written = a.written ∧ (a.advance e s').events = a.events ∧
    (a.advance e s').copies = a.copies ∧
      (a.advance e s').system = s' := by
  unfold advance
  rw [if_pos h]
  exact ⟨rfl, rfl, rfl, rfl⟩

theorem advance_new {e : Event} {s' : System}
    (h : a.system.item.stateVersion < s'.item.stateVersion) :
    (∀ v ≤ a.system.item.stateVersion, (a.advance e s').written v = a.written v) ∧
    (a.advance e s').written s'.item.stateVersion =
      (e.now.map fun now => ⟨s'.item.stateVersion, s'.item.state, now⟩) ∧
      (a.advance e s').events = a.events ∧ (a.advance e s').copies = a.copies ∧
      (a.advance e s').system = s' ∧ (a.advance e s').beaten = false := by
  unfold advance
  rw [if_neg (Nat.ne_of_gt h)]
  refine ⟨fun v hv => Function.update_of_ne (by omega) _ _, Function.update_self _ _ _, rfl,
    rfl, rfl, rfl⟩

theorem Inv.advance {e : Event} {s' : System} (h : Inv a) (he : a.system.step e = some s') :
    Inv (a.advance e s') := by
  rcases System.step_times h.system he with ⟨hversion, hstate, htime⟩ | ⟨hversion, hnow⟩
  · obtain ⟨hwritten, hevents, hcopies, hsystem⟩ := advance_same (a := a) (e := e) hversion
    refine ⟨by rw [hsystem]; exact h.system.step he, ?_, ?_, ?_⟩
    · rw [hsystem, hversion, hstate]
      obtain ⟨time, hwrote, hcurrent⟩ := h.current
      refine ⟨time, by rw [hwritten]; exact hwrote, fun hbeaten => ?_⟩
      rw [Archive.advance, if_pos hversion, Bool.or_eq_false_iff] at hbeaten
      rcases htime with htime | happlies
      · exact htime.trans (hcurrent hbeaten.1)
      · rw [happlies] at hbeaten
        cases hbeaten.2
    · intro record late hmem
      rw [hcopies] at hmem
      rw [hsystem, hversion, Wrote, hwritten]
      exact h.copies record late hmem
    · intro v event hevent
      rw [hevents] at hevent
      rw [hsystem, hversion, hwritten]
      exact h.events v event hevent
  · obtain ⟨hwritten, hnew, hevents, hcopies, hsystem, hbeaten⟩ :=
      advance_new (a := a) (e := e) hversion
    refine ⟨by rw [hsystem]; exact h.system.step he, ?_, ?_, ?_⟩
    · rw [hsystem]
      exact ⟨s'.item.updatedAt, by rw [hnew, hnow]; rfl, fun _ => rfl⟩
    · intro record late hmem
      rw [hcopies] at hmem
      obtain ⟨hle, hwrote⟩ := h.copies record late hmem
      rw [hsystem, Wrote, hwritten _ hle]
      exact ⟨by omega, hwrote⟩
    · intro v event hevent
      rw [hevents] at hevent
      obtain ⟨hle, hstored⟩ := h.events v event hevent
      rw [hsystem, hwritten _ hle]
      exact ⟨by omega, hstored⟩

/-- What an observation stores for a version, and what it leaves. -/
theorem recordObservation_eq {events : Nat → Option HistoryEvent} {record : SandboxRecord} {v : Nat}
    {event : HistoryEvent}
    (h : recordObservation events record v = some event) : events v = some event ∨
      events record.stateVersion = none ∧ v = record.stateVersion ∧
      event = ⟨record.stateVersion, record.state, record.updatedAt⟩ := by
  unfold recordObservation at h
  split at h
  · next hnone =>
    rw [Function.update_apply] at h
    split at h
    · next hv => exact Or.inr ⟨hnone, hv, (Option.some.inj h).symm⟩
    · exact Or.inl h
  · exact Or.inl h

theorem Inv.step (h : Inv a) (he : a.step e = some a') : Inv a' := by
  cases e with
  | base e =>
    obtain ⟨s', hs', rfl⟩ := Option.map_eq_some_iff.1 he
    exact h.advance hs'
  | poll =>
    obtain rfl := Option.some.inj he
    refine ⟨h.system, h.current, fun record late hmem => ?_, h.events⟩
    rcases List.mem_cons.1 hmem with heq | hmem
    · obtain ⟨rfl, rfl⟩ := Prod.mk.inj heq
      exact ⟨le_rfl, h.current⟩
    · exact h.copies record late hmem
  | observe record late =>
    simp only [Archive.step] at he
    split at he
    · next hmem =>
      obtain rfl := Option.some.inj he
      refine ⟨h.system, h.current, h.copies, fun v event hevent => ?_⟩
      rcases recordObservation_eq hevent with hold | ⟨-, rfl, rfl⟩
      · exact h.events v event hold
      · obtain ⟨hle, time, hwrote, -⟩ := h.copies record late hmem
        exact ⟨hle, rfl, time, hwrote⟩
    · cases he
  | expire stateVersion =>
    obtain rfl := Option.some.inj he
    refine ⟨h.system, h.current, h.copies, fun v event hevent => ?_⟩
    change Function.update a.events stateVersion none v = some event at hevent
    rw [Function.update_apply] at hevent
    split at hevent
    · cases hevent
    · exact h.events v event hevent

theorem Reachable.inv (h : Reachable a) : Inv a := by
  obtain ⟨ownerHash, sandboxId, session, version, now, hr⟩ := h
  exact hr.invariant (fun _ _ _ hs _ he => hs.step he)
    (.init ownerHash sandboxId session version now)

/-- What was written stays, and the record runs as it does alone. -/
structure Later (a a' : Archive) : Prop where
  system : Machine.Reaches System.step Machine.Any a.system a'.system
  written : ∀ v ≤ a.system.item.stateVersion, a'.written v = a.written v

theorem later_step (hinv : Inv a) (he : a.step e = some a') : Later a a' := by
  cases e with
  | base e =>
    obtain ⟨s', hs', rfl⟩ := Option.map_eq_some_iff.1 he
    rcases System.step_times hinv.system hs' with ⟨hversion, -⟩ | ⟨hversion, -⟩
    · obtain ⟨hwritten, -, -, hsystem⟩ := advance_same (a := a) (e := e) hversion
      refine ⟨?_, fun v _ => by rw [hwritten]⟩
      rw [hsystem]
      exact .single trivial hs'
    · obtain ⟨hwritten, -, -, -, hsystem, -⟩ := advance_new (a := a) (e := e) hversion
      refine ⟨?_, hwritten⟩
      rw [hsystem]
      exact .single trivial hs'
  | poll | expire stateVersion =>
    obtain rfl := Option.some.inj he
    exact ⟨.refl, fun _ _ => rfl⟩
  | observe record late =>
    simp only [Archive.step] at he
    split at he
    · obtain rfl := Option.some.inj he
      exact ⟨.refl, fun _ _ => rfl⟩
    · cases he

theorem later_run (hinv : Inv a) (hrun : Machine.Reaches step Machine.Any a a') : Later a a' ∧
    Inv a' := by
  refine hrun.invariant (I := fun a' => Later a a' ∧ Inv a') (fun a₁ e a₂ ⟨hlater, hinv₁⟩ _ he =>
    ?_) ⟨⟨.refl, fun _ _ => rfl⟩, hinv⟩
  have hnext := later_step hinv₁ he
  refine ⟨⟨hlater.system.trans hnext.system, fun v hv => ?_⟩, hinv₁.step he⟩
  rw [hnext.written v (hv.trans (System.version_run hinv.system hlater.system).1),
    hlater.written v hv]

/-- Versions only grow; two snapshots of one version agree on what it stands for, and an event
stored for the version of a snapshot shows its state. -/
theorem version_identifies {a₁ a₂ : Archive} (h : Reachable a)
    (hrun : Machine.Reaches step Machine.Any a a₁)
    (hrun' : Machine.Reaches step Machine.Any a₁ a₂) :
    a₁.system.item.stateVersion ≤ a₂.system.item.stateVersion ∧
    (a₁.system.item.stateVersion = a₂.system.item.stateVersion →
      a₁.system.item.state = a₂.system.item.state ∧ a₁.system.item.runtimeSessionId =
      a₂.system.item.runtimeSessionId ∧
        a₁.system.item.lastCheckpointGeneration = a₂.system.item.lastCheckpointGeneration ∧
        a₁.system.item.deletionState = a₂.system.item.deletionState) ∧
    (∀ event, a₂.events a₁.system.item.stateVersion = some event →
      event.state = a₁.system.item.state) ∧
    ∀ event, a₁.events a₂.system.item.stateVersion = some event →
        event.state = a₂.system.item.state := by
  have hinv₁ := (later_run h.inv hrun).2
  obtain ⟨hlater, hinv₂⟩ := later_run hinv₁ hrun'
  obtain ⟨hle, hcore⟩ := System.version_run hinv₁.system hlater.system
  obtain ⟨time, hcurrent, -⟩ := hinv₁.current
  have hshown : ∀ event : HistoryEvent,
    (∃ time, a₂.written a₁.system.item.stateVersion =
    some ⟨a₁.system.item.stateVersion, event.state, time⟩) →
      event.state = a₁.system.item.state := by
    rintro event ⟨time', hwrote⟩
    rw [hlater.written _ le_rfl, hcurrent] at hwrote
    exact (congrArg HistoryEvent.state (Option.some.inj hwrote)).symm
  refine ⟨hle, fun heq => ?_, fun event hevent => ?_, fun event hevent => ?_⟩
  · have hcore := hcore heq
    exact ⟨(congrArg Core.state hcore).symm, (congrArg Core.runtimeSessionId hcore).symm,
      (congrArg Core.lastCheckpointGeneration hcore).symm, (congrArg Core.deletionState hcore).symm⟩
  · exact hshown event (hinv₂.events _ event hevent).2.2
  · -- an event of a version that is still current
    obtain ⟨hle', -, time', hwrote⟩ := hinv₁.events _ event hevent
    have heq : a₁.system.item.stateVersion = a₂.system.item.stateVersion := by omega
    rw [← heq] at hwrote
    have hstate : a₂.system.item.state = a₁.system.item.state := congrArg Core.state (hcore heq)
    rw [hstate]
    exact hshown event ⟨time', by rw [hlater.written _ le_rfl]; exact hwrote⟩

/-- Each stored event is the write of its version. -/
def Dated (a : Archive) : Prop := ∀ v event, a.events v = some event → a.written v = some event

theorem Dated.step (h : Dated a) (hinv : Inv a) (hprompt : a.Prompt e) (he : a.step e = some a') :
    Dated a' := by
  cases e with
  | base e =>
    obtain ⟨s', hs', rfl⟩ := Option.map_eq_some_iff.1 he
    intro v event hevent
    rcases System.step_times hinv.system hs' with ⟨hversion, -⟩ | ⟨hversion, -⟩
    · obtain ⟨hwritten, hevents, -⟩ := advance_same (a := a) (e := e) hversion
      rw [hevents] at hevent
      rw [hwritten]
      exact h v event hevent
    · obtain ⟨hwritten, -, hevents, -⟩ := advance_new (a := a) (e := e) hversion
      rw [hevents] at hevent
      rw [hwritten _ (hinv.events v event hevent).1]
      exact h v event hevent
  | poll =>
    obtain rfl := Option.some.inj he
    exact h
  | observe record late =>
    simp only [Archive.step] at he
    split at he
    · next hmem =>
      obtain rfl := Option.some.inj he
      intro v event hevent
      rcases recordObservation_eq hevent with hold | ⟨hnone, rfl, rfl⟩
      · exact h v event hold
      · obtain ⟨-, time, hwrote, htime⟩ := hinv.copies record late hmem
        rw [htime (hprompt hnone)]
        exact hwrote
    · cases he
  | expire stateVersion =>
    obtain rfl := Option.some.inj he
    intro v event hevent
    change Function.update a.events stateVersion none v = some event at hevent
    rw [Function.update_apply] at hevent
    split at hevent
    · cases hevent
    · exact h v event hevent

/-- When only copies without a heartbeat before them are stored, every event carries the time its
version was written. -/
theorem dated_of_prompt {ownerHash sandboxId version : String} {session : SessionId} {now : Instant}
    (h : Machine.Reaches step Prompt (init ownerHash sandboxId session version now) a) : Dated a :=
  (h.invariant (I := fun a => Dated a ∧ Inv a)
    (fun _ _ _ hs hprompt he => ⟨hs.1.step hs.2 hprompt he, hs.2.step he⟩)
    ⟨fun _ _ hevent => (by cases hevent), Inv.init ownerHash sandboxId session version now⟩).1

/-- A start, a claim two seconds after the epoch, and a heartbeat half a minute later. -/
def started : List ArchiveEvent :=
  let record := (newRecord "owner" "sbx" ⟨1⟩ "0.2.0" ⟨0⟩).item.record
  [.base .read, .base (.acquireStart record ⟨1⟩ 90 false ⟨2⟩ ⟨1000000⟩),
    .base (.call ⟨⟨2⟩, .acquireInit ⟨7⟩⟩ "sub" ⟨2000000⟩)]

def heartbeat : ArchiveEvent := .base (.call ⟨⟨2⟩, .heartbeatInit ⟨7⟩ none⟩ "sub" ⟨32000000⟩)

def initial : Archive := init "owner" "sbx" ⟨1⟩ "0.2.0" ⟨0⟩

def claimed : Archive := (Machine.runAlong step Prompt initial started).get (by decide)

theorem version_identifies_claimed : initial.system.item.stateVersion ≤
    claimed.system.item.stateVersion :=
  (version_identifies ⟨"owner", "sbx", ⟨1⟩, "0.2.0", ⟨0⟩, .refl⟩ .refl
    (.of_runAlong (Machine.runAlong_any
      (Option.some_get (by decide : (Machine.runAlong step Prompt initial
                             started).isSome)).symm))).1

/-- A poll right after the claim. -/
theorem dated_of_prompt_claimed : Dated ((Machine.runAlong step Prompt initial
    (started ++ [.poll, .observe claimed.system.item.record false])).get (by decide)) :=
  dated_of_prompt (.of_isSome _)

/-- The first poll comes after the heartbeat. -/
def heartbeaten : Archive :=
  (Machine.runAlong step Machine.Any initial (started ++ [heartbeat, .poll, .observe
    { claimed.system.item.record with
      updatedAt := ⟨32000000⟩
      initExpiresAt := some (.ofEpoch 122) } true])).get (by decide)

theorem heartbeat_dates_event : ¬ ∀ a : Archive, Reachable a → Dated a := by
  intro h
  have hdated := h heartbeaten ⟨"owner", "sbx", ⟨1⟩, "0.2.0", ⟨0⟩, .of_isSome _⟩ 2
    ⟨2, .restoring, ⟨32000000⟩⟩ (by decide)
  revert hdated
  decide

end Archive

end KiroCrew
