import KiroCrew.Containers

/-!
# What one event of the world can do

`Change` lists the effects of the events of `World`: which container moves to which phase, which
object is put, which call is sent. `step_change` is the one place where `World.step` is unfolded.
From it follow the facts every run keeps (`Inv`): the record's pointer and every accepted receipt
name a committed generation, and a container that still owns the initialization it restored under
has a base that covers the pointer.
-/

namespace KiroCrew

namespace Phase

/-- A working copy is installed: restored, serving or checkpointing. -/
def based : Phase → Bool
  | .idle | .read _ | .claimed _ | .exited => false
  | .restored | .serving | .numbered _ | .uploaded _ _ | .checked _ _ | .committed _ _ => true

/-- The generation of the running checkpoint, until its commit is put. -/
def pending : Phase → Option Nat
  | .numbered g | .uploaded g _ | .checked g _ => some g
  | _ => none

/-- Marked ready: serving or checkpointing. -/
def ready : Phase → Bool
  | .serving | .numbered _ | .uploaded _ _ | .checked _ _ | .committed _ _ => true
  | .idle | .read _ | .claimed _ | .restored | .exited => false

theorem based_of_ready {p : Phase} (h : p.ready = true) : p.based = true := by
  cases p <;> simp_all [Phase.ready, Phase.based]

/-- Where a container is when an attempt is over: not initialized, gone, or serving if it was
ready. -/
def Over (old new : Phase) : Prop :=
  new = .idle ∧ old.ready = false ∧ old ≠ .exited ∨ new = .exited ∨ new = .serving ∧
    old.ready = true

end Phase

namespace World

variable {w w' : World} {e : Event} {A B : InstanceId}

@[simp] theorem set_containers (w : World) (A : InstanceId) (c : Container) (B : InstanceId) :
    (w.set A c).containers B = if B = A then c else w.containers B := by
  simp [set, Function.update_apply]

@[simp] theorem set_sys (w : World) (A : InstanceId) (c : Container) : (w.set A c).sys = w.sys :=
  rfl
@[simp] theorem set_objects (w : World) (A : InstanceId) (c : Container) :
    (w.set A c).objects = w.objects := rfl
@[simp] theorem set_parent (w : World) (A : InstanceId) (c : Container) :
    (w.set A c).parent = w.parent := rfl
@[simp] theorem set_accepted (w : World) (A : InstanceId) (c : Container) :
    (w.set A c).accepted = w.accepted := rfl

theorem send_frame (w : World) (c : BrokerCall) (now : Instant) :
    (w.send c now).objects = w.objects ∧ (w.send c now).containers = w.containers ∧
      (w.send c now).parent = w.parent ∧ (w.send c now).accepted = w.accepted := by
  unfold send; split <;> exact ⟨rfl, rfl, rfl, rfl⟩

@[simp] theorem send_objects (w : World) (c : BrokerCall) (now : Instant) :
    (w.send c now).objects = w.objects :=
  (send_frame w c now).1
@[simp] theorem send_containers (w : World) (c : BrokerCall) (now : Instant) :
    (w.send c now).containers = w.containers := (send_frame w c now).2.1
@[simp] theorem send_parent (w : World) (c : BrokerCall) (now : Instant) :
    (w.send c now).parent = w.parent :=
  (send_frame w c now).2.2.1
@[simp] theorem send_accepted (w : World) (c : BrokerCall) (now : Instant) :
    (w.send c now).accepted = w.accepted :=
  (send_frame w c now).2.2.2

theorem send_step (w : World) (c : BrokerCall) (now : Instant) :
    w.sys.step (.call c "" now) = some (w.send c now).sys := by
  simp only [System.step, send]
  cases c.write w.sys.item now <;> rfl

theorem send_of_not_applies {c : BrokerCall} {now : Instant} (h : w.applies c now = false) :
    w.send c now = w := by
  have hw : c.write w.sys.item now = none := by simpa [applies] using h
  simp [send, hw]

theorem send_write {c : BrokerCall} {now : Instant} (h : w.applies c now = true) :
    c.write w.sys.item now = some (w.send c now).sys.item := by
  obtain ⟨item, hw⟩ := Option.isSome_iff_exists.1 h
  simp [send, hw, System.applied_item]

/-- The effect of an event. -/
inductive Change (w : World) : Event → World → Prop
  | other {e : KiroCrew.Event} {sys : System} (hplain : plain e = true)
      (he : w.sys.step e = some sys) :
      Change w (.other e) { w with sys := sys }
  | read {A : InstanceId} {session : SessionId} (hphase : (w.containers A).phase = .idle) :
      Change w (.readRecord A session) (w.set A { w.containers A with
        session := session, phase := .read w.sys.item.lastCheckpointGeneration })
  | acquire {A : InstanceId} {now : Instant} {answered : Bool} {expected : Option Nat}
      {phase : Phase}
      (hold : (w.containers A).phase = .read expected) (hphase : phase.based = false)
        (hclaimed : phase = .idle ∨ w.applies (w.claimCall A) now = true) :
      Change w (.acquire A now answered) ((w.send (w.claimCall A) now).goto A phase)
  | restored {A : InstanceId} {fallback : Bool} {expected : Option Nat}
      (hphase : (w.containers A).phase = .claimed expected) :
      Change w (.restore A fallback) (w.set A { w.containers A with
        phase := .restored, base := w.objects.newest.getD 0,
        head := w.installed fallback, lost := false })
  | markReady {A : InstanceId} {outcome : String} {now : Instant} {answered : Bool} {phase : Phase}
      (hold : (w.containers A).phase = .restored)
      (hphase : phase = .idle ∨ phase = .serving ∧ w.applies (w.readyCall A outcome) now = true) :
      Change w (.markReady A outcome now answered)
        ((w.send (w.readyCall A outcome) now).goto A phase)
  | number {A : InstanceId} (hphase : (w.containers A).phase = .serving) :
      Change w (.number A) (w.goto A (.numbered w.objects.nextGeneration))
  | uploaded {A : InstanceId} {g : Nat} {digest : Digest} {objects : Objects Unit}
      (hphase : (w.containers A).phase = .numbered g)
        (hput : w.objects.putManifest g ⟨digest, ()⟩ = some objects) :
      Change w (.putManifest A digest) ({ w with objects := objects }.goto A (.uploaded g digest))
  | checked {A : InstanceId} {g : Nat} {digest : Digest}
      (hphase : (w.containers A).phase = .uploaded g digest)
      (hready : w.objects.commitReady g digest = true) :
        Change w (.check A) (w.goto A (.checked g digest))
  | committed {A : InstanceId} {g : Nat} {digest : Digest} {committedAt : Instant}
      {objects : Objects Unit}
      (hphase : (w.containers A).phase = .checked g digest)
      (hput : w.objects.putCommit ⟨g, digest, committedAt⟩ = some objects) :
      Change w (.putCommit A committedAt)
        ({ w with objects := objects,
                  parent := Function.update w.parent g (w.containers A).head }.set A
          { w.containers A with phase := .committed g digest, head := some g })
  | accepted {A : InstanceId} {g : Nat} {digest : Digest} {final : Bool} {hints : ScheduleHints}
      {now : Instant}
      {answered : Bool} (hphase : (w.containers A).phase = .committed g digest)
      (happlies : w.applies (w.receiptCall A g digest final hints) now = true) :
      Change w (.receipt A final hints now answered)
        ({ w.send (w.receiptCall A g digest final hints) now with
           accepted := g :: w.accepted }.set A
          { w.containers A with
            phase := .serving
            base := if answered then g else (w.containers A).base
            lost := (w.containers A).lost || !answered })
  | ended {e : Event} {A : InstanceId} {phase : Phase}
      (hphase : Phase.Over (w.containers A).phase phase) :
      Change w e (w.goto A phase)
  | same {e : Event} : Change w e w

theorem step_change (h : w.step e = some w') : Change w e w' := by
  cases e with
  | other e =>
    simp only [step] at h
    split at h
    · next hp =>
      obtain ⟨sys, he, rfl⟩ := Option.map_eq_some_iff.1 h
      exact .other hp he
    · simp at h
  | readRecord A session =>
    simp only [step] at h
    split at h
    · next hphase =>
      split at h <;> obtain rfl := Option.some.inj h
      · exact .read hphase
      · exact .same
    · simp at h
  | acquire A now answered =>
    simp only [step] at h
    split at h
    · next expected hold =>
      obtain rfl := Option.some.inj h
      refine .acquire hold ?_ ?_
      · split <;> rfl
      · split
        · next ha => exact .inr (by simp only [Bool.and_eq_true] at ha; exact ha.1)
        · exact .inl rfl
    · simp at h
  | restore A fallback =>
    simp only [step] at h
    split at h
    · next expected hphase =>
      obtain rfl := Option.some.inj h
      have hover : Phase.Over (w.containers A).phase .idle := by
        rw [hphase]; exact .inl ⟨rfl, rfl, by simp⟩
      unfold restored
      split
      · next hn =>
        split
        · next hg =>
          have hc : Change w (.restore A fallback) _ := .restored hphase
          simpa [hn, installed, hg.2] using hc
        · exact .ended hover
      · next newest hn =>
        split
        · exact .ended hover
        · split
          · exact .ended hover
          · next g hg =>
            have hc : Change w (.restore A fallback) _ := .restored hphase
            simpa [hn, hg] using hc
    · simp at h
  | markReady A outcome now answered =>
    simp only [step] at h
    split at h
    · next hphase =>
      obtain rfl := Option.some.inj h
      refine .markReady hphase ?_
      split
      · next ha => exact .inr ⟨rfl, by simp only [Bool.and_eq_true] at ha; exact ha.1⟩
      · exact .inl rfl
    · simp at h
  | number A =>
    simp only [step] at h
    split at h
    · next hphase => obtain rfl := Option.some.inj h; exact .number hphase
    · simp at h
  | putManifest A digest =>
    simp only [step] at h
    split at h
    · next g hphase =>
      split at h <;> obtain rfl := Option.some.inj h
      · exact .ended (by rw [hphase]; exact .inr (.inr ⟨rfl, rfl⟩))
      · next hput => exact .uploaded hphase hput
    · simp at h
  | check A =>
    simp only [step] at h
    split at h
    · next g digest hphase =>
      obtain rfl := Option.some.inj h
      split
      · next hready => exact .checked hphase hready
      · exact .ended (by rw [hphase]; exact .inr (.inr ⟨rfl, rfl⟩))
    · simp at h
  | putCommit A committedAt =>
    simp only [step] at h
    split at h
    · next g digest hphase =>
      split at h <;> obtain rfl := Option.some.inj h
      · exact .ended (by rw [hphase]; exact .inr (.inr ⟨rfl, rfl⟩))
      · next hput => exact .committed hphase hput
    · simp at h
  | receipt A final hints now answered =>
    simp only [step] at h
    split at h
    · next g digest hphase =>
      split at h <;> obtain rfl := Option.some.inj h
      · next ha => exact .accepted hphase ha
      · exact .ended (by rw [hphase]; exact .inr (.inr ⟨rfl, rfl⟩))
    · simp at h
  | fail A =>
    obtain rfl := Option.some.inj h
    refine .ended ?_
    cases (w.containers A).phase <;> simp [Phase.afterFailure, Phase.Over, Phase.ready]
  | crash A =>
    obtain rfl := Option.some.inj h
    exact .ended (.inr (.inl rfl))

/-- A finished restore has installed the generation `installed` chooses. -/
theorem installed_of_step {fallback : Bool} (h : w.step (.restore A fallback) = some w')
    (hdone : (w'.containers A).phase = .restored) :
    (w'.containers A).head = w.installed fallback := by
  simp only [step] at h
  split at h
  · next expected hphase =>
    obtain rfl := Option.some.inj h
    have hidle : ((w.goto A .idle).containers A).phase ≠ .restored := by simp [goto]
    unfold restored at hdone ⊢
    split at hdone
    · next hn =>
      split at hdone
      · next hg => simp [hg, hn, installed]
      · exact absurd hdone hidle
    · next newest hn =>
      split at hdone
      · exact absurd hdone hidle
      · next hexp =>
        split at hdone
        · exact absurd hdone hidle
        · next g hg => simp [hexp, hg]
  · simp at h

/-! ## The record inside the world -/

theorem Change.sys (h : Change w e w') : w'.sys = w.sys ∨ ∃ e', w.sys.step e' = some w'.sys := by
  cases h with
  | other _ he => exact .inr ⟨_, he⟩
  | acquire | markReady | accepted => exact .inr ⟨_, send_step w _ _⟩
  | read | restored | number | uploaded | checked | committed | ended | same => exact .inl rfl

theorem Reachable.sys (h : w.Reachable) : w.sys.Reachable := by
  obtain ⟨ownerHash, sandboxId, session, version, now, hr⟩ := h
  refine hr.invariant (I := fun w => w.sys.Reachable) (fun w e w' hs _ he => ?_)
    ⟨ownerHash, sandboxId, session, version, now, .refl⟩
  rcases (step_change he).sys with heq | ⟨e', he'⟩
  · rw [heq]; exact hs
  · exact hs.step he'

theorem not_claims_of_plain {s : System} {e : KiroCrew.Event} (h : plain e = true)
    (A : InstanceId) :
    ¬ System.Claims A s e := by
  intro hc
  cases e with
  | call c subjectHash now =>
    obtain ⟨session, op⟩ := c
    obtain ⟨rfl, -⟩ := hc
    simp [plain] at h
  | read | acquireStart | stop | transition | requestDeletion | recordWakeSubject => exact hc

theorem plain_pointer {s s' : System} {e : KiroCrew.Event} (hinv : s.Inv) (h : plain e = true)
    (he : s.step e = some s') : s'.item.lastCheckpointGeneration =
    s.item.lastCheckpointGeneration := by
  rcases System.step_pointer hinv.reads he with hp | ⟨c, subjectHash, now, r, commit, rfl, hop, -⟩
  · exact hp
  · obtain ⟨session, op⟩ := c
    subst hop
    simp [plain] at h

theorem plain_holder {s s' : System} {e : KiroCrew.Event} (hinv : s.Inv) (h : plain e = true)
    (he : s.step e = some s') : s'.item.holderInstance = s.item.holderInstance := by
  rcases System.step_holder hinv he with hh | ⟨A, hc, -⟩
  · exact hh
  · exact absurd hc (not_claims_of_plain h A)

theorem send_pointer (hinv : w.sys.Inv) {c : BrokerCall} {now : Instant}
    (hop : ∀ r commit, c.op ≠ .checkpointReceipt r commit) :
    (w.send c now).sys.item.lastCheckpointGeneration = w.sys.item.lastCheckpointGeneration := by
  rcases System.step_pointer hinv.reads (send_step w c now) with hp | ⟨c', _, now', r, commit,
    he, hop', -⟩
  · exact hp
  · obtain ⟨rfl, -⟩ := KiroCrew.Event.call.inj he
    exact absurd hop' (hop r commit)

theorem send_holder (hinv : w.sys.Inv) {c : BrokerCall} {now : Instant}
    (hop : ∀ B, c.op ≠ .acquireInit B) :
    (w.send c now).sys.item.holderInstance = w.sys.item.holderInstance := by
  rcases System.step_holder hinv (send_step w c now) with hh | ⟨A, hc, -⟩
  · exact hh
  · exact absurd hc.1 (hop A)

theorem claim_holder {now : Instant} (h : w.applies (w.claimCall A) now = true) :
    (w.send (w.claimCall A) now).sys.item.holderInstance = some A :=
  (System.core_eq (acquireInit_eq_some (send_write h)).2.1).2.2.2

/-- An accepted receipt: request and commit object are well formed, the condition held. -/
theorem receipt_of_applies {g : Nat} {digest : Digest} {final : Bool} {hints : ScheduleHints}
    {now : Instant}
    (h : w.applies (w.receiptCall A g digest final hints) now = true) :
    (w.receiptRequest A g digest final hints).valid (w.objects.commit? g) now = true ∧
      receiptAllowed w.sys.item (w.containers A).session (w.receiptRequest A g digest final hints) ∧
      (w.send (w.receiptCall A g digest final hints) now).sys.item.lastCheckpointGeneration =
          some g := by
  obtain ⟨⟨item, c⟩, hc, hitem⟩ := Option.map_eq_some_iff.1 (send_write h)
  obtain ⟨hvalid, hallowed, hupdate, -⟩ := checkpointReceipt_eq_some hc
  refine ⟨hvalid, hallowed, ?_⟩
  rw [← hitem]
  simp only [hupdate]
  rfl

theorem commit_of_valid {r : ReceiptRequest} {now : Instant} {g : Nat}
    (h : r.valid (w.objects.commit? g) now = true) : ∃ c ∈ w.objects.commits, c.generation = g := by
  simp only [ReceiptRequest.valid, Bool.and_eq_true] at h
  cases hc : w.objects.commit? g with
  | none => simp [hc] at h
  | some c => exact ⟨c, Objects.commit?_eq_some hc⟩

/-- What holds of every reachable world. -/
structure Inv (w : World) : Prop where
  sys : w.sys.Inv
  pointer : ∀ p, w.sys.item.lastCheckpointGeneration = some p → ∃ c ∈ w.objects.commits,
    c.generation = p
  accepted : ∀ a ∈ w.accepted, ∃ c ∈ w.objects.commits, c.generation = a
  lost : ∀ A, (w.containers A).phase = .restored → (w.containers A).lost = false
  /-- While `A` owns the initialization it restored under, the pointer has not passed its base. -/
  base : ∀ A, (w.containers A).phase = .restored → w.sys.item.initOwner = some A →
    ∀ p, w.sys.item.lastCheckpointGeneration = some p → p ≤ (w.containers A).base

theorem Inv.init (ownerHash sandboxId : String) (session : SessionId) (version : String)
    (now : Instant) :
    Inv (World.init ownerHash sandboxId session version now) where
  sys := System.Inv.init ownerHash sandboxId session version now
  pointer := by intro p hp; simp [World.init, System.init, newRecord, SandboxRecord.item] at hp
  accepted := by intro a ha; simp [World.init] at ha
  lost := by intro A hA; simp [World.init] at hA
  base := by intro A hA; simp [World.init] at hA

theorem Change.commits_mono (h : Change w e w') : ∀ c ∈ w.objects.commits,
    c ∈ w'.objects.commits := by
  intro c hc
  cases h with
  | other | read | restored | number | checked | ended | same => exact hc
  | acquire | markReady => simpa [goto] using hc
  | accepted => simpa using hc
  | uploaded _ hput =>
    obtain ⟨-, rfl⟩ := Objects.putManifest_eq_some hput
    exact hc
  | committed _ hput =>
    obtain ⟨-, rfl⟩ := Objects.putCommit_eq_some hput
    exact List.mem_cons_of_mem _ hc

/-- A container that is in phase `restored` after an event was so before, or has just restored. -/
theorem Change.of_restored (h : Change w e w') (hr : (w'.containers A).phase = .restored) :
    w'.containers A = w.containers A ∨
      w'.sys = w.sys ∧ (w'.containers A).lost = false ∧
      (w'.containers A).base = w.objects.newest.getD 0 := by
  cases h with
  | other | same => exact .inl rfl
  | @restored B =>
    by_cases hAB : A = B
    · subst hAB
      exact .inr (by simp)
    · exact .inl (by simp [hAB])
  | @read B | @number B | @uploaded B | @checked B | @committed B | @accepted B =>
    by_cases hAB : A = B
    · subst hAB
      simp [goto] at hr
    · exact .inl (by simp [goto, hAB])
  | @acquire B _ _ _ phase _ hphase =>
    by_cases hAB : A = B
    · subst hAB
      rw [show phase = .restored by simpa [goto] using hr] at hphase
      simp [Phase.based] at hphase
    · exact .inl (by simp [goto, hAB])
  | @markReady B _ _ _ _ _ hphase =>
    by_cases hAB : A = B
    · subst hAB
      rcases hphase with rfl | ⟨rfl, -⟩ <;> simp [goto] at hr
    · exact .inl (by simp [goto, hAB])
  | @ended _ B _ hphase =>
    by_cases hAB : A = B
    · subst hAB
      rcases hphase with ⟨rfl, -⟩ | rfl | ⟨rfl, -⟩ <;> simp [goto] at hr
    · exact .inl (by simp [goto, hAB])

/-- The pointer moves only with an accepted receipt of a committed generation. -/
theorem Change.pointer (hinv : w.sys.Inv) (h : Change w e w') :
    w'.sys.item.lastCheckpointGeneration = w.sys.item.lastCheckpointGeneration ∨
      w.sys.item.initOwner = none ∧ ∃ c ∈ w'.objects.commits,
        w'.sys.item.lastCheckpointGeneration = some c.generation := by
  cases h with
  | other hplain hs => exact .inl (plain_pointer hinv hplain hs)
  | read | restored | number | uploaded | checked | committed | ended | same => exact .inl rfl
  | acquire => exact .inl (send_pointer hinv (by simp [claimCall]))
  | markReady => exact .inl (send_pointer hinv (by simp [readyCall]))
  | accepted hphase happlies =>
    obtain ⟨hvalid, hallowed, hp⟩ := receipt_of_applies happlies
    obtain ⟨c, hc, rfl⟩ := commit_of_valid hvalid
    refine .inr ⟨?_, c, by simpa using hc, by simpa using hp⟩
    -- a record under initialization takes no receipt
    cases ho : w.sys.item.initOwner with
    | none => rfl
    | some B =>
      have hst := (hinv.item.owner B ho).2
      rcases hallowed.live with h | h | h | h <;> simp [hst] at h

/-- A container comes to own the initialization by its own claim only. -/
theorem Change.owner (hinv : w.sys.Inv) (h : Change w e w') (ho : w'.sys.item.initOwner = some A) :
    w.sys.item.initOwner = some A ∨ ∃ now answered, e = .acquire A now answered := by
  have hown : ∀ {e' : KiroCrew.Event} {s' : System}, w.sys.step e' = some s' →
    ¬ System.Claims A w.sys e' →
      s'.item.initOwner = some A → w.sys.item.initOwner = some A := by
    intro e' s' he' hc ho
    by_contra hne
    exact System.not_owner_step hinv hne hc he' ho
  cases h with
  | other hplain hs => exact .inl (hown hs (not_claims_of_plain hplain A) ho)
  | read | restored | number | uploaded | checked | committed | ended | same => exact .inl ho
  | @acquire B now answered =>
    by_cases hAB : B = A
    · exact .inr ⟨now, answered, by rw [hAB]⟩
    · refine .inl (hown (send_step w (w.claimCall B) now) (fun hc => hAB ?_)
        (by simpa [goto] using ho))
      simpa [claimCall] using hc.1
  | @markReady B outcome now =>
    refine .inl (hown (send_step w (w.readyCall B outcome) now) (fun hc => ?_)
      (by simpa [goto] using ho))
    simpa [readyCall] using hc.1
  | @accepted B g digest final hints now =>
    refine .inl (hown (send_step w (w.receiptCall B g digest final hints) now) (fun hc => ?_) ho)
    simpa [receiptCall] using hc.1

/-- Every accepted receipt is of a committed generation. -/
theorem Change.accepted_commit (h : Change w e w') {a : Nat} (ha : a ∈ w'.accepted) :
    a ∈ w.accepted ∨ ∃ c ∈ w.objects.commits, c.generation = a := by
  cases h with
  | other | read | restored | number | uploaded | checked | committed | ended | same =>
    exact .inl ha
  | acquire | markReady => exact .inl (by simpa [goto] using ha)
  | accepted _ happlies =>
    rcases List.mem_cons.1 ha with rfl | ha
    · exact .inr (commit_of_valid (receipt_of_applies happlies).1)
    · exact .inl ha

theorem Inv.step (h : Inv w) (he : w.step e = some w') : Inv w' := by
  have hchange := step_change he
  have hcommits := hchange.commits_mono
  refine ⟨?_, fun p hp => ?_, fun a ha => ?_, fun A hr => ?_, fun A hr ho p hp => ?_⟩
  · rcases hchange.sys with heq | ⟨e', he'⟩
    · rw [heq]; exact h.sys
    · exact h.sys.step he'
  · rcases hchange.pointer h.sys with heq | ⟨-, c, hc, heq⟩
    · obtain ⟨c, hc, hcp⟩ := h.pointer p (heq ▸ hp)
      exact ⟨c, hcommits c hc, hcp⟩
    · exact ⟨c, hc, Option.some.inj (heq.symm.trans hp)⟩
  · rcases hchange.accepted_commit ha with ha | ⟨c, hc, hca⟩
    · obtain ⟨c, hc, hca⟩ := h.accepted a ha
      exact ⟨c, hcommits c hc, hca⟩
    · exact ⟨c, hcommits c hc, hca⟩
  · rcases hchange.of_restored hr with heq | ⟨-, hlost, -⟩
    · rw [heq] at hr ⊢
      exact h.lost A hr
    · exact hlost
  · rcases hchange.of_restored hr with heq | ⟨hsys, -, hbase⟩
    · -- `A` owned the initialization before, so no receipt was accepted since
      have hown : w.sys.item.initOwner = some A := by
        rcases hchange.owner h.sys ho with hown | ⟨now, answered, rfl⟩
        · exact hown
        · -- a container that claims is not one that has restored
          rw [heq] at hr
          simp [World.step, hr] at he
      rcases hchange.pointer h.sys with hptr | ⟨hnone, -⟩
      · rw [heq] at hr ⊢
        exact h.base A hr hown p (hptr ▸ hp)
      · rw [hown] at hnone; simp at hnone
    · -- the listing a container restores from covers every pointer of the record
      rw [hsys] at hp
      obtain ⟨c, hc, rfl⟩ := h.pointer p hp
      rw [hbase]
      cases hn : w.objects.newest with
      | none => rw [Objects.newest_eq_none.1 hn] at hc; simp at hc
      | some g => exact Objects.le_of_newest hn hc

theorem Reachable.inv (h : w.Reachable) : Inv w := by
  obtain ⟨ownerHash, sandboxId, session, version, now, hr⟩ := h
  exact hr.invariant (fun _ _ _ hs _ he => hs.step he)
    (.init ownerHash sandboxId session version now)

end World

end KiroCrew
