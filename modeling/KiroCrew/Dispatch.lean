import KiroCrew.Record
import KiroCrew.Lib.Bytes
import KiroCrew.Lib.Double

/-!
# The waker's dispatcher

Each tick of the waker scans the table for enrolled sandboxes (`_dispatch`), asks `_wake_plan` of
each whether to wake it and starts a leg for the first `limit` of those, in scan order. A leg first
opens the owner's sealed subject (`_open_subject`); a refused one returns before anything is
written. So a sandbox at the head of the scan whose legs are refused is due again at the next tick
and takes the place of the one behind it. Everybody is started in a run where each tick with more
due sandboxes than places settles those it starts (`starvesNobody_of_settles`);
`refused_legs_starve` is a run that starves one.
-/

namespace KiroCrew.Waker

/-- A sandbox id, or a key of the table. -/
abbrev Name := List Char

/-! ## The wake plan -/

/-- What `_wake_plan` reads of an item, with the seconds of its ISO times; one is `none` when it is
absent or does not parse (`_iso_epoch`). -/
structure Schedule where
  state : List Char := []
  updatedAt : Option ℚ := none
  nextDueAt : Option ℤ := none
  nextDueJob : String := ""
  restoreSeconds : Option ℤ := none
  leaseExpiresAt : Option ℚ := none
  initExpiresAt : Option ℤ := none

/-- The outcome of its `get_item`. -/
inductive Lookup
  /-- No table is configured. -/
  | noTable
  | unreadable (error : String)
  | missing
  | found (item : Schedule)

def catchUpGraceSeconds : ℚ := 1800
def legacyWakeSeconds : ℚ := 6 * 3600
def staleHoldSeconds : ℚ := 1200

inductive Reason
  | noRecord
  | unreadable (error : String)
  | noSandbox
  | held (state : List Char)
  | periodic
  | periodicNotDue
  | nothingScheduled
  | early (seconds lead : ℤ)
  | handled
  | tooOld
  | due (dueAt lead : ℤ)
  | stranded
deriving DecidableEq

def Reason.text : Reason → String
  | .noRecord => "no record to consult"
  | .unreadable error => s!"record unreadable ({error})"
  | .noSandbox => "no such sandbox"
  | .held state => s!"sandbox is {String.ofList state}"
  | .periodic => "no published schedule; periodic wake"
  | .periodicNotDue => "no published schedule; periodic wake not yet due"
  | .nothingScheduled => "nothing scheduled"
  | .early seconds lead => s!"due in {seconds}s, lead {lead}s"
  | .handled => "already handled this occurrence"
  | .tooOld => "occurrence too old to catch up"
  | .due dueAt lead => s!"due at {dueAt}, lead {lead}s"
  | .stranded => "stranded schedule; recovery wake"

structure Plan where
  wake : Bool
  reason : Reason
  dueAt : Option ℤ := none
  job : String := ""
  stranded : Bool := false
deriving DecidableEq

/-- `_wake_lead`; `int` cuts towards zero. -/
def wakeLead : Option ℤ → ℤ
  | none => 180
  | some restoreSeconds => max 90 (min 600 ((3 * restoreSeconds).tdiv 2 + 30))

/-- `_recovery`: the plan for a due time that is over, with the reason not to wake. -/
def recovery (now : ℚ) (dueAt : ℤ) (heldFor : Option ℚ) (plan : Plan) (reason : Reason) : Plan :=
  if now - dueAt > legacyWakeSeconds ∧ heldFor.all (legacyWakeSeconds ≤ ·) then
    { plan with wake := true, reason := .stranded, stranded := true }
  else { plan with reason := reason }

/-- Somebody has the sandbox. -/
def Schedule.held (item : Schedule) (now : ℚ) : Bool :=
  if item.state = SandboxState.stopped.value.toList then false
  else if item.initExpiresAt.any fun initUntil => now < initUntil then true
  else
    match item.leaseExpiresAt with
    | some lease => now < lease
    | none => item.updatedAt.any fun updated => now - updated < staleHoldSeconds

def Schedule.plan (item : Schedule) (now : ℚ) : Plan :=
  let heldFor := item.updatedAt.map fun updated => now - updated
  if item.held now then { wake := false, reason := .held item.state }
  else
    match item.nextDueAt with
    | none =>
      if heldFor.all (legacyWakeSeconds ≤ ·) then { wake := true, reason := .periodic }
      else { wake := false, reason := .periodicNotDue }
    | some dueAt =>
      let lead := wakeLead item.restoreSeconds
      let plan : Plan :=
        { wake := false, reason := .nothingScheduled, dueAt := some dueAt, job := item.nextDueJob }
      if dueAt = 0 then plan
      else if now < dueAt - lead then
        { plan with reason := .early (Double.truncate (dueAt - now)) lead }
      else if item.updatedAt.any fun updated => (dueAt : ℚ) ≤ updated then
        recovery now dueAt heldFor plan .handled
      else if now - dueAt > catchUpGraceSeconds then recovery now dueAt heldFor plan .tooOld
      else { plan with wake := true, reason := .due dueAt lead }

/-- `_wake_plan` -/
def wakePlan (now : ℚ) : Lookup → Plan
  | .noTable => { wake := true, reason := .noRecord }
  | .unreadable error => { wake := true, reason := .unreadable error }
  | .missing => { wake := false, reason := .noSandbox }
  | .found item => item.plan now

/-! ## One tick -/

/-- What a tick meets: its clock, the keys on the pages of the scan, what `get_item` answers for
each sandbox, its own name and which invocations Lambda accepts. -/
structure Tick where
  now : ℚ
  pages : List (List Name)
  record : Name → Lookup
  function : String := "waker"
  accepts : Name → Bool := fun _ => true

structure Dispatched where
  enrolled : Nat
  started : List Name
deriving DecidableEq, Repr

inductive DispatchError
  /-- `RuntimeError`: the waker cannot name itself. -/
  | nameless
  | invocation (sandboxId : Name)
deriving DecidableEq, Repr

namespace Tick

variable (t : Tick)

def keyPrefix : Name := "SANDBOX#".toList

/-- The sandbox ids of the scanned keys that have the prefix. -/
def enrolled : List Name := t.pages.flatten.filterMap keyPrefix.isPrefixOf?

def wakes (sandboxId : Name) : Bool := (wakePlan t.now (t.record sandboxId)).wake

/-- The due sandboxes that the tick starts. -/
def starts (limit : Nat) : List Name := (t.enrolled.filter t.wakes).take limit

/-- `_dispatch` -/
def dispatch (limit : Nat) : Except DispatchError Dispatched :=
  if t.starts limit = [] then .ok { enrolled := t.enrolled.length, started := [] }
  else if t.function = "" then .error .nameless
  else
    match (t.starts limit).find? fun sandboxId => !t.accepts sandboxId with
    | some sandboxId => .error (.invocation sandboxId)
    | none => .ok { enrolled := t.enrolled.length, started := t.starts limit }

/-- The tick can name itself and Lambda accepts every invocation. -/
structure Unhindered : Prop where
  named : t.function ≠ ""
  accepts : ∀ sandboxId ∈ t.enrolled, t.accepts sandboxId = true

/-- More sandboxes are due than the tick may start. -/
def Overfull (limit : Nat) : Prop := limit < (t.enrolled.filter t.wakes).length

instance (limit : Nat) : Decidable (t.Overfull limit) := inferInstanceAs (Decidable (_ < _))

variable {t} {limit : Nat} {sandboxId : Name}

theorem mem_of_mem_starts (h : sandboxId ∈ t.starts limit) :
    sandboxId ∈ t.enrolled ∧ t.wakes sandboxId = true :=
  List.mem_filter.1 (List.mem_of_mem_take h)

theorem mem_starts_of_not_overfull (h : ¬ t.Overfull limit) (hmem : sandboxId ∈ t.enrolled)
    (hdue : t.wakes sandboxId = true) : sandboxId ∈ t.starts limit := by
  rw [starts, List.take_of_length_le (not_lt.1 h), List.mem_filter]
  exact ⟨hmem, hdue⟩

/-- The list of a tick names only sandboxes that it starts. -/
theorem mem_starts_of_started {d : Dispatched} (h : t.dispatch limit = .ok d)
    (hmem : sandboxId ∈ d.started) :
    sandboxId ∈ t.starts limit := by
  unfold dispatch at h
  split_ifs at h
  · cases h
    cases hmem
  · split at h
    · cases h
    · cases h
      exact hmem

/-- A tick that nothing hinders starts what it can. -/
theorem Unhindered.started (h : t.Unhindered) (hmem : sandboxId ∈ t.starts limit) :
    ∃ d, t.dispatch limit = .ok d ∧ sandboxId ∈ d.started := by
  have haccepted : (t.starts limit).find? (fun id => !t.accepts id) = none := by
    rw [List.find?_eq_none]
    intro id hid
    rw [h.accepts id (mem_of_mem_starts hid).1]
    decide
  refine ⟨⟨t.enrolled.length, t.starts limit⟩, ?_, hmem⟩
  rw [dispatch, if_neg (List.ne_nil_of_mem hmem), if_neg h.named, haccepted]

end Tick

/-! ## A run of ticks -/

/-- As many consecutive ticks as there are enrolled sandboxes, with one scan order. Between two
ticks the records change in any way. -/
structure Run where
  enrolled : List Name
  limit : Nat
  limit_pos : 0 < limit
  ticks : List Tick
  stable : ∀ t ∈ ticks, t.enrolled = enrolled
  length : ticks.length = enrolled.length

namespace Run

variable (r : Run)

/-- The sandbox's plan says wake at every tick. -/
def alwaysDue (sandboxId : Name) : Prop := ∀ t ∈ r.ticks, t.wakes sandboxId = true

def StarvesNobody : Prop :=
  ∀ sandboxId ∈ r.enrolled, r.alwaysDue sandboxId → ∃ t ∈ r.ticks, ∃ d, t.dispatch r.limit = .ok d ∧
    sandboxId ∈ d.started

/-- The legs that an overfull tick starts settle their sandboxes: they are not due any more in the
run. -/
def Settles : Prop :=
  r.ticks.Pairwise fun t t' => t.Overfull r.limit → ∀ sandboxId ∈ t.starts r.limit,
    t'.wakes sandboxId = false

variable {r} {t : Tick} {sandboxId : Name}

theorem exists_started (ht : t ∈ r.ticks) (hmem : sandboxId ∈ r.enrolled)
    (hdue : t.wakes sandboxId = true) :
    ∃ id, id ∈ t.starts r.limit := by
  have hfilter : t.enrolled.filter t.wakes ≠ [] := by
    refine List.ne_nil_of_mem (List.mem_filter.2 ⟨?_, hdue⟩)
    rwa [r.stable t ht]
  obtain ⟨id, rest, hcons⟩ := List.exists_cons_of_ne_nil hfilter
  refine ⟨id, ?_⟩
  have hpos := r.limit_pos
  rw [Tick.starts, hcons]
  cases hl : r.limit with
  | zero => omega
  | succ n => simp

/-- The sandboxes that go before an always due one are used up, unless there is a place for it
before. -/
theorem Settles.starts (h : r.Settles) (hmem : sandboxId ∈ r.enrolled)
    (hdue : r.alwaysDue sandboxId) :
    ∃ t ∈ r.ticks, sandboxId ∈ t.starts r.limit := by
  by_contra hnever
  push Not at hnever
  have hoverfull : ∀ t ∈ r.ticks, t.Overfull r.limit := by
    intro t ht
    by_contra hroom
    exact hnever t ht (Tick.mem_starts_of_not_overfull hroom (r.stable t ht ▸ hmem) (hdue t ht))
  -- one sandbox for each tick, all different, and none of them this one
  have hfirst : ∀ t ∈ r.ticks, ∃ id, id ∈ t.starts r.limit := fun t ht =>
    exists_started ht hmem (hdue t ht)
  choose! first hstarts using hfirst
  have hnodup : (r.ticks.map first).Nodup := by
    rw [List.Nodup, List.pairwise_map]
    refine h.imp_of_mem fun {t t'} ht ht' hsettled heq => ?_
    have hagain := (Tick.mem_of_mem_starts (hstarts t' ht')).2
    rw [← heq, hsettled (hoverfull t ht) _ (hstarts t ht)] at hagain
    exact Bool.noConfusion hagain
  have hsubset : r.ticks.map first ⊆ r.enrolled.erase sandboxId := by
    intro id hid
    obtain ⟨t, ht, rfl⟩ := List.mem_map.1 hid
    refine (List.mem_erase_of_ne ?_).2 ?_
    · intro heq
      exact hnever t ht (heq ▸ hstarts t ht)
    · rw [← r.stable t ht]
      exact (Tick.mem_of_mem_starts (hstarts t ht)).1
  have hle := (hnodup.subperm hsubset).length_le
  have hpos := List.length_pos_of_mem hmem
  rw [List.length_map, r.length, List.length_erase_of_mem hmem] at hle
  omega

/-- Each sandbox that is due at every tick of the run is started at one of them, when nothing
hinders a tick and each tick with more due sandboxes than places settles those it starts. -/
theorem starvesNobody_of_settles (r : Run) (hsettles : r.Settles)
    (hunhindered : ∀ t ∈ r.ticks, t.Unhindered) :
    r.StarvesNobody := by
  intro sandboxId hmem hdue
  obtain ⟨t, ht, hstarts⟩ := hsettles.starts hmem hdue
  exact ⟨t, ht, (hunhindered t ht).started hstarts⟩

end Run

/-! ## Legs -/

/-- What `_open_subject` reads of an item. -/
structure Sealed where
  wakeSubject : Option Str
  ownerHash : Option Str

inductive Refusal
  | notEnrolled | doesNotOpen | empty | notOwner | disabled
deriving DecidableEq, Repr

def Refusal.text (sandboxId : String) : Refusal → String
  | .notEnrolled => s!"Sandbox {sandboxId} is not enrolled for scheduled wakes."
  | .doesNotOpen => s!"Sealed subject for {sandboxId} does not open"
  | .empty => s!"Sealed subject for {sandboxId} is empty."
  | .notOwner => s!"Sealed subject for {sandboxId} does not match its owner."
  | .disabled => s!"Owner of {sandboxId} is disabled or no longer exists."

inductive Leg
  | refused (refusal : Refusal)
  /-- The decrypted subject is no UTF-8. -/
  | failed
  | opened (subject : Str)
deriving DecidableEq, Repr

/-- KMS, Cognito and SHA-256. -/
structure Services where
  /-- `none` is a `ClientError`. -/
  decrypt : List Nat → Name → Option (List Nat)
  hexdigest : List Nat → Str
  userPool : Bool
  /-- Whether the user of a `sub` is enabled, if there is one. -/
  enabled : Str → Option Bool

/-- `[0-9a-fA-F-]` -/
def isSubCode (c : Nat) : Bool :=
  decide (48 ≤ c ∧ c ≤ 57) || decide (65 ≤ c ∧ c ≤ 70) || decide (97 ≤ c ∧ c ≤ 102) || c = 45

namespace Services

variable (services : Services)

/-- `_subject_enabled` -/
def subjectEnabled (subject : Str) : Bool :=
  !services.userPool ||
    (decide (8 ≤ subject.length ∧ subject.length ≤ 64) && subject.all isSubCode &&
    services.enabled subject = some true)

/-- `_open_subject` -/
def openSubject (sandboxId : Name) (item : Sealed) : Leg :=
  match item.wakeSubject, item.ownerHash with
  | some blob, some ownerHash =>
    if blob = [] ∨ ownerHash = [] then .refused .notEnrolled
    else
      match (Base64.decode blob).bind fun blob => services.decrypt blob sandboxId with
      | none => .refused .doesNotOpen
      | some [] => .refused .empty
      | some (byte :: plaintext) =>
        match Bytes.decodeUtf8 false (byte :: plaintext) with
        | none => .failed
        | some subject =>
          if services.hexdigest (Str.ofString "kirocrew-owner-v1\x00" ++ byte :: plaintext) ≠
            ownerHash then .refused .notOwner
          else if !services.subjectEnabled subject then .refused .disabled
          else .opened subject
  | _, _ => .refused .notEnrolled

/-- The items of the table. -/
abbrev Table := Name → Option (Schedule × Sealed)

/-- `handler` for one sandbox: a refused leg returns, one that fails raises, before anything is
written; what the wake itself does to the table is a parameter. -/
def leg (wake : Name → Str → Table → Table) (table : Table) (sandboxId : Name) : Table :=
  match services.openSubject sandboxId
    (((table sandboxId).map (·.2)).getD { wakeSubject := none, ownerHash := none }) with
  | .refused _ | .failed => table
  | .opened subject => wake sandboxId subject table

/-- The ticks at the given times, each followed by the legs it starts. -/
def rounds (wake : Name → Str → Table → Table) (limit : Nat) (pages : List (List Name)) : Table →
    List ℚ → List Tick
  | _, [] => []
  | table, now :: nows =>
    let t : Tick :=
      { now := now, pages := pages, record := fun id =>
        ((table id).map (·.1)).elim .missing .found }
    t :: rounds wake limit pages ((t.starts limit).foldl (services.leg wake) table) nows

end Services

/-- No owner is looked up in a user pool. -/
def noUserPool : Services where
  decrypt := fun blob _ => some blob
  hexdigest := fun data => data
  userPool := false
  enabled := fun _ => none

/-- The owner of every sealed subject has been disabled. -/
def disabledOwners : Services where
  decrypt := fun blob _ => some blob
  hexdigest := fun data => data
  userPool := true
  enabled := fun _ => some false

/-- Two stopped sandboxes that are due at second 1800000000. -/
def twoDue : Services.Table := fun _ =>
  some ({ state := "STOPPED".toList, updatedAt := some 1799990000, nextDueAt := some 1800000000 },
    { wakeSubject := some (Str.ofString "MTIzNDU2Nzg="),
      ownerHash := some (Str.ofString "kirocrew-owner-v1\x0012345678") })

/-- A wake touches `updatedAt`. -/
def touch (sandboxId : Name) (_ : Str) (table : Services.Table) : Services.Table :=
  Function.update table sandboxId ((table sandboxId).map fun (item, subject) =>
    ({ item with updatedAt := some 1800000030 }, subject))

def settledRun : Run where
  enrolled := [['A'], ['B']]
  limit := 1
  limit_pos := by decide
  ticks := noUserPool.rounds touch 1 [["SANDBOX#A".toList, "SANDBOX#B".toList]] twoDue
    [1800000000, 1800000060]
  stable := by decide +kernel
  length := by decide +kernel

/-- The first tick starts one sandbox, and the second tick the other one. -/
theorem settledRun_starvesNobody : settledRun.StarvesNobody :=
  Run.starvesNobody_of_settles settledRun (by unfold Run.Settles; decide +kernel)
    (fun t ht => ⟨by
        have hnamed : ∀ t ∈ settledRun.ticks, t.function ≠ "" := by decide +kernel
        exact hnamed t ht,
      by
        have haccepts : ∀ t ∈ settledRun.ticks, ∀ sandboxId ∈ t.enrolled,
            t.accepts sandboxId = true := by
          decide +kernel
        exact haccepts t ht⟩)

def refusedRun : Run where
  enrolled := [['A'], ['B']]
  limit := 1
  limit_pos := by decide
  ticks := disabledOwners.rounds (fun _ _ table => table) 1
    [["SANDBOX#A".toList, "SANDBOX#B".toList]] twoDue
    [1800000000, 1800000060]
  stable := by decide +kernel
  length := by decide +kernel

/-- The leg of the first sandbox is refused at every tick and the second one is never started. -/
theorem refused_legs_starve : ¬ ∀ (services : Services) (wake : Name → Str → Services.Table →
    Services.Table) (limit : Nat)
    (pages : List (List Name)) (table : Services.Table) (nows : List ℚ) (r : Run), r.limit = limit →
    r.ticks = services.rounds wake limit pages table nows → r.StarvesNobody := by
  intro h
  have hstarves :=
    h disabledOwners (fun _ _ table => table) 1 _ twoDue _ refusedRun rfl rfl ['B'] (by decide)
    (by unfold Run.alwaysDue; decide +kernel)
  obtain ⟨t, ht, hstarted⟩ := hstarves
  have hnever : ∀ t ∈ refusedRun.ticks, ['B'] ∉ t.starts 1 := by decide +kernel
  obtain ⟨d, hd, hmem⟩ := hstarted
  exact hnever t ht (Tick.mem_starts_of_started hd hmem)

end KiroCrew.Waker
