import KiroCrew.Lib.Batches
import KiroCrew.Receipt
import KiroCrew.Lib.Double

/-!
# The wake hints of a container

`_publish_next_due` runs before every receipt: it reads the gateway's cron jobs and auto-nudge loops
and keeps the earliest due time, rounded to a double and cut to whole seconds, for the receipt to
carry. A failed read keeps the values of the read before it. `_initialize_sync` has put the start-up
time beside them. `_schedule_hints` refuses a receipt whose hints are out of its range;
`hints_accepted_iff` says when no receipt of a container's life is lost to its hints, and
`checkpointReceipt_hints` that accepted hints change nothing else about a receipt.
-/

namespace KiroCrew

open Json (Value Number)

/-- One code point of `_CRON_JOB_ID`. -/
def isJobIdCode (c : Nat) : Bool :=
  decide (48 ≤ c ∧ c ≤ 57) || decide (65 ≤ c ∧ c ≤ 90) || decide (97 ≤ c ∧ c ≤ 122) ||
    decide (c ∈ Str.ofString "_.:-")

/-- `_CRON_JOB_ID.fullmatch` -/
def isCronJobId (s : Str) : Bool := decide (s.length ≤ 128) && s.all isJobIdCode

/-- The hints on a `LambdaBrokerClient`. -/
structure BrokerClient where
  nextDueAt : Option ℤ := none
  nextDueJob : Str := []
  restoreSeconds : Option ℤ := none
deriving DecidableEq, Repr

/-- The client after `_initialize_sync`, `elapsed` after the process started. -/
def BrokerClient.initialized (elapsed : ℚ) : BrokerClient where
  restoreSeconds := some (max 0 (Double.truncate elapsed))

/-- The hints in the request of `checkpoint_receipt`. -/
def BrokerClient.hints (client : BrokerClient) : ScheduleHints where
  nextDueAt := client.nextDueAt
  nextDueJob := if client.nextDueAt.isSome then client.nextDueJob.map Char.ofNat else []
  restoreSeconds := client.restoreSeconds

/-- Both answers of the gateway, and `time.time()` before they were read. -/
structure ScheduleRead where
  now : ℚ≥0
  crons : Value
  autonudge : Value

/-- The list under `key`, if the answer is an object and has one. -/
def listed (key : String) : Value → List Value
  | .obj fields =>
    match Value.get fields (Str.ofString key) with
    | some (.arr items) => items
    | _ => []
  | _ => []

/-- The due time of an entry whose flag is set, when it is a number still to come, and a job id. -/
def dueEntry (flag due : String) (jobId : List (Str × Value) → Str) (now : ℚ≥0) : Value →
    Option (Number × Str)
  | .obj fields =>
    if (Value.get fields (Str.ofString flag)).any Value.truthy then
      match (Value.get fields (Str.ofString due)).bind Value.number with
      | some n => if n.gt now then some (n, jobId fields) else none
      | none => none
    else none
  | _ => none

/-- `job_id if isinstance(job_id, str) else ""` -/
def cronJobId (fields : List (Str × Value)) : Str :=
  match Value.get fields (Str.ofString "id") with
  | some (.str s) => s
  | _ => []

namespace ScheduleRead

/-- The due times still to come, with their jobs. -/
def due (r : ScheduleRead) : List (Number × Str) :=
  (listed "jobs" r.crons).filterMap (dueEntry "enabled" "next_run_ts" cronJobId r.now) ++
    (listed "loops" r.autonudge).filterMap (dueEntry "active" "next_due_ts" (fun _ => []) r.now)

/-- `candidates`; `none` is the `OverflowError` of a `float(due)`. -/
def candidates (r : ScheduleRead) : Option (List (Double × Str)) :=
  r.due.mapM fun (n, job) => n.toDouble.map (·, job)

end ScheduleRead

/-- `a < b` for two candidates. -/
def candidateLt (a b : Double × Str) : Bool := if a.1 = b.1 then decide (a.2 < b.2) else a.1.lt b.1

/-- `min(candidates)` -/
def earliest (c : Double × Str) (cs : List (Double × Str)) : Double × Str :=
  cs.foldl (fun m c => if candidateLt c m then c else m) c

/-- What a read publishes: `next_due_at` and `next_due_job`; `none` is an `OverflowError`. -/
def ScheduleRead.nextDue (r : ScheduleRead) : Option (ℤ × Str) :=
  r.candidates.bind fun
    | [] => some (0, [])
    | c :: cs => (earliest c cs).1.toInt.map fun t =>
        (t, if isCronJobId (earliest c cs).2 then (earliest c cs).2 else [])

/-- `_publish_next_due`; without a read (`none`) the client keeps what it has. -/
def publishNextDue (client : BrokerClient) : Option ScheduleRead → Option BrokerClient
  | none => some client
  | some r => r.nextDue.map fun (t, job) => { client with nextDueAt := some t, nextDueJob := job }

/-! ## The earliest candidate -/

theorem candidateLt_fst {a b : Double × Str} (h : candidateLt a b = true) : a.1 = b.1 ∨
    a.1.lt b.1 = true := by
  unfold candidateLt at h
  split at h
  · next heq => exact .inl heq
  · exact .inr h

theorem earliest_mem (c : Double × Str) (cs : List (Double × Str)) : earliest c cs ∈ c :: cs := by
  induction cs generalizing c with
  | nil => simp [earliest]
  | cons d ds ih =>
    have h := ih (if candidateLt d c then d else c)
    rw [show earliest c (d :: ds) = earliest (if candidateLt d c then d else c) ds from rfl]
    split_ifs at h ⊢ <;> simp only [List.mem_cons] at h ⊢ <;> tauto

theorem earliest_le (c : Double × Str) (cs : List (Double × Str))
    (hnan : ∀ d ∈ c :: cs, d.1 ≠ .nan) :
    ∀ d ∈ c :: cs, d.1.lt (earliest c cs).1 = false := by
  induction cs generalizing c with
  | nil => simp [earliest]
  | cons e es ih =>
    have hc := hnan c (by simp)
    have he := hnan e (by simp)
    rw [show earliest c (e :: es) = earliest (if candidateLt e c then e else c) es from rfl]
    intro d hd
    rw [Bool.eq_false_iff]
    intro hlt
    by_cases h : candidateLt e c = true
    · rw [if_pos h] at hlt
      have hmin := ih e fun x hx => hnan x (by simp only [List.mem_cons] at hx ⊢; tauto)
      simp only [List.mem_cons] at hd
      rcases hd with rfl | hd
      · have hlate : e.1.lt (earliest e es).1 = true := by
          rcases candidateLt_fst h with heq | hed
          · rw [heq]; exact hlt
          · exact Double.lt_trans hed hlt
        simp [hmin e (by simp)] at hlate
      · simp [hmin d (by simpa using hd)] at hlt
    · rw [if_neg h] at hlt
      have hmin := ih c fun x hx => hnan x (by simp only [List.mem_cons] at hx ⊢; tauto)
      simp only [List.mem_cons] at hd
      rcases hd with rfl | rfl | hd
      · simp [hmin d (by simp)] at hlt
      · have hlate : c.1.lt (earliest c es).1 = true := by
          rcases Double.lt_or_eq_or_lt hc he with hcd | heq | hdc
          · exact Double.lt_trans hcd hlt
          · rw [heq]; exact hlt
          · have hne : d.1 ≠ c.1 := by
              intro heq
              simp [heq] at hdc
            simp [candidateLt, hne, hdc] at h
        simp [hmin c (by simp)] at hlate
      · simp [hmin d (by simp [hd])] at hlt

/-! ## What a read publishes -/

namespace ScheduleRead

variable {r : ScheduleRead} {cs : List (Double × Str)} {now : Instant}

/-- What a read must give for a receipt at `now`: every due time converts to a double, and when
there is one, one is at most `_MAX_DUE_AHEAD` ahead of the broker's clock in whole seconds. -/
structure Plannable (r : ScheduleRead) (now : Instant) : Prop where
  fits : ∀ p ∈ r.due, p.1.toDouble.isSome = true
  ahead : r.due ≠ [] → ∃ p ∈ r.due, ∃ q, p.1.toDouble = some (.finite q) ∧
    q < (now.epoch + maxDueAhead : ℕ) + 1

theorem dueEntry_gt {flag due : String} {jobId : List (Str × Value) → Str} {t : ℚ≥0} {v : Value}
    {p : Number × Str}
    (h : dueEntry flag due jobId t v = some p) : p.1.gt t = true := by
  unfold dueEntry at h
  split at h
  · split at h
    · split at h
      · split at h
        · next hgt => cases h; exact hgt
        · simp at h
      · simp at h
    · simp at h
  · simp at h

theorem due_gt {p : Number × Str} (h : p ∈ r.due) : p.1.gt r.now = true := by
  rcases List.mem_append.1 h with h | h
  all_goals
    obtain ⟨v, -, hv⟩ := List.mem_filterMap.1 h
    exact dueEntry_gt hv

theorem candidates_eq_some : r.candidates = some cs ↔
    r.due.map (fun p => p.1.toDouble.map (·, p.2)) = cs.map some := Batches.mapM_eq_some

theorem mem_candidates (h : r.candidates = some cs) {c : Double × Str} (hc : c ∈ cs) :
    ∃ p ∈ r.due, p.1.toDouble = some c.1 := by
  have hmem : some c ∈ r.due.map fun p => p.1.toDouble.map (·, p.2) := by
    rw [candidates_eq_some.1 h]
    exact List.mem_map_of_mem hc
  obtain ⟨p, hp, heq⟩ := List.mem_map.1 hmem
  obtain ⟨d, hd, rfl⟩ := Option.map_eq_some_iff.1 heq
  exact ⟨p, hp, hd⟩

theorem candidates_mem (h : r.candidates = some cs) {p : Number × Str} (hp : p ∈ r.due) :
    ∃ c ∈ cs, p.1.toDouble = some c.1 := by
  have hmem : p.1.toDouble.map (·, p.2) ∈ cs.map some := by
    rw [← candidates_eq_some.1 h]
    exact List.mem_map_of_mem hp
  obtain ⟨c, hc, heq⟩ := List.mem_map.1 hmem
  obtain ⟨d, hd, rfl⟩ := Option.map_eq_some_iff.1 heq.symm
  exact ⟨(d, p.2), hc, hd⟩

theorem exists_candidates (h : ∀ p ∈ r.due, p.1.toDouble.isSome = true) :
    ∃ cs, r.candidates = some cs := by
  refine ⟨r.due.filterMap fun p => p.1.toDouble.map (·, p.2), candidates_eq_some.2 ?_⟩
  generalize r.due = ps at h
  induction ps with
  | nil => simp
  | cons p ps ih =>
    obtain ⟨d, hd⟩ := Option.isSome_iff_exists.1 (h p (by simp))
    simp [hd, ih fun q hq => h q (by simp [hq])]

theorem candidate_nonneg (h : r.candidates = some cs) {c : Double × Str} (hc : c ∈ cs) :
    c.1 = .infinite false ∨ ∃ q, c.1 = .finite q ∧ 0 ≤ q := by
  obtain ⟨p, hp, hd⟩ := mem_candidates h hc
  exact Number.toDouble_of_gt r.now.2 (due_gt hp) hd

theorem candidate_ne_nan (h : r.candidates = some cs) {c : Double × Str} (hc : c ∈ cs) :
    c.1 ≠ .nan := by
  rcases candidate_nonneg h hc with heq | ⟨q, heq, -⟩ <;> simp [heq]

theorem nextDue_wellFormed {t : ℤ} {job : Str} (h : r.nextDue = some (t, job)) :
    0 ≤ t ∧ isCronJobId job = true := by
  obtain ⟨cs, hcs, h⟩ := Option.bind_eq_some_iff.1 h
  cases cs with
  | nil =>
    cases h
    exact ⟨le_rfl, rfl⟩
  | cons c cs =>
    obtain ⟨u, hu, heq⟩ := Option.map_eq_some_iff.1 h
    cases heq
    constructor
    · rcases candidate_nonneg hcs (earliest_mem c cs) with hinf | ⟨q, hq, hnonneg⟩
      · simp [hinf, Double.toInt] at hu
      · rw [hq] at hu
        cases hu
        exact Double.truncate_nonneg hnonneg
    · split_ifs with hid
      · exact hid
      · rfl

/-- A read publishes a time that the broker takes at `now` exactly when it is plannable then. -/
theorem nextDue_iff : (∃ p, r.nextDue = some p ∧ p.1 ≤ ((now.epoch + maxDueAhead : ℕ) : ℤ)) ↔
    r.Plannable now := by
  constructor
  · rintro ⟨⟨t, job⟩, h, hle⟩
    obtain ⟨cs, hcs, h⟩ := Option.bind_eq_some_iff.1 h
    refine ⟨fun p hp => ?_, fun hne => ?_⟩
    · obtain ⟨c, -, hd⟩ := candidates_mem hcs hp
      simp [hd]
    · obtain ⟨p, hp⟩ := List.exists_mem_of_ne_nil _ hne
      obtain ⟨c₀, hc₀, -⟩ := candidates_mem hcs hp
      cases cs with
      | nil => simp at hc₀
      | cons c cs =>
        obtain ⟨u, hu, heq⟩ := Option.map_eq_some_iff.1 h
        cases heq
        obtain ⟨p, hp, hd⟩ := mem_candidates hcs (earliest_mem c cs)
        rcases candidate_nonneg hcs (earliest_mem c cs) with hinf | ⟨q, hq, -⟩
        · simp [hinf, Double.toInt] at hu
        · rw [hq] at hu hd
          cases hu
          exact ⟨p, hp, q, hd, Double.truncate_lt.1 (Int.lt_add_one_of_le hle)⟩
  · rintro ⟨hfits, hahead⟩
    obtain ⟨cs, hcs⟩ := exists_candidates hfits
    cases cs with
    | nil => exact ⟨(0, []), by simp [nextDue, hcs], by positivity⟩
    | cons c cs =>
      obtain ⟨p₀, hp₀, -⟩ := mem_candidates hcs (List.mem_cons_self (a := c))
      obtain ⟨p, hp, q, hq, hlt⟩ := hahead (List.ne_nil_of_mem hp₀)
      obtain ⟨d, hd, hpd⟩ := candidates_mem hcs hp
      have hdq : d.1 = .finite q := Option.some.inj (hpd.symm.trans hq)
      -- the earliest candidate is no later than `d`, hence finite
      have hmin := earliest_le c cs (fun x hx => candidate_ne_nan hcs hx) d hd
      rcases candidate_nonneg hcs (earliest_mem c cs) with hinf | ⟨m, hm, hnonneg⟩
      · simp [hinf, hdq, Double.lt] at hmin
      · have hmq : m ≤ q := by simpa [hm, hdq, Double.lt] using hmin
        refine ⟨(Double.truncate m, if isCronJobId (earliest c cs).2 then (earliest c cs).2
          else []), ?_, ?_⟩
        · simp only [nextDue, hcs, hm, Double.toInt, Option.bind_some, Option.map_some]
        · exact Int.le_of_lt_add_one (Double.truncate_lt.2 (hmq.trans_lt hlt))

end ScheduleRead

/-! ## A container's receipts -/

theorem isJobId_of_isCronJobId {s : Str} (h : isCronJobId s = true) :
    isJobId (s.map Char.ofNat) = true := by
  have hcode : ∀ c < 128, isJobIdCode c = true →
      ((Char.ofNat c).isAlphanum || "_.:-".toList.contains (Char.ofNat c)) = true := by
    decide +kernel
  have hmarks : ∀ c ∈ Str.ofString "_.:-", c < 128 := by decide
  have hlt : ∀ c, isJobIdCode c = true → c < 128 := by
    intro c hc
    simp only [isJobIdCode, Bool.or_eq_true, decide_eq_true_eq] at hc
    rcases hc with ((hc | hc) | hc) | hc
    · omega
    · omega
    · omega
    · exact hmarks c hc
  simp only [isCronJobId, isJobId, Bool.and_eq_true, decide_eq_true_eq, List.all_eq_true,
    List.length_map] at h ⊢
  refine ⟨h.1, fun c hc => ?_⟩
  obtain ⟨n, hn, rfl⟩ := List.mem_map.1 hc
  exact hcode n (hlt n (h.2 n hn)) (h.2 n hn)

/-- A receipt of the container: the read before it, if both answers came, and the broker's clock at
it. -/
structure HintedReceipt where
  read : Option ScheduleRead
  now : Instant

/-- Every receipt is published without an exception, its hints pass `_schedule_hints`, and the
broker takes it exactly when it would take it without hints. -/
def HintsAccepted : BrokerClient → List HintedReceipt → Prop
  | _, [] => True
  | client, r :: rs => ∃ client', publishNextDue client r.read = some client' ∧
      client'.hints.valid r.now = true ∧
      (∀ (item : Item) (session : SessionId) (request : ReceiptRequest) (commit : Option
      CommitRecord),
        (checkpointReceipt item session { request with hints := client'.hints } commit
        r.now).isSome =
          (checkpointReceipt item session { request with hints := {} } commit r.now).isSome) ∧
      HintsAccepted client' rs

/-- The process was up within 3601 seconds, and at each receipt the last read that succeeded is
plannable. -/
def PlannedAhead (elapsed : ℚ) : Option ScheduleRead → List HintedReceipt → Prop
  | _, [] => True
  | last, r :: rs => elapsed < 3601 ∧ (∀ read ∈ r.read.or last, read.Plannable r.now) ∧
      PlannedAhead elapsed (r.read.or last) rs

/-- Hints that the broker accepts decide nothing else about a receipt. -/
theorem checkpointReceipt_hints {hints : ScheduleHints} {now : Instant} (h : hints.valid now = true)
    (item : Item)
    (session : SessionId) (request : ReceiptRequest) (commit : Option CommitRecord) :
    (checkpointReceipt item session { request with hints := hints } commit now).isSome =
      (checkpointReceipt item session { request with hints := {} } commit now).isSome := by
  have hnone : ScheduleHints.valid {} now = true := rfl
  have hvalid : ReceiptRequest.valid { request with hints := hints } commit now =
      ReceiptRequest.valid { request with hints := {} } commit now := by
    simp only [ReceiptRequest.valid, h, hnone]
  cases commit with
  | none => simp [checkpointReceipt]
  | some c =>
    unfold checkpointReceipt
    rw [hvalid]
    split_ifs <;> simp_all [receiptAllowed, ReceiptRequest.holderOk, ReceiptRequest.stateOk,
      ReceiptRequest.pointerOk,
      ReceiptRequest.advance]

/-- The client carries the start-up time and what the last read published. -/
structure Carries (elapsed : ℚ) (last : Option ScheduleRead) (client : BrokerClient) : Prop where
  restore : client.restoreSeconds = some (max 0 (Double.truncate elapsed))
  due : last.map ScheduleRead.nextDue = client.nextDueAt.map fun t => some (t, client.nextDueJob)

variable {elapsed : ℚ} {last : Option ScheduleRead} {client client' : BrokerClient}

theorem Carries.initialized (elapsed : ℚ) :
    Carries elapsed none (BrokerClient.initialized elapsed) := ⟨rfl, rfl⟩

theorem Carries.publish (h : Carries elapsed last client) {read : Option ScheduleRead}
    (hp : publishNextDue client read = some client') : Carries elapsed (read.or last) client' := by
  cases read with
  | none =>
    cases hp
    exact h
  | some r =>
    obtain ⟨⟨t, job⟩, hdue, rfl⟩ := Option.map_eq_some_iff.1 hp
    exact ⟨h.restore, by simp [hdue]⟩

theorem restore_iff (elapsed : ℚ) :
    (∀ s ∈ some (max 0 (Double.truncate elapsed)), 0 ≤ s ∧ s ≤ 3600) ↔ elapsed < 3601 := by
  have h := Double.truncate_lt (q := elapsed) (n := 3600)
  norm_num at h
  simp only [Option.mem_def, Option.some.injEq, forall_eq']
  rw [← h]
  omega

/-- The hints a client carries are accepted when it was up in time and its last read is
plannable. -/
theorem Carries.valid_iff (h : Carries elapsed last client) (now : Instant) :
    client.hints.valid now = true ↔ elapsed < 3601 ∧ ∀ read ∈ last, read.Plannable now := by
  have hrestore : client.hints.restoreSeconds = some (max 0 (Double.truncate elapsed)) := h.restore
  have hdue := h.due
  rw [ScheduleHints.valid, Bool.and_eq_true, hrestore, Option.all_some, decide_eq_true_eq]
  rw [show (0 ≤ max 0 (Double.truncate elapsed) ∧ max 0 (Double.truncate elapsed) ≤ 3600) ↔
      elapsed < 3601 by
    simpa using restore_iff elapsed]
  rw [and_comm]
  refine and_congr_right fun _ => ?_
  cases last with
  | none =>
    have hnone : client.nextDueAt = none := by simpa using hdue.symm
    simp [BrokerClient.hints, hnone]
  | some r =>
    obtain ⟨t, ht, hr⟩ := Option.map_eq_some_iff.1 hdue.symm
    obtain ⟨hnonneg, hid⟩ := ScheduleRead.nextDue_wellFormed hr.symm
    have hjob := isJobId_of_isCronJobId hid
    simp only [BrokerClient.hints, ht, Option.isSome_some, if_true, Option.all_some, hjob,
      Bool.and_true,
      decide_eq_true_eq, hnonneg, true_and, Option.mem_def, Option.some.injEq, forall_eq']
    rw [← ScheduleRead.nextDue_iff]
    constructor
    · intro hle
      exact ⟨_, hr.symm, hle⟩
    · rintro ⟨p, hp, hle⟩
      rw [← hr] at hp
      cases hp
      exact hle

theorem hints_accepted (h : Carries elapsed last client) (receipts : List HintedReceipt) :
    HintsAccepted client receipts ↔ PlannedAhead elapsed last receipts := by
  induction receipts generalizing client last with
  | nil => simp [HintsAccepted, PlannedAhead]
  | cons r rs ih =>
    constructor
    · rintro ⟨client', hp, hvalid, -, hrest⟩
      have hcarries := h.publish hp
      obtain ⟨helapsed, hplan⟩ := (hcarries.valid_iff r.now).1 hvalid
      exact ⟨helapsed, hplan, (ih hcarries).1 hrest⟩
    · rintro ⟨helapsed, hplan, hrest⟩
      have hpublished : ∃ client', publishNextDue client r.read = some client' := by
        cases hread : r.read with
        | none => exact ⟨client, rfl⟩
        | some read =>
          obtain ⟨p, hp, -⟩ := ScheduleRead.nextDue_iff.2 (hplan read (by simp [hread]))
          exact ⟨_, by simp only [publishNextDue, hp, Option.map_some]; rfl⟩
      obtain ⟨client', hp⟩ := hpublished
      have hcarries := h.publish hp
      have hvalid := (hcarries.valid_iff r.now).2 ⟨helapsed, hplan⟩
      exact ⟨client', hp, hvalid, checkpointReceipt_hints hvalid, (ih hcarries).2 hrest⟩

/-- Hints never cost a receipt exactly when the container starts within 3601 seconds and each read
it publishes converts to doubles and, if anything is due, has something due within the broker's
horizon. -/
theorem hints_accepted_iff (elapsed : ℚ) (receipts : List HintedReceipt) :
    HintsAccepted (BrokerClient.initialized elapsed) receipts ↔
    PlannedAhead elapsed none receipts :=
  hints_accepted (.initialized elapsed) receipts

namespace NextDue

def job (id : String) (due : Value) : Value :=
  .obj [(Str.ofString "id", .str (Str.ofString id)), (Str.ofString "enabled", .bool true),
    (Str.ofString "next_run_ts", due)]

/-- One cron job, read at 1800000000, and no loops. -/
def read (due : Value) : ScheduleRead where
  now := 1800000000
  crons := .obj [(Str.ofString "jobs", .arr [job "report" due])]
  autonudge := .obj [(Str.ofString "loops", .arr [])]

example : (read (.int 1800000500)).nextDue = some (1800000500, Str.ofString "report") := by
  decide +kernel
example : (read (.float (Str.ofString "1e999"))).nextDue = none := by decide +kernel

/-- A job due in two years loses every receipt. -/
theorem distant_job_refused : ¬ ∀ (elapsed : ℚ) (receipts : List HintedReceipt),
    HintsAccepted (BrokerClient.initialized elapsed) receipts := by
  intro h
  obtain ⟨client, hp, hvalid, -⟩ := h 40 [⟨some (read (.int 1863072000)), .ofEpoch 1800000001⟩]
  have hclient : publishNextDue (.initialized 40) (some (read (.int 1863072000))) =
      some ⟨some 1863072000, Str.ofString "report", some 40⟩ := by
    decide +kernel
  cases hclient.symm.trans hp
  revert hvalid
  decide +kernel

end NextDue

end KiroCrew
