import KiroCrew.Periodic
import KiroCrew.Staging

/-!
# When a periodic checkpoint is due

`run_periodic_checkpoints` compares the fingerprint of the workspace with the one it took before its
last committed checkpoint. The checkpoint itself captures another tree: the workspace after the
flusher has mirrored a staged data home into it, which also sets the time of the directory above.
`Period` has all three states of an interval: at the decision, while the fingerprint is taken, and
when the gateway is paused. `attempts_exactly`: where nothing is written within an interval, the
mirror writes nothing new and no write goes unseen, the loop attempts a checkpoint exactly when the
durable state has changed.
-/

namespace KiroCrew

/-- `crew` below `home/.kiro`: the data home of the gateway, or what a staged one is mirrored to. -/
def kiroDirectory : Path := ["home", ".kiro"].map Str.ofString

def kirocrewHome : Path := ["home", ".kiro", "crew"].map Str.ofString

/-- `_ignore_shared_memory`, at every level. -/
def sharedMemory (p : Path) : Bool := p.any fun name => (Str.ofString "-shm").isSuffixOf name

namespace Tree

variable (t home : Tree)

/-- The destination of `_mirror_directory`; its root gets mode 0700. -/
def mirrored (q : Path) : Option Node :=
  if q = [] then some (.directory 0o700 (home.mtimeNs []))
  else if sharedMemory q then none
  else home.node q

/-- The mode of a directory that is there, or of a new one. -/
def directoryMode (p : Path) : Mode :=
  match t.node p with
  | some (.directory mode _) => mode
  | _ => 0o755

def flushedNode (mtimeNs : Int) (p : Path) : Option Node :=
  if kirocrewHome <+: p then home.mirrored (p.drop kirocrewHome.length)
  else if p = kiroDirectory then some (.directory (t.directoryMode p) mtimeNs)
  else t.node p

theorem fileName_kirocrewHome : ∀ name ∈ kirocrewHome, isFileName name = true := by decide

/-- `synchronize`: the tree with a data home mirrored into it at the given time. -/
def flush (mtimeNs : Int) : Tree where
  node := t.flushedNode home mtimeNs
  names := kiroDirectory :: kirocrewHome :: (t.names ++ home.names.map (kirocrewHome ++ ·))
  complete := fun p hp => by
    unfold flushedNode at hp
    split at hp
    · next hprefix =>
      obtain ⟨q, rfl⟩ := hprefix
      rw [List.drop_left] at hp
      unfold mirrored at hp
      split at hp
      · next hnil => simp [hnil]
      · split at hp
        · exact absurd rfl hp
        · have hmem := home.complete q hp
          simp [hmem]
    · split at hp
      · next heq => simp [heq]
      · have hmem := t.complete p hp
        simp [hmem]
  fileName := fun p hp => by
    unfold flushedNode at hp
    split at hp
    · next hprefix =>
      obtain ⟨q, rfl⟩ := hprefix
      rw [List.drop_left] at hp
      intro name hname
      rcases List.mem_append.1 hname with hname | hname
      · exact fileName_kirocrewHome name hname
      · unfold mirrored at hp
        split at hp
        · next hnil =>
          rw [hnil] at hname
          cases hname
        · split at hp
          · exact absurd rfl hp
          · exact home.fileName q hp name hname
    · split at hp
      · next heq =>
        rw [heq]
        intro name hname
        exact fileName_kirocrewHome name (List.mem_of_mem_dropLast hname)
      · exact t.fileName p hp

/-- What a restore of a checkpoint of the tree brings back. -/
def restorable (p : Path) : Option Node := if p ∈ t.recorded then t.node p else none

end Tree

/-- The sandbox at one time. -/
structure Moment where
  workspace : Tree
  /-- Where a link of the workspace leads: nowhere, or whether to a directory. -/
  target : Path → Option Bool := fun _ => none
  /-- The data home of the gateway when it is a staged copy. -/
  home : Tree

namespace Moment

variable (mode : Staging.Mode) (sha : List Live.Line → Digest) (m : Moment)

/-- The workspace while nothing changes it. -/
def still : Live where
  tree := fun _ => m.workspace
  target := fun _ => m.target

/-- The workspace after the flusher has run at a time. -/
def flushed (mtimeNs : Int) : Moment :=
  match mode with
  | .direct => m
  | .staged => { m with workspace := m.workspace.flush m.home mtimeNs }

/-- The state a checkpoint would bring back, the data home mirrored first. -/
def durable : Path → Option Node :=
  (m.flushed mode (m.workspace.mtimeNs kiroDirectory)).workspace.restorable

end Moment

structure Period where
  configured : Bool
  /-- At the decision. -/
  now : Moment
  /-- The workspace while its fingerprint is taken. -/
  live : Live
  /-- When the gateway is paused. -/
  paused : Moment
  /-- The time at which the flusher mirrors. -/
  mirroredAt : Int
  commits : Bool

/-- The loop, and what its last committed checkpoint captured and left behind. -/
structure Watch where
  loop : Loop := .running none
  captured : Option Moment := none

namespace Period

variable (mode : Staging.Mode) (sha : List Live.Line → Digest) (p : Period)

def interval : Interval where
  configured := p.configured
  live := p.live
  commits := p.commits

/-- The outcome of the turn; a loop that has ended takes none. -/
def outcome (w : Watch) : Option Outcome :=
  match w.loop with
  | .running lastCommitted => some (p.interval.turn sha lastCommitted).1
  | .dead _ => none

def turn (w : Watch) : Watch :=
  match w.loop with
  | .dead _ => w
  | .running lastCommitted =>
    { loop := (p.interval.turn sha lastCommitted).2
      captured :=
        if (p.interval.turn sha lastCommitted).1 = .attempted true then
          some (p.paused.flushed mode p.mirroredAt)
        else w.captured }

/-- A checkpoint is attempted if the durable state is not the one captured last, and none if nothing
has changed. -/
structure Exact (w : Watch) : Prop where
  changed : (∀ m, w.captured = some m → p.now.durable mode ≠ m.workspace.restorable) →
    ∃ c, p.outcome sha w = some (.attempted c)
  unchanged : ∀ m, w.captured = some m → p.now = m → p.outcome sha w = some .skipped

end Period

/-- No included entry differs, in what the fingerprint hashes of it or in its content. -/
structure Moment.Alike (m m' : Moment) : Prop where
  hashed : m.still.hashed = m'.still.hashed
  restorable : m.workspace.restorable = m'.workspace.restorable

/-- Within an interval no included entry is written: the walk reads, to its end, what is there at
the decision, and a committed checkpoint captures that, so its mirror writes nothing new and moves
no time. -/
structure Period.Undisturbed (mode : Staging.Mode) (p : Period) : Prop where
  walked : p.live.hashed = p.now.still.hashed
  steady : p.live.steady = true
  captured : p.commits = true → (p.paused.flushed mode p.mirroredAt).Alike p.now

/-- No write, in the workspace or to a staged data home, changes what a restore would bring back and
leaves in the workspace the metadata of an interval that committed. -/
def Shows (mode : Staging.Mode) (periods : List Period) : Prop :=
  ∀ p ∈ periods, ∀ q ∈ periods, q.commits = true → p.now.still.hashed = q.now.still.hashed →
    p.now.durable mode = q.now.workspace.restorable

/-- The digest tells apart what is hashed in a run. -/
def Collisionless (sha : List Live.Line → Digest) (periods : List Period) : Prop :=
  ∀ p ∈ periods, ∀ q ∈ periods, ∀ hashed hashed', p.now.still.hashed = .ok hashed →
    q.now.still.hashed = .ok hashed' → sha hashed = sha hashed' → hashed = hashed'

/-- After some periods. -/
def Watch.after (mode : Staging.Mode) (sha : List Live.Line → Digest) (periods : List Period) :
    Watch :=
  periods.foldl (fun w p => p.turn mode sha w) {}

/-- What holds at every period of a run at which checkpoints are enabled. -/
def EachPeriod (mode : Staging.Mode) (sha : List Live.Line → Digest) (periods : List Period)
    (P : Period → Watch → Prop) : Prop :=
  ∀ before p later, periods = before ++ p :: later → p.configured = true →
    P p (Watch.after mode sha before)

variable {mode : Staging.Mode} {sha : List Live.Line → Digest} {p : Period} {w : Watch}
    {periods : List Period}

/-! ## One period -/

variable (sha) in
theorem Period.Undisturbed.taken (h : p.Undisturbed mode) : ∃ hashed, p.now.still.hashed =
    .ok hashed ∧
    p.live.fingerprint sha = .ok (sha hashed) := by
  have hok := p.live.hashed_isOk.trans h.steady
  cases hread : p.live.hashed with
  | ok hashed =>
    refine ⟨hashed, h.walked.symm.trans hread, ?_⟩
    rw [Live.fingerprint, hread]
    rfl
  | error e =>
    rw [hread] at hok
    cases hok

/-- A turn of a running loop changes nothing, or commits what the flusher left. -/
theorem Period.turn_cases {lastCommitted : Option Digest} (hloop : w.loop = .running lastCommitted)
    (hundisturbed : p.configured = true → p.Undisturbed mode) : p.turn mode sha w = w ∨
      ∃ hashed, p.Undisturbed mode ∧ p.commits = true ∧ p.now.still.hashed = .ok hashed ∧
        p.turn mode sha w =
          { loop := .running (some (sha hashed)),
            captured := some (p.paused.flushed mode p.mirroredAt) } := by
  obtain ⟨loop, captured⟩ := w
  obtain rfl : loop = .running lastCommitted := hloop
  by_cases hconfigured : p.configured = true
  · obtain ⟨hashed, hhashed, hd⟩ := (hundisturbed hconfigured).taken sha
    by_cases hsame : lastCommitted = some (sha hashed)
    · left
      simp [Period.turn, Interval.turn, Period.interval, hconfigured, hd, hsame]
    · cases hcommits : p.commits with
      | true =>
        refine Or.inr ⟨hashed, hundisturbed hconfigured, rfl, hhashed, ?_⟩
        simp [Period.turn, Interval.turn, Period.interval, hconfigured, hd, hsame, hcommits]
      | false =>
        left
        simp [Period.turn, Interval.turn, Period.interval, hconfigured, hd, hsame, hcommits]
  · left
    simp [Period.turn, Interval.turn, Period.interval, hconfigured]

theorem Period.outcome_eq {lastCommitted : Option Digest} {d : Digest}
    (hloop : w.loop = .running lastCommitted)
    (hconfigured : p.configured = true) (hd : p.live.fingerprint sha = .ok d) :
    p.outcome sha w = some (if lastCommitted = some d then .skipped else .attempted p.commits) := by
  simp only [Period.outcome, hloop, Interval.turn, Period.interval, hconfigured, if_true, hd]
  split
  · rfl
  · cases p.commits <;> rfl

/-- The loop compares with the fingerprint of an interval of the run that committed, and what its
checkpoint captured is what was there at its decision. -/
def Watch.Committed (sha : List Live.Line → Digest) (periods : List Period) (w : Watch) : Prop :=
  w = {} ∨ ∃ q ∈ periods, ∃ hashed m, q.commits = true ∧ q.now.still.hashed = .ok hashed ∧
    m.Alike q.now ∧
    w = { loop := .running (some (sha hashed)), captured := some m }

theorem Watch.Committed.running (h : w.Committed sha periods) : ∃ lastCommitted, w.loop =
    .running lastCommitted := by
  rcases h with rfl | ⟨q, -, hashed, m, -, -, -, rfl⟩
  · exact ⟨none, rfl⟩
  · exact ⟨some (sha hashed), rfl⟩

theorem Watch.Committed.turn (h : w.Committed sha periods) (hp : p ∈ periods)
    (hundisturbed : p.configured = true → p.Undisturbed mode) :
    (p.turn mode sha w).Committed sha periods := by
  obtain ⟨lastCommitted, hloop⟩ := h.running
  rcases Period.turn_cases hloop hundisturbed with heq | ⟨hashed, hwhole, hcommits, hhashed, heq⟩
  · rw [heq]
    exact h
  · exact .inr ⟨p, hp, hashed, _, hcommits, hhashed, hwhole.captured hcommits, heq⟩

/-- An undisturbed interval is exact. -/
theorem Period.Undisturbed.exact (h : p.Undisturbed mode) (hp : p ∈ periods)
    (hconfigured : p.configured = true)
    (hw : w.Committed sha periods) (hshows : Shows mode periods)
    (hsha : Collisionless sha periods) :
    p.Exact mode sha w := by
  obtain ⟨hashed, hhashed, hd⟩ := h.taken sha
  rcases hw with rfl | ⟨q, hq, hashed', m, hcommits, hhashed', halike, rfl⟩
  · have houtcome := Period.outcome_eq (w := {}) rfl hconfigured hd
    exact ⟨fun _ => ⟨p.commits, houtcome⟩, nofun⟩
  · have houtcome :=
      Period.outcome_eq (w := ⟨.running (some (sha hashed')), some m⟩) rfl hconfigured hd
    refine ⟨fun hchanged => ⟨p.commits, ?_⟩, fun m' hm heq => ?_⟩
    · refine houtcome.trans (congrArg some (if_neg fun hsame => ?_))
      have hread := hsha p hp q hq hashed hashed' hhashed hhashed' (Option.some.inj hsame).symm
      have hdurable := hshows p hp q hq hcommits (by rw [hhashed, hhashed', hread])
      exact hchanged m rfl (hdurable.trans halike.restorable.symm)
    · obtain rfl := Option.some.inj hm
      -- the last capture is the workspace at hand, which so has the metadata hashed before it
      have hread : hashed' = hashed := by
        have hstill := halike.hashed
        rw [hhashed', ← heq, hhashed] at hstill
        exact (Except.ok.inj hstill).symm
      rw [houtcome, hread, if_pos rfl]

/-! ## Runs -/

theorem Watch.after_append {before : List Period} :
    Watch.after mode sha (before ++ [p]) = p.turn mode sha (Watch.after mode sha before) := by
  rw [Watch.after, List.foldl_append]
  rfl

theorem committed_after (hundisturbed : ∀ p ∈ periods, p.configured = true → p.Undisturbed mode)
    {before later : List Period} (h : periods = before ++ later) :
    (Watch.after mode sha before).Committed sha periods := by
  induction before using List.reverseRecOn generalizing later with
  | nil => exact .inl rfl
  | append_singleton before p ih =>
    rw [List.append_assoc] at h
    rw [Watch.after_append]
    have hp : p ∈ periods := by simp [h]
    exact (ih h).turn hp (hundisturbed p hp)

/-- In every run, with a data home in the workspace or a staged one, in which nothing is written
within an interval, no mirror writes anything new and no write goes unseen, every interval attempts
a checkpoint exactly when the durable state has changed. -/
theorem attempts_exactly {mode : Staging.Mode} {sha : List Live.Line → Digest}
    {periods : List Period}
    (hundisturbed : ∀ p ∈ periods, p.configured = true → p.Undisturbed mode)
    (hshows : Shows mode periods)
    (hsha : Collisionless sha periods) : EachPeriod mode sha periods (Period.Exact mode sha) := by
  intro before p later h hconfigured
  have hp : p ∈ periods := by simp [h]
  exact (hundisturbed p hp hconfigured).exact hp hconfigured
    (committed_after hundisturbed h) hshows hsha

/-! ## A sandbox at rest -/

namespace Period

def restingNodes : Dict Path Node :=
  [([], .directory 0o755 0), (["home"].map Str.ofString, .directory 0o700 0),
    (kiroDirectory, .directory 0o700 1),
    (kirocrewHome, .directory 0o700 2), (["user"].map Str.ofString, .directory 0o755 3)]

def resting : Moment where
  workspace := Tree.ofNodes restingNodes (by decide)
  home := Tree.ofNodes [([], .directory 0o700 2)] (by decide)

/-- A note is written. -/
def noted : Moment where
  workspace :=
    Tree.ofNodes (restingNodes ++ [(["user", "notes"].map Str.ofString, .file 0o644 4 [118, 49])])
      (by decide)
  home := resting.home

/-- Nothing changes from the decision on, and the checkpoint commits. -/
def calm (m : Moment) (mirroredAt : Int) : Period where
  configured := true
  now := m
  live := m.still
  paused := m
  mirroredAt := mirroredAt
  commits := true

/-- Fingerprints told apart by their times. -/
def timesDigest (lines : List Live.Line) : Digest :=
  lines.map fun line => Char.ofNat (48 + line.mtimeNs.toNat)

theorem calm_steady : (calm resting 10).live.steady = true ∧ (calm noted 30).live.steady =
    true := by decide +kernel

theorem noted_visible : resting.still.hashed ≠ noted.still.hashed ∧
    resting.still.hashed.map timesDigest ≠ noted.still.hashed.map timesDigest := by decide +kernel

theorem calm_undisturbed {m : Moment} {mirroredAt : Int}
    (h : (calm m mirroredAt).live.steady = true) :
    (calm m mirroredAt).Undisturbed .direct where
  walked := rfl
  steady := h
  captured := fun _ => ⟨rfl, rfl⟩

end Period

open Period in
/-- Two idle intervals, then one after a change, with the data home in the workspace. -/
theorem attempts_exactly_noted :
    EachPeriod .direct timesDigest [calm resting 10, calm resting 20, calm noted 30]
    (Period.Exact .direct timesDigest) := by
  have hmoment : ∀ p ∈ [calm resting 10, calm resting 20, calm noted 30], p.now = resting ∨
      p.now = noted := by
    simp [calm]
  refine attempts_exactly ?_ ?_ ?_
  · intro p hp _
    simp only [List.mem_cons, List.not_mem_nil, or_false] at hp
    rcases hp with rfl | rfl | rfl
    · exact calm_undisturbed calm_steady.1
    · exact calm_undisturbed calm_steady.1
    · exact calm_undisturbed calm_steady.2
  · intro p hp q hq _ hhashed
    rcases hmoment p hp with heq | heq <;> rcases hmoment q hq with heq' | heq' <;>
      rw [heq, heq'] at hhashed ⊢
    · rfl
    · exact absurd hhashed noted_visible.1
    · exact absurd hhashed.symm noted_visible.1
    · rfl
  · intro p hp q hq hashed hashed' hhashed hhashed' hsame
    have hdigest : p.now.still.hashed.map timesDigest = q.now.still.hashed.map timesDigest := by
      rw [hhashed, hhashed']
      exact congrArg Except.ok hsame
    rcases hmoment p hp with heq | heq <;> rcases hmoment q hq with heq' | heq' <;>
      rw [heq] at hhashed hdigest <;> rw [heq'] at hhashed' hdigest
    · exact Except.ok.inj (hhashed.symm.trans hhashed')
    · exact absurd hdigest noted_visible.2
    · exact absurd hdigest.symm noted_visible.2
    · exact Except.ok.inj (hhashed.symm.trans hhashed')

open Period in
/-- With a staged data home the mirror of the first checkpoint is taken for a change at the second,
idle interval. -/
theorem idle_staged_attempted :
    ¬ EachPeriod .staged timesDigest [calm resting 10, calm (resting.flushed .staged 10) 20]
    (Period.Exact .staged timesDigest) := by
  intro h
  have hfirst : ((calm resting 10).interval.turn timesDigest none).1 = .attempted true := by
    decide +kernel
  have hsecond : (calm (resting.flushed .staged 10) 20).outcome timesDigest
    (Watch.after .staged timesDigest [calm resting 10]) =
      some (.attempted true) := by decide +kernel
  have hcaptured : (Watch.after .staged timesDigest [calm resting 10]).captured =
      some (resting.flushed .staged 10) := by
    show (if ((calm resting 10).interval.turn timesDigest none).1 = .attempted true then
      some (resting.flushed .staged 10)
      else none) = _
    rw [if_pos hfirst]
  have hskipped := (h [calm resting 10] _ [] rfl rfl).unchanged _ hcaptured rfl
  rw [hsecond] at hskipped
  cases hskipped

end KiroCrew
