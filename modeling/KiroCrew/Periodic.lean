import KiroCrew.Tree

/-!
# Periodic checkpoints

`workspace_fingerprint` walks the workspace while the gateway runs, one file-system call after
another. `Live` is the workspace as it is at each of these calls, so files come and go between them,
and any call may fail: the walk lists what it sees (pathlib passes over a directory it cannot scan),
then every included path is stat'ed again and its name encoded. A look at a root, a directory that
cannot be read to its end, the `lstat` and the encoding can raise (`WalkError`).
`run_periodic_checkpoints` calls it outside of any guard, so the error ends the task, and
`shutdown`, which awaits the task, raises it again before `checkpoint_on_shutdown`.
`loop_survives_iff` says when none of this happens.
-/

namespace KiroCrew

structure Live where
  tree : Nat → Tree
  /-- Where a link leads: nowhere, or whether to a directory. -/
  target : Nat → Path → Option Bool
  /-- The `errno` of a call that fails: a path or a link target is too long, a directory may not be
  searched. -/
  fails : Nat → Path → Option Nat := fun _ _ => none
  /-- The `errno` where an open directory cannot be read to its end. -/
  breaks : Nat → Path → Option Nat := fun _ _ => none

inductive WalkError
  | fileNotFound (p : Path)
  | os (errno : Nat) (p : Path)
  | unicodeEncode (p : Path)
deriving DecidableEq, Repr

/-- `PATH_MAX`: no path of so many names can be scanned. -/
def pathMax : Nat := 4096

namespace Live

variable (live : Live)

/-! ## The walk -/

/-- What `exists`, `is_dir` and `is_symlink` raise at call `k`. -/
def refused (k : Nat) (p : Path) : List WalkError :=
  match live.fails k p with
  | some errno => if saysAbsent errno then [] else [.os errno p]
  | none => []

/-- The answer of a look at call `k`; of one that raises it does not matter. -/
def look (k : Nat) (p : Path) (answer : Bool) : Bool := (live.fails k p).isNone && answer

/-- `path.exists()` at call `k`. -/
def exists? (k : Nat) (p : Path) : Bool :=
  live.look k p <|
    match (live.tree k).node p with
    | none => false
    | some (.symlink _ _ _) => (live.target k p).isSome
    | some _ => true

/-- `path.is_symlink()` -/
def isSymlink (k : Nat) (p : Path) : Bool :=
  live.look k p <|
    match (live.tree k).node p with
    | some (.symlink _ _ _) => true
    | _ => false

/-- `path.is_dir()` -/
def isDir (k : Nat) (p : Path) : Bool :=
  live.look k p <|
    match (live.tree k).node p with
    | some (.directory _ _) => true
    | some (.symlink _ _ _) => live.target k p = some true
    | _ => false

/-- `scandir`; nothing when it fails. -/
def scandir (k : Nat) (p : Path) : List Path :=
  if live.isDir k p && (live.breaks k p).isNone then
    (live.tree k).names.dedup.filter fun q =>
      decide (q ≠ []) && q.dropLast = p && ((live.tree k).node q).isSome
  else []

/-- The entries of a scan that are directories and no links. -/
def dirnames (k : Nat) (p : Path) : List Path :=
  (live.scandir k p).filter fun q => ((live.tree k).node q).any Node.isDirectory

/-- What `Path.walk` raises at its scan: it passes over a directory it cannot open, and only over
that. -/
def torn (k : Nat) (p : Path) : List WalkError :=
  if live.isDir k p then (live.breaks k p).toList.map (.os · p) else []

/-- `Path.walk` below `p` as `rglob` runs it: `p` is scanned for its directories, each of these is
scanned for its entries, then each is walked. With the number of calls made so far and what they
raised. -/
def below : Nat → Path → Nat → List Path × Nat × List WalkError
  | 0, _, k => ([], k + 1, [])
  | depth + 1, p, k =>
    let dirs := live.dirnames k p
    dirs.foldl (fun (listed, k, raised) d =>
        let (more, k, raised') := below depth d k
        (listed ++ more, k, raised ++ raised'))
      ((dirs.mapIdx fun i d => live.scandir (k + 1 + i) d).flatten, k + 1 + dirs.length,
        live.torn k p)

/-- `p.rglob("*")` -/
def rglob (p : Path) (k : Nat) : List Path × Nat × List WalkError :=
  if live.isDir k p then
    let (listed, k', raised) := live.below pathMax p (k + 2)
    (live.scandir (k + 1) p ++ listed, k', live.refused k p ++ raised)
  else ([], k + 1, live.refused k p)

def walkRoot (root : Path) (k : Nat) : List Path × Nat × List WalkError :=
  let (present, k, raised) :=
    if live.exists? k root then (true, k + 1, live.refused k root)
    else (live.isSymlink (k + 1) root, k + 2, live.refused k root ++ live.refused (k + 1) root)
  if present then
    let (descend, k, raised) :=
      if live.isDir k root then
        (!live.isSymlink (k + 1) root, k + 2, raised ++ live.refused k root ++ live.refused
          (k + 1) root)
      else (false, k + 1, raised ++ live.refused k root)
    if descend then
      let (listed, k, raised') := live.rglob root k
      (root :: listed, k, raised ++ raised')
    else ([root], k, raised)
  else ([], k, raised)

/-- `_walk_included_roots`, the calls it made, and what they raised: the first of that ends the
walk. -/
def walk : List Path × Nat × List WalkError :=
  if live.exists? 0 [] then
    let (paths, k, raised) := PersistencePolicy.roots.foldl
      (fun (paths, k, raised) root =>
        let (more, k, raised') := live.walkRoot root k
        (paths ++ more, k, raised ++ raised')) ([], 1, live.refused 0 [])
    (paths.dedup.insertionSort (· ≤ ·), k, raised)
  else ([], 1, live.refused 0 [])

/-! ## The fingerprint -/

structure Line where
  name : Str
  kind : FileKind
  mode : Mode
  mtimeNs : Int
  size : Nat
deriving DecidableEq

/-- `path.lstat()` at call `k`. -/
def lstat (k : Nat) (p : Path) : Except WalkError Node :=
  match live.fails k p, (live.tree k).node p with
  | some errno, _ => .error (.os errno p)
  | none, none => .error (.fileNotFound p)
  | none, some n => .ok n

/-- The loop of `workspace_fingerprint` over the listed paths. -/
def lines : List Path → Nat → Except WalkError (List Line)
  | [], _ => .ok []
  | p :: ps, k =>
    if PersistencePolicy.includes p.relative then
      match live.lstat k p with
      | .error e => .error e
      | .ok n =>
        if p.text.utf8Length = none then .error (.unicodeEncode p)
        else (lines ps (k + 1)).map (⟨p.text, n.kind, n.mode, n.mtimeNs, n.size⟩ :: ·)
    else lines ps k

/-- What `workspace_fingerprint` hashes. -/
def hashed : Except WalkError (List Line) :=
  match live.walk with
  | (_, _, e :: _) => .error e
  | (paths, k, []) => live.lines paths k

/-- `workspace_fingerprint`; `sha` is the digest of the hashed lines. -/
def fingerprint (sha : List Line → Digest) : Except WalkError Digest := live.hashed.map sha

/-- The path is there and can be reached at call `k`, and its name is UTF-8. -/
def named (k : Nat) (p : Path) : Bool :=
  (live.fails k p).isNone && ((live.tree k).node p).isSome && p.text.utf8Length.isSome

/-- No look of the walk is refused and no directory breaks off under it, and every included path it
has listed is still there when it is stat'ed, and its name is UTF-8. -/
def steady : Bool :=
  live.walk.2.2.isEmpty &&
    ((live.walk.1.filter fun p => PersistencePolicy.includes p.relative).zipIdx live.walk.2.1).all
      fun (p, k) => live.named k p

theorem lstat_isOk (k : Nat) (p : Path) :
    (live.lstat k p).isOk = ((live.fails k p).isNone && ((live.tree k).node p).isSome) := by
  unfold lstat
  cases live.fails k p <;> cases (live.tree k).node p <;> rfl

theorem lines_isOk (ps : List Path) (k : Nat) : (live.lines ps k).isOk =
    ((ps.filter fun p => PersistencePolicy.includes p.relative).zipIdx k).all
      fun (p, k) => live.named k p := by
  induction ps generalizing k with
  | nil => rfl
  | cons p ps ih =>
    by_cases hp : PersistencePolicy.includes p.relative = true
    · have hlstat := live.lstat_isOk k p
      simp only [lines, hp, if_true, List.filter_cons_of_pos, List.zipIdx_cons,
        List.all_cons, named,
        ← hlstat]
      cases hn : live.lstat k p with
      | error e => rfl
      | ok n =>
        cases hu : p.text.utf8Length with
        | none => simp [Except.isOk, Except.toBool]
        | some m =>
          have hrest := ih (k + 1)
          simp only [named] at hrest
          rw [← hrest]
          cases live.lines ps (k + 1) <;> simp [Except.map, Except.isOk, Except.toBool]
    · have hfilter : ((p :: ps).filter fun p => PersistencePolicy.includes p.relative) =
          ps.filter fun p => PersistencePolicy.includes p.relative := by
        simp [hp]
      rw [hfilter, ← ih k]
      simp only [lines, hp]
      rfl

theorem hashed_isOk : live.hashed.isOk = live.steady := by
  rw [steady, ← lines_isOk, hashed]
  rcases live.walk with ⟨paths, k, raised⟩
  cases raised <;> rfl

/-- A fingerprint raises exactly when the workspace is not steady under it. -/
theorem fingerprint_isOk (sha : List Line → Digest) : (live.fingerprint sha).isOk =
    live.steady := by
  rw [← hashed_isOk, fingerprint]
  cases live.hashed <;> rfl

end Live

/-! ## The loop -/

/-- One interval: whether a checkpoint engine is configured and the sandbox writable, the workspace
while it is fingerprinted, and whether a checkpoint attempt commits. -/
structure Interval where
  configured : Bool
  live : Live
  commits : Bool

inductive Outcome
  | skipped
  | attempted (committed : Bool)
  | raised (e : WalkError)
deriving DecidableEq, Repr

/-- The task: in its loop with `last_committed`, or ended by an exception. -/
inductive Loop
  | running (lastCommitted : Option Digest)
  | dead (e : WalkError)
deriving DecidableEq, Repr

variable (sha : List Live.Line → Digest)

/-- One turn of the loop after its sleep. `_durability_checkpoint` raises nothing. -/
def Interval.turn (lastCommitted : Option Digest) (i : Interval) : Outcome × Loop :=
  if i.configured then
    match i.live.fingerprint sha with
    | .error e => (.raised e, .dead e)
    | .ok current =>
      if lastCommitted = some current then (.skipped, .running lastCommitted)
      else if i.commits then (.attempted true, .running (some current))
      else (.attempted false, .running lastCommitted)
  else (.skipped, .running lastCommitted)

/-- `run_periodic_checkpoints` over the intervals to come; a task that has ended takes no turn. -/
def runPeriodicCheckpoints : Loop → List Interval → List Outcome × Loop
  | .dead e, _ => ([], .dead e)
  | .running lastCommitted, [] => ([], .running lastCommitted)
  | .running lastCommitted, i :: intervals =>
    let (outcome, loop) := i.turn sha lastCommitted
    let (outcomes, loop) := runPeriodicCheckpoints loop intervals
    (outcome :: outcomes, loop)

/-! ## Shutdown -/

/-- A background task when it is cancelled. -/
inductive BackgroundTask
  | running | returned | failed
deriving DecidableEq, Repr

def Loop.task : Loop → BackgroundTask
  | .running _ => .running
  | .dead _ => .failed

/-- `shutdown` reaches `checkpoint_on_shutdown`: each task is cancelled and awaited in turn, only
`CancelledError` is suppressed, and awaiting a task that has failed raises its exception. -/
def shutdown : List BackgroundTask → Bool
  | [] => true
  | .failed :: _ => false
  | .running :: tasks | .returned :: tasks => shutdown tasks

theorem shutdown_eq_true {tasks : List BackgroundTask} : shutdown tasks = true ↔
    ∀ t ∈ tasks, t ≠ .failed := by
  induction tasks with
  | nil => simp [shutdown]
  | cons t tasks ih => cases t <;> simp [shutdown, ih]

/-- The loop takes every turn, each ends in a skip or an attempt, and shutdown gets past its
task. -/
structure Survives (intervals : List Interval) (others : List BackgroundTask) : Prop where
  turns : (runPeriodicCheckpoints sha (.running none) intervals).1.length = intervals.length
  outcomes : ∀ o ∈ (runPeriodicCheckpoints sha (.running none) intervals).1, o = .skipped ∨
    ∃ c, o = .attempted c
  shutdown : shutdown (others ++ [(runPeriodicCheckpoints sha (.running none) intervals).2.task]) =
    true

variable {i : Interval} {intervals : List Interval}

theorem Interval.turn_steady (lastCommitted : Option Digest) (h : i.configured = true →
    i.live.steady = true) :
    ((i.turn sha lastCommitted).1 = .skipped ∨ ∃ c, (i.turn sha lastCommitted).1 = .attempted c) ∧
      ∃ last, (i.turn sha lastCommitted).2 = .running last := by
  unfold Interval.turn
  by_cases hc : i.configured = true
  · have hok := i.live.fingerprint_isOk sha
    rw [h hc] at hok
    cases hf : i.live.fingerprint sha with
    | error e => rw [hf] at hok; simp [Except.isOk, Except.toBool] at hok
    | ok current =>
      simp only [hc, if_true]
      by_cases heq : lastCommitted = some current
      · exact ⟨.inl (by simp [heq]), lastCommitted, by simp [heq]⟩
      · cases i.commits with
        | true => exact ⟨.inr ⟨true, by simp [heq]⟩, some current, by simp [heq]⟩
        | false => exact ⟨.inr ⟨false, by simp [heq]⟩, lastCommitted, by simp [heq]⟩
  · simp [hc]

theorem Interval.turn_unsteady (lastCommitted : Option Digest) (hc : i.configured = true)
    (h : i.live.steady = false) :
    ∃ e, i.turn sha lastCommitted = (.raised e, .dead e) := by
  have hok := i.live.fingerprint_isOk sha
  rw [h] at hok
  cases hf : i.live.fingerprint sha with
  | ok current => rw [hf] at hok; simp [Except.isOk, Except.toBool] at hok
  | error e => exact ⟨e, by simp [Interval.turn, hc, hf]⟩

theorem run_steady (lastCommitted : Option Digest) (h : ∀ i ∈ intervals, i.configured = true →
    i.live.steady = true) :
    (runPeriodicCheckpoints sha (.running lastCommitted) intervals).1.length = intervals.length ∧
      (∀ o ∈ (runPeriodicCheckpoints sha (.running lastCommitted) intervals).1, o = .skipped ∨
      ∃ c, o = .attempted c) ∧
      ∃ last, (runPeriodicCheckpoints sha (.running lastCommitted) intervals).2 =
          .running last := by
  induction intervals generalizing lastCommitted with
  | nil => exact ⟨rfl, by simp [runPeriodicCheckpoints], lastCommitted, rfl⟩
  | cons i intervals ih =>
    obtain ⟨houtcome, last, hloop⟩ :=
      Interval.turn_steady sha lastCommitted (h i List.mem_cons_self)
    obtain ⟨hlength, houtcomes, last', hlast⟩ := ih last fun i hi => h i (List.mem_cons_of_mem _ hi)
    simp only [runPeriodicCheckpoints, hloop]
    refine ⟨by simp [hlength], fun o ho => ?_, last', hlast⟩
    rcases List.mem_cons.1 ho with rfl | ho
    · exact houtcome
    · exact houtcomes o ho

theorem run_unsteady (lastCommitted : Option Digest) (hi : i ∈ intervals) (hc : i.configured = true)
    (h : i.live.steady = false) :
    ∃ e, .raised e ∈ (runPeriodicCheckpoints sha (.running lastCommitted) intervals).1 := by
  induction intervals generalizing lastCommitted with
  | nil => simp at hi
  | cons j intervals ih =>
    by_cases hj : j.configured = true → j.live.steady = true
    · obtain ⟨-, last, hloop⟩ := Interval.turn_steady sha lastCommitted hj
      simp only [runPeriodicCheckpoints, hloop]
      have hrest : i ∈ intervals := by
        rcases List.mem_cons.1 hi with rfl | hi
        · rw [hj hc] at h; simp at h
        · exact hi
      obtain ⟨e, he⟩ := ih last hrest
      exact ⟨e, List.mem_cons_of_mem _ he⟩
    · push Not at hj
      obtain ⟨hjc, hjs⟩ := hj
      obtain ⟨e, hturn⟩ := Interval.turn_unsteady sha lastCommitted hjc (by simpa using hjs)
      simp only [runPeriodicCheckpoints, hturn]
      exact ⟨e, List.mem_cons_self⟩

/-- The loop takes every turn and shutdown gets past it if and only if the workspace is steady under
every fingerprint. -/
theorem loop_survives_iff (sha : List Live.Line → Digest) (intervals : List Interval)
    {others : List BackgroundTask}
    (hothers : ∀ t ∈ others, t ≠ .failed) :
    Survives sha intervals others ↔ ∀ i ∈ intervals, i.configured = true →
        i.live.steady = true := by
  constructor
  · intro h i hi hc
    by_contra hs
    obtain ⟨e, he⟩ := run_unsteady sha none hi hc (by simpa using hs)
    rcases h.outcomes _ he with heq | ⟨c, heq⟩ <;> simp at heq
  · intro h
    obtain ⟨hlength, houtcomes, last, hlast⟩ := run_steady sha none h
    refine ⟨hlength, houtcomes, ?_⟩
    rw [shutdown_eq_true, hlast]
    intro t ht
    rcases List.mem_append.1 ht with ht | ht
    · exact hothers t ht
    · rw [List.mem_singleton.1 ht]
      simp [Loop.task]

/-! ## Two workspaces -/

namespace Periodic

def reportNodes : Dict Path Node :=
  [([], .directory 0o755 0), (["user"].map Str.ofString, .directory 0o755 1),
    (["user", "report.txt"].map Str.ofString, .file 0o644 2 [118, 49])]

/-- `user/report.txt`, left alone. -/
def report : Live where
  tree := fun _ => Tree.ofNodes reportNodes (by decide)
  target := fun _ _ => none

theorem loop_survives_report : Survives (fun _ => []) [⟨true, report, true⟩, ⟨true, report, false⟩]
    [.running] :=
  (loop_survives_iff (fun _ => []) _ (by decide)).2 (by decide +kernel)

def latinNodes : Dict Path Node :=
  [([], .directory 0o755 0), (["user"].map Str.ofString, .directory 0o755 1),
    ([Str.ofString "user", [0xDCFF]], .file 0o644 2 [])]

/-- A file whose name is the one byte `0xFF`. -/
def latin : Live where
  tree := fun _ => Tree.ofNodes latinNodes (by decide)
  target := fun _ _ => none

/-- The report is renamed away after the walk has listed it. -/
def renamed : Live where
  tree k :=
    if k < report.walk.2.1 then report.tree k else Tree.ofNodes (reportNodes.take 2) (by decide)
  target := fun _ _ => none

example : renamed.fingerprint (fun _ => []) =
    .error (.fileNotFound (["user", "report.txt"].map Str.ofString)) := by
  decide +kernel

/-- One file name that is not UTF-8 ends the loop in its first interval. -/
theorem name_ends_loop :
    ¬ ∀ (sha : List Live.Line → Digest) (intervals : List Interval) (others : List BackgroundTask),
    (∀ t ∈ others, t ≠ .failed) → Survives sha intervals others := by
  intro h
  have hshutdown := (h (fun _ => []) [⟨true, latin, true⟩] [] (by simp)).shutdown
  revert hshutdown
  decide +kernel

end Periodic

end KiroCrew
