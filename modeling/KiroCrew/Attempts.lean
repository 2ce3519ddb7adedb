import KiroCrew.Lib.Machine
import KiroCrew.Build
import KiroCrew.Store

/-!
# Checkpoint attempts

Any number of processes, each with a `ManifestBuilder` and a `BrokeredCheckpointStore`, make
attempts (`CheckpointEngine.checkpoint`) at one sandbox prefix. Every question, put and answer of an
attempt is an action of its own. A put is first a request; it takes effect when it is delivered,
which may be before its answer, after the attempt has failed, more than once, or never. An attempt
may fail between any two actions; the uploads its worker threads have begun go on. What a build
observes of the workspace is arbitrary.
-/

namespace KiroCrew

/-- The chunk digests a manifest references. -/
def PersistenceManifest.references (m : PersistenceManifest) : List Digest :=
  m.entries.flatMap (·.chunks)

/-- The digest of the encrypted blob: that of its plaintext. -/
def PersistenceManifest.digest (sha : Sha256) (m : PersistenceManifest) : Digest :=
  sha.hexdigest (m.toJson.map UInt8.ofNat)

namespace Attempts

inductive Request
  | chunk (digest : Digest)
  | manifest (generation : Nat) (m : ManifestObject PersistenceManifest)
  | commit (c : CommitRecord)
deriving DecidableEq

/-- The effect of a request; a conditional put that is refused changes nothing. -/
def Request.apply (o : Objects PersistenceManifest) : Request → Objects PersistenceManifest
  | .chunk digest => o.putChunk digest
  | .manifest generation m => (o.putManifest generation m).getD o
  | .commit c => (o.putCommit c).getD o

inductive Stage
  /-- `_upload_chunks`: the existence questions still to ask. -/
  | asking (rest : List Digest)
  | uploading
  | chunksUploaded
  | manifestSent
  | manifestUploaded
  /-- `commit_generation` has compared the stored digest. -/
  | digestRead
  /-- It has listed the commits. -/
  | commitsRead
  | commitSent
  | generationCommitted
  | remembered
  | failed
deriving DecidableEq, Repr

structure Attempt where
  process : Nat
  built : BuiltManifest
  stage : Stage
  missing : List Digest := []
  sent : List Digest := []
  done : List Digest := []

structure Process where
  builder : ManifestBuilder
  /-- `_known_chunks` -/
  known : Option (List Digest) := none

structure State where
  objects : Objects PersistenceManifest := {}
  requests : List Request := []
  processes : Nat → Process
  attempts : Nat → Option Attempt := fun _ => none

inductive Action
  | ask
  | beginUploads
  | upload (digest : Digest)
  | uploaded (digest : Digest)
  | endUploads
  | sendManifest
  | manifestAnswered
  | readManifest
  | readCommits
  | sendCommit (committedAt : Instant)
  | commitAnswered
  | remember
  | fail

inductive Event
  /-- The checkpoint begins: the manifest is built. -/
  | build (a process : Nat) (visits : List Visit) (now : Int) (generation : Nat)
      (sandboxId createdAt : Str)
  /-- A listing of the chunk prefix returned `listed`. -/
  | list (process : Nat) (listed : List Digest)
  | forget (process : Nat)
  | deliver (r : Request)
  | act (a : Nat) (action : Action)

namespace State

variable (sha : Sha256) (s : State)

def setAttempt (a : Nat) (t : Attempt) : State :=
  { s with attempts := Function.update s.attempts a (some t) }
def setProcess (p : Nat) (process : Process) : State :=
  { s with processes := Function.update s.processes p process }
def send (r : Request) : State := { s with requests := r :: s.requests }

/-- `has_chunk`: answered from the index, or by the broker when there is none. -/
def hasChunk (p : Nat) (digest : Digest) : Bool :=
  match (s.processes p).known with
  | some known => decide (digest ∈ known)
  | none => decide (digest ∈ s.objects.chunks)

/-- `self._known_chunks.add(digest)` -/
def addKnown (p : Nat) (digest : Digest) : State :=
  s.setProcess p { s.processes p with known := (s.processes p).known.map (digest :: ·) }

def act (a : Nat) (t : Attempt) : Action → Option State
  | .ask =>
    match t.stage with
    | .asking (digest :: rest) =>
      some (s.setAttempt a { t with
        stage := .asking rest
        missing := if s.hasChunk t.process digest then t.missing else t.missing ++ [digest] })
    | _ => none
  | .beginUploads =>
    if t.stage = .asking [] then some (s.setAttempt a { t with stage := .uploading }) else none
  | .upload digest =>
    -- a worker that has begun is not stopped by the failure of another
    if (t.stage = .uploading ∨ t.stage = .failed) ∧ digest ∈ t.missing then
      if s.hasChunk t.process digest then some (s.setAttempt a { t with done := digest :: t.done })
      else some ((s.send (.chunk digest)).setAttempt a { t with sent := digest :: t.sent })
    else none
  | .uploaded digest =>
    if (t.stage = .uploading ∨ t.stage = .failed) ∧ digest ∈ t.sent ∧ digest ∈ s.objects.chunks then
      some ((s.addKnown t.process digest).setAttempt a { t with done := digest :: t.done })
    else none
  | .endUploads =>
    if t.stage = .uploading ∧ ∀ digest ∈ t.missing, digest ∈ t.done then
      some (s.setAttempt a { t with stage := .chunksUploaded })
    else none
  | .sendManifest =>
    if t.stage = .chunksUploaded then
      some ((s.send (.manifest t.built.manifest.generation
        ⟨t.built.manifest.digest sha, t.built.manifest⟩)).setAttempt a
        { t with stage := .manifestSent })
    else none
  | .manifestAnswered =>
    if t.stage = .manifestSent ∧
        s.objects.manifest? t.built.manifest.generation =
        some ⟨t.built.manifest.digest sha, t.built.manifest⟩ then
      some (s.setAttempt a { t with stage := .manifestUploaded })
    else none
  | .readManifest =>
    if t.stage = .manifestUploaded ∧
        (s.objects.manifest? t.built.manifest.generation).any
        (·.digest = t.built.manifest.digest sha) then
      some (s.setAttempt a { t with stage := .digestRead })
    else none
  | .readCommits =>
    if t.stage = .digestRead ∧ s.objects.newest.all (· < t.built.manifest.generation) then
      some (s.setAttempt a { t with stage := .commitsRead })
    else none
  | .sendCommit committedAt =>
    if t.stage = .commitsRead then
      some ((s.send (.commit ⟨t.built.manifest.generation, t.built.manifest.digest sha,
        committedAt⟩)).setAttempt a
        { t with stage := .commitSent })
    else none
  | .commitAnswered =>
    if t.stage = .commitSent ∧
        (s.objects.commit? t.built.manifest.generation).any
        (·.manifestDigest = t.built.manifest.digest sha) then
      some (s.setAttempt a { t with stage := .generationCommitted })
    else none
  | .remember =>
    if t.stage = .generationCommitted then
      some ((s.setProcess t.process
        { s.processes t.process with
          builder := (s.processes t.process).builder.remember t.built }).setAttempt a
        { t with stage := .remembered })
    else none
  | .fail => some (s.setAttempt a { t with stage := .failed })

/-- One event; `none` when it cannot happen. -/
def step (s : State) : Event → Option State
  | .build a p visits now generation sandboxId createdAt =>
    match s.attempts a with
    | some _ => none
    | none =>
      ((s.processes p).builder.build sha visits now generation sandboxId createdAt).map fun built =>
        s.setAttempt a { process := p
                         built := built
                         stage := .asking ((Dict.keys built.chunks).insertionSort (· ≤ ·)) }
  | .list p listed =>
    -- begun when there was no index; by now another worker's listing may have set one, which this
    -- one replaces
    if ∀ digest ∈ listed, digest ∈ s.objects.chunks then
      some (s.setProcess p { s.processes p with known := some listed })
    else none
  | .forget p =>
    some (s.setProcess p { s.processes p with builder := (s.processes p).builder.forget })
  | .deliver r => if r ∈ s.requests then some { s with objects := r.apply s.objects } else none
  | .act a action =>
    match s.attempts a with
    | some t => s.act sha a t action
    | none => none

/-- An empty prefix; every process has a fresh builder of its own chunk size. -/
def init (chunkSize : Nat → { n : Nat // 0 < n }) : State where
  processes := fun p =>
    { builder := { chunkSize := (chunkSize p).1, chunkSize_pos := (chunkSize p).2 } }

def Reachable (s : State) : Prop :=
  ∃ chunkSize, Machine.Reaches (step sha) Machine.Any (init chunkSize) s

end State

end Attempts

end KiroCrew
