import KiroCrew.Lib.Act
import KiroCrew.Bucket
import KiroCrew.Install
import KiroCrew.Restorable

/-!
# The restore engine

`RestoreEngine` with every exception its calls can raise, over any file system (`Os`): which calls
there succeed is not fixed here. The calls of `_materialize` are a list (`Step`), since what it does
next depends on the manifest and the chunks only. A broker that rejects a request is not modelled.
-/

namespace KiroCrew

open Json (Value)
open Restore (agentcore persistenceJson restoreStage restoreBackup stateDestination dirtyJournal)

/-- The `errno` of an `OSError`, as far as the code looks at it. -/
inductive Errno
  /-- `ENOENT`: a `FileNotFoundError` -/
  | missing
  /-- `EXDEV` -/
  | crossDevice
  /-- `EBUSY` -/
  | busy
  | other
deriving DecidableEq, Repr

structure OSError where
  errno : Errno
  type : Str := Str.ofString "OSError"
  text : Str := []
deriving DecidableEq, Repr

/-- What a restore raises. -/
inductive Raised
  | os (error : OSError)
  | store (error : StoreError)
  /-- `ManifestValidationError` -/
  | validation (message : String)
  /-- `TypeError` -/
  | type
  /-- `ValueError`: a null character, or a character without an encoding -/
  | value
  /-- `OverflowError` -/
  | overflow
  /-- The `ValueError` or `RecursionError` of `json.loads`. -/
  | limit (limit : Json.Limit)
  /-- `RestoreError` -/
  | failed (message : Str)
deriving DecidableEq, Repr

/-- The exceptions the loop over the generations catches. -/
def Raised.caught : Raised → Bool
  | .os _ => true
  | .store .notFound => true
  | .store (.integrity _) => true
  | .validation _ => true
  | _ => false

/-- `f"{type(error).__name__}:{error}"` of a caught exception. -/
def Raised.describe : Raised → Str
  | .os error => error.type ++ [58] ++ error.text
  | .store .notFound => Str.ofString "ObjectNotFoundError:'Durable object does not exist.'"
  | .store (.integrity message) => Str.ofString ("IntegrityError:" ++ message)
  | .validation message => Str.ofString ("ManifestValidationError:" ++ message)
  | _ => []

/-! ## The file system -/

/-- The calls that change something. -/
inductive Call
  | mkdir (p : Path)
  | symlink (target : Str) (p : Path)
  /-- `open(p, "wb")` -/
  | openWrite (p : Path)
  | write (p : Path) (data : Bytes)
  | chmod (p : Path) (mode : Mode)
  | utime (p : Path) (mtimeNs : Int) (followSymlinks : Bool)
  | copystat (source destination : Path) (followSymlinks : Bool)
  /-- `os.replace` -/
  | rename (source destination : Path)
  | unlink (p : Path)
  | rmdir (p : Path)
deriving DecidableEq, Repr

/-- A file system: the calls and the queries on its states. Paths are relative to the workspace. -/
structure Os (W : Type) where
  call : Call → Act W OSError Unit
  iterdir : Path → Act W OSError (List Str)
  read : Path → Act W OSError Bytes
  readlink : Path → Act W OSError Str
  isDir : Path → W → Bool
  isFile : Path → W → Bool
  isSymlink : Path → W → Bool
  exists? : Path → W → Bool
  /-- A bound on the depth of its trees, for the recursions over them. -/
  depth : W → Nat

/-- What a restore does to the workspace. -/
abbrev Effect (W : Type) := Act W Raised

namespace Os

variable {W : Type} (os : Os W)

def does (c : Call) : Effect W Unit := (os.call c).mapError .os

/-- `path.mkdir(exist_ok=True)` -/
def mkdirExistOk (p : Path) : Effect W Unit :=
  (os.does (.mkdir p)).attempt fun e =>
    match e with
    | .os error =>
      if error.errno = .missing then Act.raise e
      else do
        if ← Act.look (os.isDir p) then pure () else Act.raise e
    | e => Act.raise e

/-- `path.mkdir(parents=True, exist_ok=True)` of the reversed path; the workspace is made with its
parents. -/
def mkdirParentsRev : List Str → Effect W Unit
  | [] => os.mkdirExistOk []
  | name :: above =>
    (os.does (.mkdir (name :: above).reverse)).attempt fun e =>
      match e with
      | .os error =>
        if error.errno = .missing then do
          mkdirParentsRev above
          os.mkdirExistOk (name :: above).reverse
        else do
          if ← Act.look (os.isDir (name :: above).reverse) then pure () else Act.raise e
      | e => Act.raise e

def mkdirParents (p : Path) : Effect W Unit := os.mkdirParentsRev p.reverse

/-- `path.mkdir(parents=True)` -/
def mkdirNew (p : Path) : Effect W Unit :=
  (os.does (.mkdir p)).attempt fun e =>
    match e with
    | .os error =>
      if error.errno = .missing then do
        os.mkdirParents p.dropLast
        os.does (.mkdir p)
      else Act.raise e
    | e => Act.raise e

/-- `_remove_tree_tolerating_mounts`, down to a depth. -/
def removeDown : Nat → Path → Effect W Unit
  | 0, _ => pure ()
  | n + 1, p => do
    if (← Act.look (os.isSymlink p)) || (← Act.look (os.isFile p)) then os.does (.unlink p)
    else if ← Act.look (os.exists? p) then do
      let children ← (os.iterdir p).mapError .os
      Act.each (fun child => removeDown n (p ++ [child])) children
      (os.does (.rmdir p)).attempt fun e =>
        match e with
        | .os error => if error.errno = .busy then pure () else Act.raise e
        | e => Act.raise e
    else pure ()

def removeTree (p : Path) : Effect W Unit := fun w => os.removeDown (os.depth w) p w

/-- `shutil.copy2` -/
def copy2 (source destination : Path) : Effect W Unit := do
  let data ← (os.read source).mapError .os
  os.does (.openWrite destination)
  os.does (.write destination data)
  os.does (.copystat source destination true)

/-- What is copied raised: `shutil.copytree` notes an `OSError` and goes on. -/
def noted (x : Effect W Unit) : Effect W Bool :=
  ((x >>= fun _ => pure false) : Effect W Bool).attempt fun e =>
    match e with
    | .os _ => pure true
    | e => Act.raise e

def anyNoted (f : Str → Effect W Unit) : List Str → Effect W Bool
  | [] => pure false
  | name :: names => do
    let failed ← noted (f name)
    let others ← anyNoted f names
    pure (failed || others)

/-- `shutil.Error` -/
def copyError : OSError := { errno := .other, type := Str.ofString "Error" }

/-- `shutil.copytree(..., symlinks=True, dirs_exist_ok=True)`, down to a depth. -/
def copyDown : Nat → Path → Path → Effect W Unit
  | 0, _, _ => pure ()
  | n + 1, source, destination => do
    let children ← (os.iterdir source).mapError .os
    os.mkdirExistOk destination
    let failed ← anyNoted (fun child => do
      if ← Act.look (os.isSymlink (source ++ [child])) then do
        let target ← (os.readlink (source ++ [child])).mapError .os
        os.does (.symlink target (destination ++ [child]))
        os.does (.copystat (source ++ [child]) (destination ++ [child]) false)
      else if ← Act.look (os.isDir (source ++ [child])) then
        copyDown n (source ++ [child]) (destination ++ [child])
      else os.copy2 (source ++ [child]) (destination ++ [child])) children
    let failedStat ← noted (os.does (.copystat source destination true))
    if failed || failedStat then Act.raise (.os copyError) else pure ()

def copytree (source destination : Path) : Effect W Unit := fun w =>
    os.copyDown (os.depth w) source destination w

/-- The part of `_replace_path` after the rename was refused. -/
def moveAcross (source destination : Path) : Effect W Unit := do
  if (← Act.look (os.isDir source)) && !(← Act.look (os.isSymlink source)) then do
    os.copytree source destination
    os.removeTree source
  else do
    Act.when ((← Act.look (os.isSymlink destination)) || (← Act.look (os.exists? destination)))
      (os.does (.unlink destination))
    if ← Act.look (os.isSymlink source) then do
      let target ← (os.readlink source).mapError .os
      os.does (.symlink (PosixPath.parse target).str destination)
      os.does (.unlink source)
    else do
      os.copy2 source destination
      os.does (.unlink source)

/-- `_replace_path` -/
def replacePath (source destination : Path) : Effect W Unit :=
  (os.does (.rename source destination)).attempt fun e =>
    match e with
    | .os error => if error.errno = .crossDevice then os.moveAcross source destination
        else Act.raise e
    | e => Act.raise e

end Os

/-! ## Writing out a manifest -/

/-- Names that `os.fsencode` takes. -/
def isEncodable (s : Str) : Bool :=
  s.all fun c => decide (c ≠ 0) &&
    !(decide (0xD800 ≤ c ∧ c < 0xE000) && !decide (0xDC80 ≤ c ∧ c ≤ 0xDCFF))

/-- The seconds of a time fit `time_t`. -/
def isTime (mtimeNs : Int) : Bool :=
  decide (-(2 ^ 63 : Int) ≤ mtimeNs / 1000000000 ∧ mtimeNs / 1000000000 < 2 ^ 63)

/-- What `_materialize` does next. -/
inductive Step
  | mkdirParents (p : Path)
  | mkdir (p : Path)
  | symlink (target : Str) (p : Path)
  | openWrite (p : Path)
  | write (p : Path) (data : Bytes)
  | chmod (p : Path) (mode : Mode)
  | utime (p : Path) (mtimeNs : Int) (followSymlinks : Bool)
  /-- A chunk could not be fetched, or a file is not what its entry says. -/
  | raise (e : Raised)
deriving DecidableEq, Repr

namespace Step

/-- What Python refuses before it asks the file system. -/
def refused : Step → Option Raised
  | .mkdirParents p => if p.all isEncodable then none else some .value
  | .mkdir p => if p.all isEncodable then none else some .value
  | .symlink target p => if isEncodable target && p.all isEncodable then none else some .value
  | .openWrite p => if p.all isEncodable then none else some .value
  | .write _ _ => none
  | .chmod p _ => if p.all isEncodable then none else some .value
  | .utime p mtimeNs _ =>
    if p.all isEncodable then (if isTime mtimeNs then none else some .overflow) else some .value
  | .raise _ => none

variable {W : Type} (os : Os W)

def call : Step → Effect W Unit
  | .mkdirParents p => os.mkdirParents p
  | .mkdir p => os.mkdirExistOk p
  | .symlink target p => os.does (.symlink target p)
  | .openWrite p => os.does (.openWrite p)
  | .write p data => os.does (.write p data)
  | .chmod p mode => os.does (.chmod p mode)
  | .utime p mtimeNs followSymlinks => os.does (.utime p mtimeNs followSymlinks)
  | .raise e => Act.raise e

def run (s : Step) : Effect W Unit :=
  match s.refused with
  | some r => Act.raise r
  | none => s.call os

end Step

/-- `SandboxCipher`; `aead` is `AESGCM(key).decrypt`, `none` its `InvalidTag`. -/
structure SandboxCipher where
  sha : Sha256
  aead : (nonce ciphertext associatedData : Bytes) → Option Bytes
  sandboxId : SandboxId

namespace SandboxCipher

def associatedData (cipher : SandboxCipher) (digest : Str) : Bytes :=
  (Str.ofString "kirocrew-checkpoint-v1" ++ [0] ++ cipher.sandboxId.text ++ [0] ++
    digest).map UInt8.ofNat

def decrypt (cipher : SandboxCipher) (blob : EncryptedBlob) : Except StoreError Bytes :=
  if blob.ciphertext.length < 13 then .error (.integrity "Encrypted blob is truncated.")
  else
    match cipher.aead (blob.ciphertext.take 12) (blob.ciphertext.drop 12)
      (cipher.associatedData blob.digest) with
    | none => .error (.integrity "Encrypted blob authentication failed.")
    | some plaintext =>
      if (cipher.sha.hexdigest plaintext).text = blob.digest then .ok plaintext
      else .error (.integrity "Encrypted blob digest does not match plaintext.")

end SandboxCipher

structure RestoreEngine (W : Type) where
  os : Os W
  store : Bucket
  cipher : SandboxCipher
  iso : IsoFormat
  runtimeVersion : Str
  now : Instant
  limits : Json.Limits := {}

inductive RestoreOutcome
  | initialized | local | restored | fallback | failed
deriving DecidableEq, Repr

def RestoreOutcome.value : RestoreOutcome → Str
  | .initialized => Str.ofString "initialized"
  | .local => Str.ofString "local"
  | .restored => Str.ofString "restored"
  | .fallback => Str.ofString "fallback"
  | .failed => Str.ofString "failed"

structure RestoreReport where
  outcome : RestoreOutcome
  generation : Option Nat
  fallbackUsed : Bool
  reasons : List Str
  attemptedGenerations : List Nat
  completedAt : Instant
deriving DecidableEq, Repr

def RestoreReport.asDict (r : RestoreReport) : Value :=
  .obj
    [(Str.ofString "attemptedGenerations", .arr (r.attemptedGenerations.map fun g => .int g)),
      (Str.ofString "completedAt", .str (r.completedAt.iso.map Char.toNat)),
      (Str.ofString "fallbackUsed", .bool r.fallbackUsed),
      (Str.ofString "generation", (r.generation.map fun g : Nat => Value.int g).getD .null),
      (Str.ofString "outcome", .str r.outcome.value),
        (Str.ofString "reasons", .arr (r.reasons.map .str)),
      (Str.ofString "schemaVersion", .int 1)]

structure RestoreConditions where
  managedSessionExpired : Bool := false
  runtimeVersionReset : Bool := false
  localIntegrityOk : Bool := true
deriving DecidableEq, Repr

namespace RestoreEngine

variable {W : Type} (engine : RestoreEngine W)

/-- `_fetch_chunk` -/
def fetchChunk (digest : Digest) : Except StoreError Bytes :=
  match engine.store.getChunk digest with
  | .error error => .error error
  | .ok ciphertext => engine.cipher.decrypt { digest := digest.text, ciphertext := ciphertext }

def contentMismatch : Raised := .store (.integrity "Restored file content does not match manifest.")

/-- The chunks of a file after `written`, and what follows them. -/
def chunkSteps (destination : Path) (e : ManifestEntry) (written : Bytes) : List Digest → List Step
  | [] =>
    if written.length ≠ e.size ∨ some (engine.cipher.sha.hexdigest written) ≠ e.digest then
      [.raise contentMismatch]
    else [.chmod destination e.mode, .utime destination e.mtimeNs true]
  | digest :: digests =>
    match engine.fetchChunk digest with
    | .error error => [.raise (.store error)]
    | .ok chunk => .write destination chunk :: chunkSteps destination e (written ++ chunk) digests

def entrySteps (stage : Path) (e : ManifestEntry) : List Step :=
  let destination := stage ++ (PosixPath.parse e.path).parts
  .mkdirParents destination.dropLast ::
    match e.type with
    | .directory => [.mkdir destination]
    | .symlink =>
      match e.symlinkTarget with
      | none => [.raise (.validation "Symlink target is missing.")]
      | some target => [.symlink target destination, .utime destination e.mtimeNs false]
    | .file => .openWrite destination :: engine.chunkSteps destination e [] e.chunks

def directorySteps (stage : Path) (e : ManifestEntry) : List Step :=
  [.chmod (stage ++ (PosixPath.parse e.path).parts) e.mode,
    .utime (stage ++ (PosixPath.parse e.path).parts) e.mtimeNs true]

def materializeSteps (stage : Path) (entries : List ManifestEntry) : List Step :=
  entries.flatMap (engine.entrySteps stage) ++
    (entries.filter (·.type = .directory)).reverse.flatMap (directorySteps stage)

/-- `_materialize` -/
def materialize (stage : Path) (entries : List ManifestEntry) : Effect W Unit :=
  Act.each (Step.run engine.os) (engine.materializeSteps stage entries)

/-- The text of the state file. -/
def stateText (committed : CommittedGeneration) : Bytes :=
  (Json.dumps (.obj
    [(Str.ofString "generation", .int committed.generation),
      (Str.ofString "manifestDigest", .str committed.manifestDigest.text),
      (Str.ofString "runtimeVersion", .str engine.runtimeVersion),
      (Str.ofString "schemaVersion", .int 1)]) ++ [10]).map UInt8.ofNat

/-- `path.write_bytes` and a `chmod` to `0o600`. -/
def writePrivate (p : Path) (data : Bytes) : Effect W Unit := do
  engine.os.does (.openWrite p)
  engine.os.does (.write p data)
  engine.os.does (.chmod p 0o600)

def writeState (root : Path) (committed : CommittedGeneration) : Effect W Unit := do
  engine.os.mkdirParents (root ++ stateDestination).dropLast
  engine.writePrivate (root ++ stateDestination) (engine.stateText committed)

/-! ## Installing -/

/-- What `_install` remembers for its rollback. -/
structure Moves where
  stateBackedUp : Bool := false
  moved : List Str := []
  installed : List Str := []
deriving DecidableEq, Repr

/-- The body of the `try` in `_install`, with the lists as far as it came. -/
abbrev Installing (W : Type) := Act (W × Moves) Raised

/-- An effect that leaves the lists alone. -/
def lift {α : Type} (x : Effect W α) : Installing W α := fun s => (((x s.1).1, s.2), (x s.1).2)

def note (f : Moves → Moves) : Installing W Unit := fun s => ((s.1, f s.2), .ok ())

/-- One of the two loops. -/
def moveAll (source destination : Path) (remember : Str → Moves → Moves) : List Str →
    Installing W Unit :=
  Act.each fun name =>
    if name = agentcore then pure ()
    else do
      lift (engine.os.replacePath (source ++ [name]) (destination ++ [name]))
      note (remember name)

/-- `sorted(path.iterdir())` -/
def listing (p : Path) : Effect W (List Str) := do
  let names ← (engine.os.iterdir p).mapError .os
  pure (names.insertionSort (· ≤ ·))

def forward : Installing W Unit := do
  Act.when (← lift (Act.look (engine.os.exists? stateDestination))) do
    lift (engine.os.replacePath stateDestination (restoreBackup ++ [persistenceJson]))
    note fun moves => { moves with stateBackedUp := true }
  let entries ← lift (engine.listing [])
  engine.moveAll [] restoreBackup
    (fun name moves => { moves with moved := moves.moved ++ [name] }) entries
  let entries ← lift (engine.listing restoreStage)
  engine.moveAll restoreStage []
    (fun name moves => { moves with installed := moves.installed ++ [name] }) entries
  lift (engine.os.mkdirParents stateDestination.dropLast)
  lift (engine.os.replacePath (restoreStage ++ stateDestination) stateDestination)

/-- The handler of `_install` without its final `raise`. -/
def rollback (moves : Moves) : Effect W Unit := do
  Act.each (fun name => engine.os.removeTree [name]) moves.installed
  Act.each (fun name => do
    let there := (← Act.look (engine.os.isSymlink (restoreBackup ++ [name]))) ||
      (← Act.look (engine.os.exists? (restoreBackup ++ [name])))
    Act.when there do
      engine.os.removeTree [name]
      engine.os.replacePath (restoreBackup ++ [name]) [name]) moves.moved
  Act.when moves.stateBackedUp do
    engine.os.removeTree stateDestination
    engine.os.replacePath (restoreBackup ++ [persistenceJson]) stateDestination

/-- `_install` after the backup was made, up to the end of its `try`. -/
def swap : Effect W Unit := fun w =>
  match engine.forward (w, {}) with
  | ((w', _), .ok _) => (w', .ok ())
  | ((w', moves), .error (.os error)) =>
    (engine.rollback moves >>= fun _ => Act.raise (.os error)) w'
  | ((w', _), .error e) => (w', .error e)

/-- `_install` -/
def install : Effect W Unit := do
  engine.os.mkdirNew restoreBackup
  engine.swap
  engine.os.removeTree dirtyJournal
  engine.os.removeTree restoreBackup

/-! ## Restoring -/

/-- The manifest of a generation: fetched, compared, decrypted and decoded. -/
def readGeneration (committed : CommittedGeneration) : Except Raised PersistenceManifest :=
  match engine.store.getManifest committed.generation engine.limits with
  | .error error => .error (.store error)
  | .ok blob =>
    if blob.digest ≠ committed.manifestDigest.text then
      .error (.store (.integrity "Committed manifest digest does not match object."))
    else
      match engine.cipher.decrypt blob with
      | .error error => .error (.store error)
      | .ok plaintext =>
        match Bytes.decodeJson (plaintext.map UInt8.toNat) with
        | none => .error (.validation "Manifest JSON is invalid.")
        | some text =>
          match ManifestDecoder.decode text engine.cipher.sandboxId.text committed.generation
            engine.limits with
          | .error (.validation message) => .error (.validation message)
          | .error .unhashable => .error .type
          | .error (.limit limit) => .error (.limit limit)
          | .ok manifest => .ok manifest

def makeStage : Effect W Unit := do
  engine.os.mkdirParents []
  engine.os.removeTree restoreStage
  engine.os.removeTree restoreBackup
  engine.os.mkdirParents restoreStage

/-- The `try` of `_restore_generation`. -/
def fillAndInstall (committed : CommittedGeneration) (entries : List ManifestEntry) :
    Effect W Unit := do
  engine.materialize restoreStage entries
  engine.writeState restoreStage committed
  engine.install

/-- `_restore_generation` -/
def restoreGeneration (committed : CommittedGeneration) : Effect W Unit :=
  match engine.readGeneration committed with
  | .error e => Act.raise e
  | .ok manifest => do
    engine.makeStage
    (engine.fillAndInstall committed manifest.entries).always (engine.os.removeTree restoreStage)

def reportPath : Path := [agentcore, Str.ofString "restore-report.json"]
def reportTemporary : Path := [agentcore, Str.ofString "restore-report.tmp"]

def writeReport (report : RestoreReport) : Effect W Unit := do
  engine.os.mkdirParents reportPath.dropLast
  engine.writePrivate reportTemporary ((Json.dumps report.asDict ++ [10]).map UInt8.ofNat)
  engine.os.does (.rename reportTemporary reportPath)

def report (outcome : RestoreOutcome) (generation : Option Nat) (fallbackUsed : Bool)
    (reasons : List Str) (attempts : List Nat) :
    RestoreReport where
  outcome := outcome
  generation := generation
  fallbackUsed := fallbackUsed
  reasons := reasons
  attemptedGenerations := attempts
  completedAt := engine.now

/-- `_local_state` -/
def localState : Effect W (Option ManifestDecoder.Fields) := do
  if ← Act.look (engine.os.isFile stateDestination) then
    (do
      let raw ← (engine.os.read stateDestination).mapError .os
      match exceededBytes engine.limits raw with
      | some limit => Act.raise (.limit limit)
      | none =>
        match loadsBytes raw with
        | some (.obj fields) => pure (some fields)
        | _ => pure none : Effect W (Option ManifestDecoder.Fields)).attempt fun e =>
          match e with
          | .os _ => pure none
          | e => Act.raise e
  else pure none

def versionReset : Str := Str.ofString "runtime-version-reset"

/-- What `_restore_reasons` makes of the state it read. -/
def reasonsOf (latest : CommittedGeneration) (conditions : RestoreConditions)
    (state : Option ManifestDecoder.Fields) : List Str :=
  let reasons :=
    match state with
    | none => [Str.ofString "missing-or-empty-managed-storage"]
    | some fields =>
      (if ManifestDecoder.equalsNumber (ManifestDecoder.get fields "generation")
        latest.generation &&
          ManifestDecoder.equalsStr (ManifestDecoder.get fields "manifestDigest")
          latest.manifestDigest.text then []
        else [Str.ofString "local-generation-mismatch"]) ++
      (if ManifestDecoder.equalsStr (ManifestDecoder.get fields "runtimeVersion")
        engine.runtimeVersion then [] else [versionReset])
  let reasons := if conditions.managedSessionExpired then reasons ++
    [Str.ofString "managed-session-expired"] else reasons
  let reasons := if conditions.runtimeVersionReset && !decide (versionReset ∈ reasons) then
    reasons ++ [versionReset] else reasons
  if conditions.localIntegrityOk then reasons
    else reasons ++ [Str.ofString "local-integrity-failed"]

def restoreReasons (latest : CommittedGeneration) (conditions : RestoreConditions) :
    Effect W (List Str) := do
  let state ← engine.localState
  pure (engine.reasonsOf latest conditions state)

def failureText (generation : Nat) (e : Raised) : Str :=
  (Str.ofString "generation-" ++ Json.decimal generation ++ Str.ofString "-invalid:" ++
    e.describe).take 200

/-- `"; ".join(reasons)` -/
def joinReasons (reasons : List Str) : Str := (Str.ofString "; ").intercalate reasons

/-- The end of the loop: no generation was installed. -/
def giveUp (reasons : List Str) (attempts : List Nat) : Effect W RestoreReport := do
  engine.writeReport (engine.report .failed none false reasons attempts)
  Act.raise (.failed (Str.ofString "PERSISTENCE_RESTORE_FAILED " ++ joinReasons reasons))

/-- The loop over the generations, newest first; `attempts` and `reasons` are those before it. -/
def tryGenerations (attempts : List Nat) (reasons : List Str) : List CommittedGeneration →
    Effect W RestoreReport
  | [] => engine.giveUp reasons attempts
  | committed :: rest => fun w =>
    match engine.restoreGeneration committed w with
    | (w', .ok _) =>
      let fallback := !attempts.isEmpty
      let report := engine.report (if fallback then .fallback else .restored)
        (some committed.generation) fallback reasons
        (attempts ++ [committed.generation])
      (engine.writeReport report >>= fun _ => pure report) w'
    | (w', .error e) =>
      if e.caught then
        tryGenerations (attempts ++ [committed.generation])
          (reasons ++ [failureText committed.generation e]) rest w'
      else (w', .error e)

/-- `restore` -/
def restore (existingSandbox : Bool) (conditions : RestoreConditions) : Effect W RestoreReport :=
  match engine.store.committedGenerations engine.iso engine.limits with
  | .error error => Act.raise (.store error)
  | .ok committed =>
    match committed.getLast? with
    | none =>
      if existingSandbox then do
        engine.writeReport (engine.report .failed none false [Str.ofString "no-retained-generation"]
          [])
        Act.raise (.failed (Str.ofString "PERSISTENCE_RESTORE_FAILED"))
      else do
        let report := engine.report .initialized none false [Str.ofString "new-sandbox"] []
        engine.os.mkdirParents []
        engine.writeReport report
        pure report
    | some latest => do
      let reasons ← engine.restoreReasons latest conditions
      if reasons = [] then do
        let report := engine.report .local (some latest.generation) false [] []
        engine.writeReport report
        pure report
      else engine.tryGenerations [] reasons (committed.reverse.take 2)

end RestoreEngine

end KiroCrew
