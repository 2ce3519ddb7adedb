import KiroCrew.Lib.Dict
import KiroCrew.Lib.Json
import KiroCrew.Policy
import KiroCrew.Receipt

/-!
# Building a manifest

`ManifestBuilder.build` visits the paths of the workspace and records an entry for each directory,
symbolic link and regular file the policy includes. A file whose stamp is the remembered one keeps
its remembered entry and is not read; otherwise it is read in pieces, each piece a chunk under its
digest. What one visit observes of its path is an argument (`Visit`), so nothing ties the metadata
to the bytes read after it. SHA-256 is a parameter: `Sha256` is any function to 64 hex digits.
-/

namespace KiroCrew

abbrev Bytes := List UInt8

/-- `stat.S_IMODE`: permission bits. -/
abbrev Mode := Fin 4096

instance Mode.neZero : NeZero 4096 := ⟨by decide⟩

structure Sha256 where
  hexdigest : Bytes → Digest
  isDigest : ∀ data, isDigest (hexdigest data) = true

inductive EntryType
  | file | directory | symlink
deriving DecidableEq, Repr

def EntryType.value : EntryType → Str
  | .file => Str.ofString "file"
  | .directory => Str.ofString "directory"
  | .symlink => Str.ofString "symlink"

structure ManifestEntry where
  path : Str
  type : EntryType
  mode : Mode
  mtimeNs : Int
  size : Nat
  digest : Option Digest
  chunks : List Digest
  symlinkTarget : Option Str
deriving DecidableEq, Repr

def Digest.text (d : Digest) : Str := d.map Char.toNat

/-- `as_dict`, its keys in the order `sort_keys` prints them. -/
def ManifestEntry.fields (e : ManifestEntry) : List (Str × Json.Value) :=
  (if e.chunks = [] then []
    else [(Str.ofString "chunks", .arr (e.chunks.map fun d => .str d.text))]) ++
    (match e.digest with
      | none => []
      | some d => [(Str.ofString "digest", .str d.text)]) ++
    [(Str.ofString "mode", .int e.mode.val), (Str.ofString "mtimeNs", .int e.mtimeNs),
      (Str.ofString "path", .str e.path),
      (Str.ofString "size", .int e.size)] ++
    (match e.symlinkTarget with
      | none => []
      | some target => [(Str.ofString "symlinkTarget", .str target)]) ++
    [(Str.ofString "type", .str e.type.value)]

def ManifestEntry.asDict (e : ManifestEntry) : Json.Value := .obj e.fields

def persistenceCategories : List Str :=
  ["configuration", "agents", "workspace-projects", "memory", "knowledge", "artifacts", "skills",
    "conversation-session-metadata", "scheduled-jobs", "kiro-credential-state",
    "user-durable-state"].map Str.ofString

def manifestSchemaVersion : Nat := 1

structure PersistenceManifest where
  schemaVersion : Nat
  generation : Nat
  sandboxId : Str
  createdAt : Str
  entries : List ManifestEntry
deriving DecidableEq, Repr

def PersistenceManifest.fields (m : PersistenceManifest) : List (Str × Json.Value) :=
  [(Str.ofString "categories", .arr (persistenceCategories.map .str)),
    (Str.ofString "createdAt", .str m.createdAt),
    (Str.ofString "entries", .arr (m.entries.map ManifestEntry.asDict)),
    (Str.ofString "generation", .int m.generation),
    (Str.ofString "sandboxId", .str m.sandboxId),
      (Str.ofString "schemaVersion", .int m.schemaVersion)]

def PersistenceManifest.asDict (m : PersistenceManifest) : Json.Value := .obj m.fields

/-- The text is ASCII, so its bytes are its code points. -/
def PersistenceManifest.toJson (m : PersistenceManifest) : Str := Json.dumps m.asDict

/-! ## Builds -/

inductive FileKind
  | regular | directory | symlink | other
deriving DecidableEq, Repr

/-- `os.lstat` -/
structure Metadata where
  kind : FileKind
  mode : Mode
  mtimeNs : Int
  ctimeNs : Int := 0
  inode : Nat := 0
  size : Nat := 0
deriving DecidableEq, Repr

structure FileStamp where
  size : Nat
  mtimeNs : Int
  ctimeNs : Int
  inode : Nat
  mode : Mode
deriving DecidableEq, Repr

def FileStamp.of (metadata : Metadata) : FileStamp where
  size := metadata.size
  mtimeNs := metadata.mtimeNs
  ctimeNs := metadata.ctimeNs
  inode := metadata.inode
  mode := metadata.mode

def racyWindowNs : Int := 2000000000

/-- What one round of the loop in `build` observes: the metadata, the target of a link, the bytes
read from a file. -/
structure Visit where
  path : Path
  metadata : Metadata
  target : Str := []
  data : Bytes := []
deriving DecidableEq, Repr

/-- `_read_chunks`: pieces of `n` bytes, the last one possibly shorter; at most `fuel` of them. -/
def pieces (n : Nat) : Nat → Bytes → List Bytes
  | 0, _ => []
  | fuel + 1, data => if data = [] then [] else data.take n :: pieces n fuel (data.drop n)

def readChunks (n : Nat) (data : Bytes) : List Bytes :=
  if pieces n data.length data = [] then [[]] else pieces n data.length data

abbrev Stamps := Dict Str (FileStamp × ManifestEntry)

structure BuiltManifest where
  manifest : PersistenceManifest
  chunks : Dict Digest Bytes
  stamps : Stamps

structure ManifestBuilder where
  chunkSize : Nat
  chunkSize_pos : 0 < chunkSize
  /-- `_committed` -/
  committed : Stamps := []

structure Progress where
  entries : List ManifestEntry := []
  chunks : Dict Digest Bytes := []
  stamps : Stamps := []

namespace ManifestBuilder

variable (sha : Sha256) (b : ManifestBuilder)

def remember (built : BuiltManifest) : ManifestBuilder := { b with committed := built.stamps }

def forget : ManifestBuilder := { b with committed := [] }

def directoryEntry (v : Visit) : ManifestEntry where
  path := v.path.text
  type := .directory
  mode := v.metadata.mode
  mtimeNs := v.metadata.mtimeNs
  size := 0
  digest := none
  chunks := []
  symlinkTarget := none

/-- `str(path.readlink())` -/
def linkTarget (v : Visit) : Str := (PosixPath.parse v.target).str

def symlinkEntry (v : Visit) (size : Nat) : ManifestEntry where
  path := v.path.text
  type := .symlink
  mode := v.metadata.mode
  mtimeNs := v.metadata.mtimeNs
  size := size
  digest := none
  chunks := []
  symlinkTarget := some (linkTarget v)

def fileEntry (v : Visit) : ManifestEntry where
  path := v.path.text
  type := .file
  mode := v.metadata.mode
  mtimeNs := v.metadata.mtimeNs
  size := v.metadata.size
  digest := some (sha.hexdigest (readChunks b.chunkSize v.data).flatten)
  chunks := (readChunks b.chunkSize v.data).map sha.hexdigest
  symlinkTarget := none

/-- The remembered entry of a file whose stamp has not moved. -/
def reusable (v : Visit) : Option (FileStamp × ManifestEntry) :=
  (Dict.get? b.committed v.path.text).filter fun previous => previous.1 = FileStamp.of v.metadata

/-- One round of the loop in `build`; `none` is the `UnicodeEncodeError` of `target.encode()`. -/
def visit (racyAfter : Int) (acc : Progress) (v : Visit) : Option Progress :=
  if !PersistencePolicy.includes v.path.relative then some acc
  else
    match v.metadata.kind with
    | .directory => some { acc with entries := acc.entries ++ [directoryEntry v] }
    | .symlink =>
      if !safeSymlinkTarget v.path.relative (linkTarget v) then some acc
      else
        (linkTarget v).utf8Length.map fun size =>
          { acc with entries := acc.entries ++ [symlinkEntry v size] }
    | .regular =>
      match reusable b v with
      | some previous =>
        some { acc with
          entries := acc.entries ++ [previous.2]
          stamps := Dict.set acc.stamps v.path.text previous }
      | none =>
        some {
          entries := acc.entries ++ [fileEntry sha b v]
          chunks := (readChunks b.chunkSize v.data).foldl
            (fun chunks data => Dict.setdefault chunks (sha.hexdigest data) data) acc.chunks
          stamps :=
            if v.metadata.mtimeNs < racyAfter ∧ v.metadata.ctimeNs < racyAfter then
              Dict.set acc.stamps v.path.text (FileStamp.of v.metadata, fileEntry sha b v)
            else acc.stamps }
    | .other => some acc

/-- `sorted(entries, key=lambda entry: entry.path)` -/
def sortEntries (entries : List ManifestEntry) : List ManifestEntry :=
  entries.insertionSort fun e e' => e.path ≤ e'.path

def build (visits : List Visit) (now : Int) (generation : Nat) (sandboxId createdAt : Str) :
    Option BuiltManifest :=
  if generation = 0 ∨ sandboxId = [] then none
  else
    (visits.foldlM (visit sha b (now - racyWindowNs)) {}).map fun acc =>
      { manifest :=
          { schemaVersion := manifestSchemaVersion
            generation := generation
            sandboxId := sandboxId
            createdAt := createdAt
            entries := sortEntries acc.entries }
        chunks := acc.chunks
        stamps := acc.stamps }

/-- The builders a process has: fresh, after remembering a build of its own, after forgetting. -/
inductive Reachable : ManifestBuilder → Prop
  | new {chunkSize : Nat} (h : 0 < chunkSize) :
      Reachable { chunkSize := chunkSize, chunkSize_pos := h }
  | remember {b : ManifestBuilder} {visits : List Visit} {now : Int} {generation : Nat}
      {sandboxId createdAt : Str}
      {built : BuiltManifest} (h : Reachable b)
        (hbuild : b.build sha visits now generation sandboxId createdAt = some built) :
      Reachable (b.remember built)
  | forget {b : ManifestBuilder} (h : Reachable b) : Reachable b.forget

end ManifestBuilder

end KiroCrew
