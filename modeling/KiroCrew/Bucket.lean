import KiroCrew.Lib.Bytes
import KiroCrew.Lib.JsonText
import KiroCrew.RoundTrip

/-!
# The checkpoint store over raw objects

`BrokeredCheckpointStore` over the objects of one sandbox prefix as the bytes they are, whoever
wrote them. The broker signs only canonical names (`12.json.enc`), so a manifest or a commit is kept
under its number. Reading can fail at every object; which exception that is decides what becomes of
a restore. What the store itself wrote is read back: `readCommit_payload`, `getManifest_payload`.
-/

open Bytes (loads loads_ascii)

namespace KiroCrew

open Json (Value)

/-- What the operations of the store raise. -/
inductive StoreError
  /-- The object does not exist. -/
  | notFound
  /-- The conditional put met an object (412). -/
  | exists
  /-- `JSONDecodeError` or `UnicodeDecodeError` -/
  | json
  /-- The `ValueError` or `RecursionError` of `json.loads`. -/
  | limit (limit : Json.Limit)
  | integrity (message : String)
  | checkpoint (message : String)
deriving DecidableEq, Repr

structure EncryptedBlob where
  digest : Str
  ciphertext : Bytes
deriving DecidableEq

structure CommittedGeneration where
  generation : Nat
  manifestDigest : Digest
  /-- In microseconds. -/
  committedAt : ℤ
deriving DecidableEq, Repr

/-- `datetime.fromisoformat`, which reads more texts than `DateTime.fromisoformat`; that it reads
what `isoformat` prints is all that is used. -/
structure IsoFormat where
  read : Str → Option ℤ
  reads : ∀ t : Instant, ∃ micros,
    read ((t.iso.map Char.toNat).flatMap fun c => if c = 90 then Str.ofString "+00:00" else [c]) =
    some micros

/-- The objects under a sandbox prefix. -/
structure Bucket where
  chunks : Dict Digest Bytes := []
  manifests : Dict Nat Bytes := []
  commits : Dict Nat Bytes := []

/-- `json.loads` of an object. -/
def loadsBytes (raw : Bytes) : Option Value := loads (raw.map UInt8.toNat)

/-- The limit that `json.loads` of an object runs into. -/
def exceededBytes (limits : Json.Limits) (raw : Bytes) : Option Json.Limit :=
  (Bytes.decodeJson (raw.map UInt8.toNat)).bind (Json.exceeded limits)

theorem exceededBytes_unlimited (raw : Bytes) : exceededBytes {} raw = none := by
  unfold exceededBytes
  cases Bytes.decodeJson (raw.map UInt8.toNat) with
  | none => rfl
  | some text => exact Json.exceeded_unlimited text

/-- The bytes of `json.dumps(...).encode()`. -/
def dumpsBytes (v : Value) : Bytes := (Json.dumps v).map UInt8.ofNat

namespace Bucket

/-! ## Reading -/

def commitMalformed : StoreError := .integrity "Commit record is malformed."

/-- A commit record within the limits of `json.loads`. -/
def readRecord (iso : IsoFormat) (generation : Nat) (raw : Bytes) :
    Except StoreError CommittedGeneration :=
  match loadsBytes raw with
  | none => .error .json
  | some (.obj fields) =>
    match ManifestDecoder.digest? (ManifestDecoder.get fields "manifestDigest"),
      ManifestDecoder.get fields "committedAt" with
    | some digest, .str timestamp =>
      if ManifestDecoder.equalsNumber (ManifestDecoder.get fields "generation") generation =
        false then .error commitMalformed
      else
        match iso.read (timestamp.flatMap fun c => if c = 90 then Str.ofString "+00:00"
          else [c]) with
        | none => .error commitMalformed
        | some committedAt =>
          .ok { generation := generation, manifestDigest := digest, committedAt := committedAt }
    | _, _ => .error commitMalformed
  | some _ => .error commitMalformed

/-- One round of the loop in `committed_generations`. -/
def readCommit (iso : IsoFormat) (generation : Nat) (raw : Bytes) (limits : Json.Limits := {}) :
    Except StoreError CommittedGeneration :=
  match exceededBytes limits raw with
  | some limit => .error (.limit limit)
  | none => readRecord iso generation raw

/-- `committed_generations` -/
def committedGenerations (iso : IsoFormat) (b : Bucket) (limits : Json.Limits := {}) :
    Except StoreError (List CommittedGeneration) :=
  (b.commits.mapM fun x =>
      readCommit iso x.1 x.2 limits).map fun commits : List CommittedGeneration =>
    commits.insertionSort fun c c' => c.generation ≤ c'.generation

def manifestMalformed : StoreError := .integrity "Encrypted manifest object is malformed."

/-- A manifest object within the limits of `json.loads`. -/
def readBlob (raw : Bytes) : Except StoreError EncryptedBlob :=
  match loadsBytes raw with
  | some (.obj fields) =>
    match ManifestDecoder.get fields "digest", ManifestDecoder.get fields "ciphertext" with
    | .str digest, .str text =>
      match Base64.decode text with
      | some ciphertext => .ok { digest := digest, ciphertext := ciphertext.map UInt8.ofNat }
      | none => .error manifestMalformed
    | _, _ => .error manifestMalformed
  | _ => .error manifestMalformed

def readManifest (raw : Bytes) (limits : Json.Limits := {}) : Except StoreError EncryptedBlob :=
  match exceededBytes limits raw with
  -- of the two only the `ValueError` is caught
  | some .digits => .error manifestMalformed
  | some .nesting => .error (.limit .nesting)
  | none => readBlob raw

/-- `get_manifest` -/
def getManifest (b : Bucket) (generation : Nat) (limits : Json.Limits := {}) :
    Except StoreError EncryptedBlob :=
  match Dict.get? b.manifests generation with
  | none => .error .notFound
  | some raw => readManifest raw limits

/-- `get_chunk` -/
def getChunk (b : Bucket) (digest : Digest) : Except StoreError Bytes :=
  match Dict.get? b.chunks digest with
  | none => .error .notFound
  | some raw => .ok raw

/-- `next_generation` -/
def nextGeneration (iso : IsoFormat) (b : Bucket) : Except StoreError Nat :=
  (b.committedGenerations iso).map fun committed =>
    (Dict.keys b.manifests).foldl max ((committed.getLast?.map (·.generation)).getD 0) + 1

/-! ## Writing -/

/-- The put of `upload_chunk`. -/
def putChunk (b : Bucket) (digest : Digest) (ciphertext : Bytes) : Bucket :=
  { b with chunks := Dict.set b.chunks digest ciphertext }

def manifestFields (blob : EncryptedBlob) : List (Str × Value) :=
  [(Str.ofString "ciphertext", .str (Base64.encode (blob.ciphertext.map UInt8.toNat))),
    (Str.ofString "digest", .str blob.digest)]

/-- `upload_manifest` -/
def uploadManifest (b : Bucket) (generation : Nat) (blob : EncryptedBlob) :
    Except StoreError Bucket :=
  if (Dict.get? b.manifests generation).isSome then .error .exists
  else .ok { b with
      manifests := b.manifests ++ [(generation, dumpsBytes (.obj (manifestFields blob)))] }

def commitFields (generation : Nat) (manifestDigest : Digest) (committedAt : Instant) :
    List (Str × Value) :=
  [(Str.ofString "committedAt", .str (committedAt.iso.map Char.toNat)),
    (Str.ofString "generation", .int generation),
    (Str.ofString "manifestDigest", .str manifestDigest.text),
    (Str.ofString "schemaVersion", .int 1)]

/-- The put of `commit_generation`. -/
def putCommit (b : Bucket) (generation : Nat) (manifestDigest : Digest) (committedAt : Instant) :
    Except StoreError Bucket :=
  if (Dict.get? b.commits generation).isSome then .error .exists
  else .ok { b with
      commits := b.commits ++ [(generation,
    dumpsBytes (.obj (commitFields generation manifestDigest committedAt)))] }

/-- The first check of `commit_generation`: the stored manifest has the digest. -/
def checkManifest (b : Bucket) (generation : Nat) (manifestDigest : Digest) :
    Except StoreError Unit :=
  match b.getManifest generation with
  | .error e => .error e
  | .ok blob =>
    if blob.digest = manifestDigest.text then .ok ()
      else .error (.checkpoint "Manifest must exist before generation commit.")

/-- The second: the generation is past every commit. -/
def checkMonotone (iso : IsoFormat) (b : Bucket) (generation : Nat) : Except StoreError Unit :=
  match b.committedGenerations iso with
  | .error e => .error e
  | .ok committed =>
    if committed.getLast?.any fun c => generation ≤ c.generation then
      .error (.checkpoint "Generation commit must advance monotonically.")
    else .ok ()

/-! ## What was written is read -/

variable {b : Bucket} {f : IsoFormat} {g : Nat}

theorem toNat_dumpsBytes {v : Value} (h : v.plain = true) : (dumpsBytes v).map UInt8.toNat =
    Json.dumps v := by
  rw [dumpsBytes, List.map_map]
  refine (List.map_congr_left fun c hc => ?_).trans (List.map_id _)
  have := Json.dumps_ascii v h c hc
  simp [Nat.mod_eq_of_lt (show c < 256 by omega)]

theorem decodeJson_dumps {v : Value} (h : v.plain = true) :
    Bytes.decodeJson ((dumpsBytes v).map UInt8.toNat) = some (Json.dumps v) := by
  rw [toNat_dumpsBytes h]
  exact Bytes.decodeJson_ascii (Json.dumps_ascii v h)

theorem loadsBytes_dumps {v : Value} (h : v.plain = true) : loadsBytes (dumpsBytes v) = some v := by
  rw [loadsBytes, toNat_dumpsBytes h, loads_ascii (Json.dumps_ascii v h), Json.loads_dumps h]

theorem get_commit {d : Digest} {t : Instant} :
    ManifestDecoder.get (commitFields g d t) "manifestDigest" = .str d.text ∧
      ManifestDecoder.get (commitFields g d t) "committedAt" = .str (t.iso.map Char.toNat) ∧
      ManifestDecoder.get (commitFields g d t) "generation" = .int g := by
  simp [ManifestDecoder.get, Value.get, commitFields, Str.ofString_inj]

/-- A commit record of the store is read as what it says. -/
theorem readCommit_payload {d : Digest} {t : Instant} (hd : isDigest d = true) :
    ∃ c, readCommit f g (dumpsBytes (.obj (commitFields g d t))) = .ok c ∧ c.generation = g ∧
    c.manifestDigest = d := by
  obtain ⟨micros, hmicros⟩ := f.reads t
  have hplain : (Value.obj (commitFields g d t)).plain = true := by
    simp [commitFields, Value.plain, Json.plainFields, Str.safe_ofString, Str.safe_map_toNat,
      Digest.text]
  obtain ⟨hdigest, htime, hgeneration⟩ := get_commit (g := g) (d := d) (t := t)
  have hnumber : ManifestDecoder.equalsNumber (.int g) g = true := by
    simp [ManifestDecoder.equalsNumber, Value.number]
  refine ⟨⟨g, d, micros⟩, ?_, rfl, rfl⟩
  rw [readCommit, exceededBytes_unlimited]
  dsimp only
  rw [readRecord, loadsBytes_dumps hplain]
  simp only [hdigest, htime, hgeneration, ManifestDecoder.digest?_text hd, hnumber,
    Bool.true_eq_false, if_false, hmicros]

theorem readManifest_payload {blob : EncryptedBlob} (h : blob.digest.safe = true) :
    readManifest (dumpsBytes (.obj (manifestFields blob))) = .ok blob := by
  have hbytes : ∀ x ∈ blob.ciphertext.map UInt8.toNat, x < 256 := by
    intro x hx
    obtain ⟨c, -, rfl⟩ := List.mem_map.1 hx
    exact c.toNat_lt
  have hplain : (Value.obj (manifestFields blob)).plain = true := by
    have hsafe : Str.safe (Base64.encode (blob.ciphertext.map UInt8.toNat)) = true := by
      refine List.all_eq_true.2 fun c hc => ?_
      have := Base64.isText_encode hbytes c hc
      simp only [Str.isHigh, Bool.and_eq_true, decide_eq_true_eq, Bool.not_eq_true',
        decide_eq_false_iff_not]
      omega
    simp [manifestFields, Value.plain, Json.plainFields, Str.safe_ofString, hsafe, h]
  have hdigest : ManifestDecoder.get (manifestFields blob) "digest" = .str blob.digest := by
    simp [ManifestDecoder.get, Value.get, manifestFields]
  have hciphertext : ManifestDecoder.get (manifestFields blob) "ciphertext" =
      .str (Base64.encode (blob.ciphertext.map UInt8.toNat)) := by
    simp [ManifestDecoder.get, Value.get, manifestFields, Str.ofString_inj]
  have hback : (blob.ciphertext.map UInt8.toNat).map UInt8.ofNat = blob.ciphertext := by
    rw [List.map_map]
    exact (List.map_congr_left fun c _ => by simp).trans (List.map_id _)
  simp only [readManifest, exceededBytes_unlimited, readBlob, loadsBytes_dumps hplain, hdigest,
    hciphertext, Base64.decode_encode hbytes, hback]

end Bucket

end KiroCrew
