import KiroCrew.Decode
import KiroCrew.Times
import KiroCrew.Lib.Bytes

/-!
# What the broker signs

`_presign` signs one request for one object of the sandbox, `_presign_batch` one method for many
chunks. An entry of a batch is what `_presign` answers for its name, with the name in front
(`presignBatch_grants`).
-/

namespace KiroCrew

open Json (Value)
open ManifestDecoder (Fields get)

inductive StorageOperation
  | get | put | head
deriving DecidableEq, Repr

def StorageOperation.value : StorageOperation → Str
  | .get => Str.ofString "GET"
  | .put => Str.ofString "PUT"
  | .head => Str.ofString "HEAD"

/-- What `generate_presigned_url` is given. -/
structure SignedRequest where
  clientMethod : Str
  bucket : Str
  key : Str
  /-- `SSEKMSKeyId` and `SSEKMSEncryptionContext`, with `ServerSideEncryption="aws:kms"` -/
  encryption : Option (Str × Str)
  /-- `IfNoneMatch="*"` -/
  writeOnce : Bool
  expiresIn : Nat
  httpMethod : Str
deriving DecidableEq

/-- What the broker finds when it signs: its clock, and all else a signature depends on. -/
structure Signing where
  now : DateTime
  seed : Nat
deriving DecidableEq

/-- The broker for one sandbox. -/
structure Signer where
  bucket : Str
  kmsKeyArn : Str
  sandboxId : Str
  presignedUrl : Signing → SignedRequest → Str

/-- `_URL_TTL`, in seconds -/
def urlTtl : Nat := 300
def maxBatchGrants : Nat := 128

/-- `now + timedelta(seconds=s)`; `none` is the `OverflowError`. -/
def DateTime.addSeconds (t : DateTime) (s : Nat) : Option DateTime :=
  if h : t.micros + s * 1000000 < 315537897600 * 1000000 then some ⟨_, h⟩ else none

/-- `[1-9][0-9]*\.json(?:\.enc)?` -/
def isGenerationObject (name : Str) : Bool :=
  let digits := name.takeWhile Json.isDigit
  let rest := name.drop digits.length
  digits.head?.any (· ≠ 48) && (rest = Str.ofString ".json" || rest = Str.ofString ".json.enc")

/-- `_object_name` -/
def objectName (category name : Str) : Option Str :=
  let valid :=
    if category = Str.ofString "chunks" then
      (Str.ofString ".bin").isSuffixOf name && isDigest
        ((Str.removeSuffix name (Str.ofString ".bin")).map Char.ofNat)
    else if category = Str.ofString "manifests" then isGenerationObject name &&
      (Str.ofString ".json.enc").isSuffixOf name
    else if category = Str.ofString "commits" then isGenerationObject name &&
      (Str.ofString ".json").isSuffixOf name
    else false
  if valid then some (category ++ Str.ofString "/" ++ name) else none

namespace Signer

variable (signer : Signer)

/-- The encryption context as text, in Base64. -/
def encodedContext : Str :=
  Base64.encode (Str.ofString
    "\x7b\"application\": \"kirocrew-agentcore\", \"purpose\": \"sandbox-checkpoint\", \"sandboxId\": " ++
    Json.printStr signer.sandboxId ++ Str.ofString "\x7d")

def headers (category : Str) : List (Str × Value) :=
  [(Str.ofString "x-amz-server-side-encryption", .str (Str.ofString "aws:kms")),
    (Str.ofString "x-amz-server-side-encryption-aws-kms-key-id", .str signer.kmsKeyArn),
    (Str.ofString "x-amz-server-side-encryption-context", .str signer.encodedContext)] ++
  if category = Str.ofString "commits" ∨ category = Str.ofString "manifests" then
    [(Str.ofString "If-None-Match", .str (Str.ofString "*"))] else []

/-- `_presign`; `none` when it raises. -/
def presign (m : Signing) (category name method : Str) : Option Fields :=
  match [StorageOperation.get, .head, .put].find? (·.value = method), objectName category name with
  | some operation, some suffix =>
    let put := operation = .put
    let request : SignedRequest := {
      clientMethod := Str.ofString (match operation with
        | .get => "get_object"
        | .head => "head_object"
        | .put => "put_object")
      bucket := signer.bucket
      key := Str.ofString "sandboxes/" ++ signer.sandboxId ++ Str.ofString "/" ++ suffix
      encryption := if put then some (signer.kmsKeyArn, signer.encodedContext) else none
      writeOnce := put ∧ (category = Str.ofString "commits" ∨ category = Str.ofString "manifests")
      expiresIn := urlTtl
      httpMethod := method }
    (m.now.addSeconds urlTtl).map fun expires =>
      [(Str.ofString "expiresAt", .str (expires.iso.map Char.toNat)),
        (Str.ofString "headers", .obj (if put then signer.headers category else [])),
        (Str.ofString "method", .str method),
          (Str.ofString "url", .str (signer.presignedUrl m request))]
  | _, _ => none

/-- The loop of `_presign_batch`, with a moment for each name. -/
def presignAll (method : Str) : List (Str × Signing) → Option (List Value)
  | [] => some []
  | (name, m) :: rest =>
    (signer.presign m (Str.ofString "chunks") name method).bind fun grant =>
      (presignAll method rest).map fun grants => .obj ((Str.ofString "name", .str name) :: grant) ::
        grants

/-- `_presign_batch` -/
def presignBatch (names : List Str) (moments : Nat → Signing) (method : Str) : Option Fields :=
  if names = [] ∨ maxBatchGrants < names.length ∨
    method ∉ [Str.ofString "GET", Str.ofString "PUT"] then none
  else (signer.presignAll method (names.zipIdx.map fun x => (x.1, moments x.2))).map fun grants =>
    [(Str.ofString "grants", .arr grants)]

variable {signer} {m : Signing} {category name method : Str} {grant : Fields}
    {moments : Nat → Signing} {names : List Str}

/-- An answer of `_presign`, with the headers of a put or none. -/
theorem presign_fields (h : signer.presign m category name method = some grant) :
    ∃ (expires : DateTime) (headers : Fields) (url : Str),
    (headers = signer.headers category ∨ headers = []) ∧
      grant = [(Str.ofString "expiresAt", .str (expires.iso.map Char.toNat)),
      (Str.ofString "headers", .obj headers),
        (Str.ofString "method", .str method), (Str.ofString "url", .str url)] := by
  unfold presign at h
  split at h
  · obtain ⟨expires, -, rfl⟩ := Option.map_eq_some_iff.1 h
    refine ⟨expires, _, _, ?_, rfl⟩
    split_ifs
    · exact .inl rfl
    · exact .inr rfl
  · cases h

/-- What `_presign_batch` answers for one name. -/
def Grants (signer : Signer) (method : Str) (x : Str × Signing) (v : Value) : Prop :=
  ∃ grant, signer.presign x.2 (Str.ofString "chunks") x.1 method = some grant ∧
    v = .obj ((Str.ofString "name", .str x.1) :: grant)

theorem presignAll_grants {xs : List (Str × Signing)} {grants : List Value}
    (h : signer.presignAll method xs = some grants) :
    List.Forall₂ (signer.Grants method) xs grants := by
  induction xs generalizing grants with
  | nil =>
    cases h
    exact .nil
  | cons x xs ih =>
    obtain ⟨name, m⟩ := x
    obtain ⟨grant, hgrant, hmap⟩ := Option.bind_eq_some_iff.1 h
    obtain ⟨rest, hrest, rfl⟩ := Option.map_eq_some_iff.1 hmap
    exact .cons ⟨grant, hgrant, rfl⟩ (ih hrest)

theorem presignBatch_grants {value : Fields}
    (h : signer.presignBatch names moments method = some value) :
    names.length ≤ maxBatchGrants ∧ ∃ grants, value = [(Str.ofString "grants", .arr grants)] ∧
      List.Forall₂ (signer.Grants method) (names.zipIdx.map fun x => (x.1, moments x.2))
      grants := by
  unfold presignBatch at h
  split at h
  · cases h
  · next hok =>
    obtain ⟨grants, hgrants, rfl⟩ := Option.map_eq_some_iff.1 h
    exact ⟨not_lt.1 fun hlt => hok (.inr (.inl hlt)), grants, rfl, presignAll_grants hgrants⟩

end Signer

end KiroCrew
