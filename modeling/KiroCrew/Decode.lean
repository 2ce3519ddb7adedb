import KiroCrew.Manifest
import KiroCrew.Lib.Double
import KiroCrew.Lib.JsonLimits

/-!
# Decoding a manifest

`ManifestDecoder.decode` parses the decrypted text, migrates an older schema, and checks every entry
on its own (`_entry`) and the entries together: unique paths, in order, at most 100 000 of them, at
most 50 GiB. A covered path that the policy excludes is skipped. JSON numbers with a fraction count
as no integers, but a generation only has to equal the expected one, so it may be written as `1.0`.
What `json.loads` raises for its own limits is let out.
-/

namespace KiroCrew

inductive DecodeError
  /-- `ManifestValidationError` -/
  | validation (message : String)
  /-- The `TypeError` of a set membership test with a list or a dict. -/
  | unhashable
  /-- The `ValueError` or `RecursionError` of `json.loads`. -/
  | limit (limit : Json.Limit)
deriving DecidableEq, Repr

def maxRestoreFiles : Nat := 100000
def maxRestoreBytes : Nat := 50 * 1024 * 1024 * 1024

namespace ManifestDecoder

open Json (Value)

abbrev Fields := List (Str × Value)

/-- `value.get(key)` -/
def get (fields : Fields) (key : String) : Value := (Value.get fields (Str.ofString key)).getD .null

def digest? : Value → Option Digest
  | .str s => if isDigest (s.map Char.ofNat) then some (s.map Char.ofNat) else none
  | _ => none

def entryType? : Value → Option EntryType
  | .str s => [EntryType.file, .directory, .symlink].find? (·.value = s)
  | _ => none

def isHashable : Value → Bool
  | .arr _ | .obj _ => false
  | _ => true

/-- A list of digests. -/
def digests? : Value → Option (List Digest)
  | .arr items => items.mapM digest?
  | _ => none

def isNone : Value → Bool
  | .null => true
  | _ => false

/-- The integers of an entry: mode, modification time and size. -/
def numbers? (fields : Fields) : Option (Mode × Int × Nat) :=
  match get fields "mode", get fields "mtimeNs", get fields "size" with
  | .int mode, .int mtime, .int size =>
    if 0 ≤ mode ∧ mode ≤ 0o7777 ∧ 0 ≤ mtime ∧
      0 ≤ size then some (Fin.ofNat 4096 mode.toNat, mtime, size.toNat) else none
  | _, _, _ => none

/-- The checks of an entry by its type, after the policy let it in: its digest and target. -/
def contents (relative : PosixPath) (type : EntryType) (size : Nat) (chunks : List Digest)
    (digest target : Value) :
    Except DecodeError (Option Digest × Option Str) :=
  match type with
  | .file =>
    match digest? digest with
    | some d =>
      if chunks ≠ [] ∧ isNone target = true then .ok (some d, none)
      else .error (.validation "File manifest entry is invalid.")
    | none => .error (.validation "File manifest entry is invalid.")
  | .directory =>
    if size = 0 ∧ isNone digest = true ∧ chunks = [] ∧ isNone target = true then .ok (none, none)
    else .error (.validation "Directory manifest entry is invalid.")
  | .symlink =>
    match target with
    | .str text =>
      if isNone digest = true ∧ chunks = [] ∧ safeSymlinkTarget relative text = true then
        .ok (none, some text)
      else .error (.validation "Symlink manifest entry is invalid.")
    | _ => .error (.validation "Symlink manifest entry is invalid.")

def entry : Value → Except DecodeError (Option ManifestEntry)
  | .obj fields =>
    match get fields "path" with
    | .str path =>
      if isHashable (get fields "type") = false then .error .unhashable
      else
        match entryType? (get fields "type"), numbers? fields with
        | some type, some (mode, mtimeNs, size) =>
          let relative := PosixPath.parse path
          if path ≠ relative.str ∨ PersistencePolicy.covers relative = false then
            .error (.validation "Manifest path is outside durable roots.")
          else if PersistencePolicy.includes relative = false then .ok none
          else
            match digests? ((Value.get fields (Str.ofString "chunks")).getD (.arr [])) with
            | none => .error (.validation "Manifest chunks are invalid.")
            | some chunks =>
              (contents relative type size chunks (get fields "digest")
                  (get fields "symlinkTarget")).map fun (digest, target) =>
                some { path := path, type := type, mode := mode, mtimeNs := mtimeNs,
                       size := size, digest := digest,
                       chunks := chunks, symlinkTarget := target }
        | _, _ => .error (.validation "Manifest entry metadata is invalid.")
    | _ => .error (.validation "Manifest entry metadata is invalid.")
  | _ => .error (.validation "Manifest entry must be an object.")

def zeroToOne (fields : Fields) : Fields :=
  let migrated := fields ++ [(Str.ofString "schemaVersion", .int 1)]
  if (Value.get migrated (Str.ofString "categories")).isSome then migrated
  else migrated ++ [(Str.ofString "categories", .arr (persistenceCategories.map .str))]

/-- `ManifestMigrator.migrate`: the only migration leads from 0 to the current schema. -/
def migrate (fields : Fields) : Except DecodeError Fields :=
  match get fields "schemaVersion" with
  | .int schema =>
    if schema < manifestSchemaVersion then
      if schema = 0 then .ok (zeroToOne fields)
        else .error (.validation "Manifest migration path is unavailable.")
    else if schema = manifestSchemaVersion then .ok fields
    else .error (.validation "Manifest schema version is unsupported.")
  | _ => .error (.validation "Manifest schema version is invalid.")

/-- `value == generation`, also of a `float` or a `bool`. -/
def equalsNumber (v : Value) (generation : Nat) : Bool :=
  match v.number with
  | some (.int i) => i = generation
  | some (.double d) => d = .finite generation
  | none => false

def equalsStr : Value → Str → Bool
  | .str s, text => s = text
  | _, _ => false

/-- `categories == list(PERSISTENCE_CATEGORIES)` -/
def isCategories : Value → Bool
  | .arr items =>
    items.length = persistenceCategories.length &&
      (items.zip persistenceCategories).all fun (item, category) => equalsStr item category
  | _ => false

/-- The loop of `decode`. -/
structure Decoding where
  entries : List ManifestEntry := []
  seen : List Str := []
  totalBytes : Nat := 0

def decodeItem (acc : Decoding) (item : Value) : Except DecodeError Decoding :=
  match entry item with
  | .error error => .error error
  | .ok none => .ok acc
  | .ok (some e) =>
    if e.path ∈ acc.seen then .error (.validation "Manifest paths must be unique.")
    else if maxRestoreBytes < acc.totalBytes + e.size then
      .error (.validation "Manifest exceeds the restore size limit.")
    else .ok { entries := acc.entries ++ [e], seen := acc.seen ++ [e.path],
               totalBytes := acc.totalBytes + e.size }

def decodeItems : Decoding → List Value → Except DecodeError Decoding
  | acc, [] => .ok acc
  | acc, item :: items =>
    match decodeItem acc item with
    | .error error => .error error
    | .ok acc => decodeItems acc items

/-- `decode` after the limits of `json.loads`. -/
def decodeText (raw : Str) (sandboxId : Str) (generation : Nat) :
    Except DecodeError PersistenceManifest :=
  match Json.loads raw with
  | none => .error (.validation "Manifest JSON is invalid.")
  | some (.obj loaded) =>
    match migrate loaded with
    | .error error => .error error
    | .ok fields =>
      if equalsStr (get fields "sandboxId") sandboxId = false ∨
          equalsNumber (get fields "generation") generation = false then
        .error (.validation "Manifest sandbox or generation does not match.")
      else
        match get fields "createdAt", get fields "entries" with
        | .str createdAt, .arr items =>
          if isCategories (get fields "categories") = false ∨ maxRestoreFiles < items.length then
            .error (.validation "Manifest metadata or limits are invalid.")
          else
            match decodeItems {} items with
            | .error error => .error error
            | .ok acc =>
              if acc.entries.map (·.path) ≠ acc.seen.insertionSort (· ≤ ·) then
                .error (.validation "Manifest entries must be sorted.")
              else
                .ok { schemaVersion := manifestSchemaVersion,
                      generation := generation, sandboxId := sandboxId,
                      createdAt := createdAt, entries := acc.entries }
        | _, _ => .error (.validation "Manifest metadata or limits are invalid.")
  | some _ => .error (.validation "Manifest root must be an object.")

def decode (raw : Str) (sandboxId : Str) (generation : Nat) (limits : Json.Limits := {}) :
    Except DecodeError PersistenceManifest :=
  match Json.exceeded limits raw with
  | some limit => .error (.limit limit)
  | none => decodeText raw sandboxId generation

theorem decode_of_within {raw sandboxId : Str} {generation : Nat} {limits : Json.Limits}
    (h : Json.exceeded limits raw = none) : decode raw sandboxId generation limits =
    decodeText raw sandboxId generation := by
  rw [decode, h]

theorem decode_unlimited (raw sandboxId : Str) (generation : Nat) :
    decode raw sandboxId generation = decodeText raw sandboxId generation :=
  decode_of_within (Json.exceeded_unlimited raw)

/-! ## What is decoded -/

/-- An entry as the decoder lets it in. -/
structure Admitted (e : ManifestEntry) : Prop where
  normal : e.path = (PosixPath.parse e.path).str
  includes : PersistencePolicy.includes (PosixPath.parse e.path) = true
  target : e.type = .symlink → e.symlinkTarget.isSome
  safe : ∀ target, e.symlinkTarget = some target →
    safeSymlinkTarget (PosixPath.parse e.path) target = true

section Admission

variable {e : ManifestEntry} {item : Value} {acc acc' : Decoding} {items : List Value}
  {raw sandboxId : Str} {generation : Nat} {limits : Json.Limits} {m : PersistenceManifest}

/-- Only a target that was judged safe is kept. -/
theorem contents_safe {relative : PosixPath} {type : EntryType} {size : Nat} {chunks : List Digest}
    {digest target : Value} {d : Option Digest}
    {text : Str} (h : contents relative type size chunks digest target = .ok (d, some text)) :
    safeSymlinkTarget relative text = true := by
  unfold contents at h
  repeat' split at h
  all_goals try cases h
  next hall => exact hall.2.2

theorem contents_target {relative : PosixPath} {size : Nat} {chunks : List Digest}
    {digest target : Value}
    {d : Option Digest} {t : Option Str} (h : contents relative .symlink size chunks digest target =
    .ok (d, t)) :
    t.isSome := by
  simp only [contents] at h
  repeat' split at h
  all_goals cases h
  rfl

theorem entry_admitted (h : entry item = .ok (some e)) : Admitted e := by
  unfold entry at h
  repeat' split at h
  all_goals try cases h
  all_goals
    dsimp only at h
    repeat' split at h
  all_goals try cases h
  next hdigests hpath hincludes =>
    rw [Bool.not_eq_false] at hincludes
    push Not at hpath
    rcases hcontents : contents _ _ _ _ _ _ with error | ⟨digest, target⟩
    · rw [hcontents] at h
      cases h
    · rw [hcontents] at h
      cases h
      refine ⟨hpath.1, hincludes, fun htype => ?_, fun text htext => ?_⟩
      · obtain rfl := htype
        exact contents_target hcontents
      · obtain rfl : target = some text := htext
        exact contents_safe hcontents

theorem mem_decodeItems {acc acc' : Decoding} {items : List Value}
    (h : decodeItems acc items = .ok acc') (he : e ∈ acc'.entries) :
    e ∈ acc.entries ∨ ∃ item, entry item = .ok (some e) := by
  induction items generalizing acc with
  | nil =>
    cases h
    exact Or.inl he
  | cons item items ih =>
    unfold decodeItems at h
    split at h
    · cases h
    · next acc₁ hitem =>
      rcases ih h with he₁ | hitem'
      · unfold decodeItem at hitem
        repeat' split at hitem
        · cases hitem
        · cases hitem
          exact Or.inl he₁
        · cases hitem
        · cases hitem
        · next e₁ hentry _ _ =>
          cases hitem
          rcases List.mem_append.1 he₁ with he₁ | he₁
          · exact Or.inl he₁
          · obtain rfl := List.mem_singleton.1 he₁
            exact Or.inr ⟨item, hentry⟩
      · exact Or.inr hitem'

theorem decodeItems_seen (h : decodeItems acc items = .ok acc')
    (hpaths : acc.entries.map (·.path) = acc.seen) (hnodup : acc.seen.Nodup) :
    acc'.entries.map (·.path) = acc'.seen ∧ acc'.seen.Nodup := by
  induction items generalizing acc with
  | nil =>
    cases h
    exact ⟨hpaths, hnodup⟩
  | cons item items ih =>
    unfold decodeItems at h
    split at h
    · cases h
    · next acc₁ hitem =>
      unfold decodeItem at hitem
      repeat' split at hitem
      · cases hitem
      · cases hitem
        exact ih h hpaths hnodup
      · cases hitem
      · cases hitem
      · next e hentry hseen _ =>
        cases hitem
        refine ih h (by simp [hpaths]) ?_
        exact List.nodup_append.2 ⟨hnodup, List.nodup_singleton _, fun a ha b hb hab => hseen (by
          rwa [← List.mem_singleton.1 hb, ← hab])⟩

theorem decode_admitted (h : decode raw sandboxId generation limits = .ok m) :
    ∀ e ∈ m.entries, Admitted e := by
  intro e he
  unfold decode decodeText at h
  repeat' split at h
  all_goals try cases h
  next hitems _ =>
    rcases mem_decodeItems hitems he with he | ⟨item, hitem⟩
    · cases he
    · exact entry_admitted hitem

/-- The entries are in the order of their paths, each path once. -/
theorem decode_paths (h : decode raw sandboxId generation limits = .ok m) :
    m.entries.Pairwise fun d e => d.path ≤ e.path ∧ d.path ≠ e.path := by
  unfold decode decodeText at h
  repeat' split at h
  all_goals try cases h
  next acc hitems hsorted =>
    obtain ⟨hpaths, hnodup⟩ := decodeItems_seen hitems rfl List.nodup_nil
    rw [not_not] at hsorted
    rw [← hpaths] at hnodup
    have hordered : (acc.entries.map (·.path)).Pairwise (· ≤ ·) := by
      rw [hsorted]
      exact List.pairwise_insertionSort _ _
    exact List.Pairwise.and (List.pairwise_map.1 hordered) (List.pairwise_map.1 hnodup)

end Admission

end ManifestDecoder

end KiroCrew
