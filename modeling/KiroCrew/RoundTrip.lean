import KiroCrew.Build
import KiroCrew.Decode
import KiroCrew.Tree

/-!
# Reading back what a build wrote
-/

namespace KiroCrew

open Json (Value)

namespace ManifestDecoder

variable {e : ManifestEntry} {m : PersistenceManifest}

theorem digest?_text {d : Digest} (h : isDigest d = true) : digest? (.str d.text) = some d := by
  have hmap : d.text.map Char.ofNat = d := by
    simp [Digest.text, Function.comp_def]
  simp [digest?, hmap, h]

theorem digests?_texts {ds : List Digest} (h : ∀ d ∈ ds, isDigest d = true) :
    digests? (.arr (ds.map fun d => .str d.text)) = some ds := by
  simp only [digests?]
  induction ds with
  | nil => rfl
  | cons d ds ih =>
    have hd := digest?_text (h d List.mem_cons_self)
    have hds := ih fun d hd => h d (List.mem_cons_of_mem _ hd)
    simp [List.mapM_cons, hd, hds]

theorem entryType?_value (type : EntryType) : entryType? (.str type.value) = some type := by
  cases type <;> decide

theorem get_path : get e.fields "path" = .str e.path := by
  unfold ManifestEntry.fields get Value.get
  cases e.symlinkTarget <;> simp [Str.ofString_inj]

theorem get_type : get e.fields "type" = .str e.type.value := by
  unfold ManifestEntry.fields get Value.get
  simp

theorem get_digest : get e.fields "digest" =
    (e.digest.map fun d => Value.str d.text).getD .null := by
  unfold ManifestEntry.fields get Value.get
  cases e.symlinkTarget <;> cases e.digest <;> by_cases h :
    e.chunks = [] <;> simp [Str.ofString_inj, h]

theorem get_symlinkTarget : get e.fields "symlinkTarget" =
    (e.symlinkTarget.map Value.str).getD .null := by
  unfold ManifestEntry.fields get Value.get
  cases e.symlinkTarget <;> cases e.digest <;> by_cases h :
    e.chunks = [] <;> simp [Str.ofString_inj, h]

theorem get_chunks : (Value.get e.fields (Str.ofString "chunks")).getD (.arr []) =
    .arr (e.chunks.map fun d => .str d.text) := by
  unfold ManifestEntry.fields Value.get
  cases e.symlinkTarget <;> cases e.digest <;> by_cases h :
    e.chunks = [] <;> simp [Str.ofString_inj, h]

theorem get_numbers : get e.fields "mode" = .int e.mode.val ∧
    get e.fields "mtimeNs" = .int e.mtimeNs ∧
    get e.fields "size" = .int e.size := by
  unfold ManifestEntry.fields get Value.get
  cases e.symlinkTarget <;> simp [Str.ofString_inj]

theorem numbers?_fields :
    numbers? e.fields = if 0 ≤ e.mtimeNs then some (e.mode, e.mtimeNs, e.size) else none := by
  obtain ⟨hmode, hmtime, hsize⟩ := get_numbers (e := e)
  have hlt : (e.mode.val : Int) ≤ 4095 := by
    have := e.mode.isLt
    omega
  simp only [numbers?, hmode, hmtime, hsize]
  by_cases h : 0 ≤ e.mtimeNs
  · simp [h, hlt]
  · simp [h]

/-- What an entry of a build has and a decoder wants, its modification time aside. -/
structure Admissible (e : ManifestEntry) : Prop where
  normal : (PosixPath.parse e.path).str = e.path
  includes : PersistencePolicy.includes (PosixPath.parse e.path) = true
  shape : ManifestBuilder.WellShaped e
  safe : e.path.safe = true

theorem contents_of_shape (h : ManifestBuilder.WellShaped e) :
    contents (PosixPath.parse e.path) e.type e.size e.chunks
      ((e.digest.map fun d => Value.str d.text).getD .null)
      ((e.symlinkTarget.map Value.str).getD .null) = .ok (e.digest, e.symlinkTarget) := by
  unfold ManifestBuilder.WellShaped at h
  split at h
  · next htype =>
    obtain ⟨⟨d, hd, hdigest⟩, hchunks, -, htarget⟩ := h
    simp [contents, htype, hd, htarget, hchunks, digest?_text hdigest, isNone]
  · next htype =>
    obtain ⟨hsize, hd, hchunks, htarget⟩ := h
    simp [contents, htype, hsize, hd, hchunks, htarget, isNone]
  · next htype =>
    obtain ⟨hd, hchunks, target, htarget, hsafe, -⟩ := h
    simp [contents, htype, hd, hchunks, htarget, hsafe, isNone]

theorem chunks_of_shape (h : ManifestBuilder.WellShaped e) : ∀ d ∈ e.chunks, isDigest d = true := by
  unfold ManifestBuilder.WellShaped at h
  split at h
  · exact h.2.2.1
  · simp [h.2.2.1]
  · simp [h.2.1]

/-- A printed entry is read back unless it was modified before the epoch. -/
theorem entry_asDict (h : Admissible e) :
    entry e.asDict = if 0 ≤ e.mtimeNs then .ok (some e)
    else .error (.validation "Manifest entry metadata is invalid.") := by
  have hcovers := PersistencePolicy.covers_of_includes h.includes
  simp only [ManifestEntry.asDict, entry, get_path, get_type, isHashable, entryType?_value,
    numbers?_fields]
  by_cases hmtime : 0 ≤ e.mtimeNs
  · simp only [hmtime, if_true, h.normal, hcovers, h.includes, get_chunks,
      digests?_texts (chunks_of_shape h.shape),
      get_digest, get_symlinkTarget, contents_of_shape h.shape]
    simp [Except.map]
  · simp [hmtime]

theorem plain_asDict (h : Admissible e) : e.asDict.plain = true := by
  simp only [ManifestEntry.asDict, Value.plain, Json.plainFields_iff]
  intro f hf
  simp only [ManifestEntry.fields, List.mem_append] at hf
  rcases hf with (((hf | hf) | hf) | hf) | hf
  · split at hf
    · exact absurd hf List.not_mem_nil
    · obtain rfl := List.mem_singleton.1 hf
      refine ⟨Str.safe_ofString _, ?_⟩
      simp only [Value.plain, Json.plainItems_iff, List.mem_map]
      rintro v ⟨d, -, rfl⟩
      exact Str.safe_map_toNat d
  · split at hf
    · exact absurd hf List.not_mem_nil
    · obtain rfl := List.mem_singleton.1 hf
      exact ⟨Str.safe_ofString _, Str.safe_map_toNat _⟩
  · simp only [List.mem_cons, List.not_mem_nil, or_false] at hf
    rcases hf with rfl | rfl | rfl | rfl
    · exact ⟨Str.safe_ofString _, rfl⟩
    · exact ⟨Str.safe_ofString _, rfl⟩
    · exact ⟨Str.safe_ofString _, h.safe⟩
    · exact ⟨Str.safe_ofString _, rfl⟩
  · split at hf
    · exact absurd hf List.not_mem_nil
    · next target htarget =>
      obtain rfl := List.mem_singleton.1 hf
      refine ⟨Str.safe_ofString _, ?_⟩
      have hshape := h.shape
      unfold ManifestBuilder.WellShaped at hshape
      split at hshape
      · exact absurd (hshape.2.2.2.symm.trans htarget) (by simp)
      · exact absurd (hshape.2.2.2.symm.trans htarget) (by simp)
      · obtain ⟨-, -, target', htarget', -, hsafe⟩ := hshape
        obtain rfl := Option.some.inj (htarget'.symm.trans htarget)
        exact hsafe
  · obtain rfl := List.mem_singleton.1 hf
    refine ⟨Str.safe_ofString _, ?_⟩
    cases e.type <;> exact Str.safe_ofString _

/-! ## The loop -/

def totalSize (entries : List ManifestEntry) : Nat := (entries.map (·.size)).sum

theorem decodeItem_asDict {acc : Decoding} (h : Admissible e) (hmtime : 0 ≤ e.mtimeNs)
    (hnew : e.path ∉ acc.seen) :
    decodeItem acc e.asDict =
      if acc.totalBytes + e.size ≤ maxRestoreBytes then
        .ok { entries := acc.entries ++ [e], seen := acc.seen ++ [e.path],
              totalBytes := acc.totalBytes + e.size }
      else .error (.validation "Manifest exceeds the restore size limit.") := by
  simp only [decodeItem, entry_asDict h, hmtime, if_true, hnew, if_false]
  by_cases hsize : acc.totalBytes + e.size ≤ maxRestoreBytes
  · simp [hsize, Nat.not_lt.2 hsize]
  · simp [hsize, Nat.lt_of_not_le hsize]

/-- The loop accepts printed entries with distinct paths exactly when no time is negative and the
sizes fit. -/
theorem decodeItems_asDict {entries : List ManifestEntry} {acc acc' : Decoding}
    (h : ∀ e ∈ entries, Admissible e)
    (hnodup : (acc.seen ++ entries.map (·.path)).Nodup) (hacc : acc.totalBytes ≤ maxRestoreBytes) :
    decodeItems acc (entries.map ManifestEntry.asDict) = .ok acc' ↔
      (∀ e ∈ entries, 0 ≤ e.mtimeNs) ∧ acc.totalBytes + totalSize entries ≤ maxRestoreBytes ∧
        acc' = { entries := acc.entries ++ entries, seen := acc.seen ++ entries.map (·.path),
                 totalBytes := acc.totalBytes + totalSize entries } := by
  induction entries generalizing acc with
  | nil => simp [decodeItems, totalSize, hacc, eq_comm]
  | cons e entries ih =>
    have he := h e List.mem_cons_self
    have hnew : e.path ∉ acc.seen := by
      intro hmem
      exact (List.nodup_append.1 hnodup).2.2 _ hmem _ List.mem_cons_self rfl
    have hsum : totalSize (e :: entries) = e.size + totalSize entries := by simp [totalSize]
    simp only [List.map_cons, decodeItems]
    by_cases hmtime : 0 ≤ e.mtimeNs
    · rw [decodeItem_asDict he hmtime hnew]
      by_cases hsize : acc.totalBytes + e.size ≤ maxRestoreBytes
      · simp only [hsize, if_true]
        rw [ih (fun e he => h e (List.mem_cons_of_mem _ he)) (by simpa using hnodup) hsize]
        simp [hmtime, hsum, Nat.add_assoc]
      · simp only [hsize, if_false]
        constructor
        · simp
        · rintro ⟨-, hfits, -⟩
          omega
    · have herror : decodeItem acc e.asDict =
          .error (.validation "Manifest entry metadata is invalid.") := by
        simp [decodeItem, entry_asDict he, hmtime]
      simp only [herror]
      constructor
      · simp
      · rintro ⟨hall, -⟩
        exact absurd (hall e List.mem_cons_self) hmtime

/-! ## The manifest -/

theorem isCategories_persistenceCategories : isCategories (.arr (persistenceCategories.map .str)) =
    true := by decide

theorem migrate_fields (h : m.schemaVersion = manifestSchemaVersion) :
    migrate m.fields = .ok m.fields := by
  have hget : get m.fields "schemaVersion" = .int m.schemaVersion := by
    simp [get, Value.get, PersistenceManifest.fields]
  simp [migrate, hget, h]

theorem get_manifest : get m.fields "sandboxId" = .str m.sandboxId ∧ get m.fields "generation" =
    .int m.generation ∧
    get m.fields "createdAt" = .str m.createdAt ∧
    get m.fields "entries" = .arr (m.entries.map ManifestEntry.asDict) ∧
    get m.fields "categories" = .arr (persistenceCategories.map .str) := by
  simp [get, Value.get, PersistenceManifest.fields, Str.ofString_inj]

/-- What a manifest needs for its text to be well formed and its entries to be in order. -/
structure Writable (m : PersistenceManifest) : Prop where
  schema : m.schemaVersion = manifestSchemaVersion
  sandboxId : m.sandboxId.safe = true
  createdAt : m.createdAt.safe = true
  admissible : ∀ e ∈ m.entries, Admissible e
  sorted : (m.entries.map (·.path)).Pairwise (· ≤ ·)
  nodup : (m.entries.map (·.path)).Nodup

theorem plain_manifest (h : Writable m) : m.asDict.plain = true := by
  simp only [PersistenceManifest.asDict, Value.plain, Json.plainFields_iff]
  intro f hf
  simp only [PersistenceManifest.fields, List.mem_cons, List.not_mem_nil, or_false] at hf
  rcases hf with rfl | rfl | rfl | rfl | rfl | rfl <;> refine ⟨Str.safe_ofString _, ?_⟩
  · simp only [Value.plain, Json.plainItems_iff, List.mem_map]
    rintro v ⟨category, hcategory, rfl⟩
    obtain ⟨name, -, rfl⟩ := List.mem_map.1 hcategory
    exact Str.safe_ofString name
  · exact h.createdAt
  · simp only [Value.plain, Json.plainItems_iff, List.mem_map]
    rintro v ⟨e, he, rfl⟩
    exact plain_asDict (h.admissible e he)
  · rfl
  · exact h.sandboxId
  · rfl

theorem loads_toJson (h : Writable m) : Json.loads m.toJson = some (.obj m.fields) :=
  Json.loads_dumps (plain_manifest h)

/-- The manifests that are read back: no negative times, at most as many entries and bytes as
restore takes. -/
def Restorable (entries : List ManifestEntry) : Prop :=
  (∀ e ∈ entries, 0 ≤ e.mtimeNs) ∧ entries.length ≤ maxRestoreFiles ∧
    totalSize entries ≤ maxRestoreBytes

theorem decode_toJson {m' : PersistenceManifest} (h : Writable m) :
    decode m.toJson m.sandboxId m.generation = .ok m' ↔ Restorable m.entries ∧ m' = m := by
  obtain ⟨hsandbox, hgeneration, hcreated, hentries, hcategories⟩ := get_manifest (m := m)
  have hitems : ∀ acc', decodeItems {} (m.entries.map ManifestEntry.asDict) = .ok acc' ↔
      _ := fun _ =>
    decodeItems_asDict h.admissible (by simpa using h.nodup) (Nat.zero_le _)
  have hsorted : (m.entries.map (·.path)).insertionSort (· ≤ ·) = m.entries.map (·.path) :=
    h.sorted.insertionSort_eq
  have hm : ({ schemaVersion := manifestSchemaVersion, generation := m.generation,
               sandboxId := m.sandboxId,
               createdAt := m.createdAt, entries := m.entries } : PersistenceManifest) =
               m := by rw [← h.schema]
  simp only [decode_unlimited, decodeText, loads_toJson h, migrate_fields h.schema, hsandbox,
    hgeneration, hcreated, hentries, hcategories,
    equalsStr, equalsNumber, Json.Value.number, isCategories_persistenceCategories, List.length_map,
    decide_true, Bool.true_eq_false, or_self,
    if_false, false_or]
  by_cases hcount : m.entries.length ≤ maxRestoreFiles
  · simp only [Nat.not_lt.2 hcount, if_false]
    cases hrun : decodeItems {} (m.entries.map ManifestEntry.asDict) with
    | error error =>
      constructor
      · simp
      · rintro ⟨hrestorable, -⟩
        have := (hitems _).2 ⟨hrestorable.1, by simpa using hrestorable.2.2, rfl⟩
        rw [hrun] at this
        exact absurd this (by simp)
    | ok acc =>
      obtain ⟨hmtime, hsize, rfl⟩ := (hitems acc).1 hrun
      simp only [List.nil_append, hsorted, ne_eq, not_true, if_false, Except.ok.injEq, hm]
      constructor
      · rintro rfl
        exact ⟨⟨hmtime, hcount, by simpa using hsize⟩, rfl⟩
      · rintro ⟨-, rfl⟩
        rfl
  · simp only [Nat.lt_of_not_le hcount, if_true]
    constructor
    · simp
    · rintro ⟨hrestorable, -⟩
      exact absurd hrestorable.2.1 hcount

end ManifestDecoder

end KiroCrew
