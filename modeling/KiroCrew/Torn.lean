import KiroCrew.Build
import KiroCrew.Materialize

/-!
# Files that change while they are read

`pause` stops the gateway's process group and no other, so a file can change between its `lstat` and
each `read` of the loop in `_read_chunks`. `Sighting` is what a round of `build` then observes: the
metadata, and whatever the reads return. The digest is of the bytes read, the size is that of the
metadata. A file that is read short or long is recorded, and remembered, as it was stat'ed:
`consistent_iff` says that the manifests of a process pass the check of `_materialize` exactly as
long as no read differs in length from its stat.
-/

namespace KiroCrew

open Restore (flatten_readChunks)

structure Sighting where
  path : Path
  metadata : Metadata
  target : Str := []
  /-- The results of `source.read`: less than a chunk where the file ends, more after it where it
  has grown. -/
  reads : List Bytes := []

namespace Sighting

variable (sha : Sha256) (b : ManifestBuilder) (v : Sighting)

/-- `_read_chunks` -/
def chunks : List Bytes :=
  if v.reads.takeWhile (· ≠ []) = [] then [[]] else v.reads.takeWhile (· ≠ [])

/-- The same observations, the file read at once. -/
def still : Visit where
  path := v.path
  metadata := v.metadata
  target := v.target
  data := v.chunks.flatten

/-- No entry is remembered for the file, so `build` reads it. -/
def isRead : Bool :=
  PersistencePolicy.includes v.path.relative && v.metadata.kind = .regular &&
    (ManifestBuilder.reusable b v.still).isNone

def fileEntry : ManifestEntry where
  path := v.path.text
  type := .file
  mode := v.metadata.mode
  mtimeNs := v.metadata.mtimeNs
  size := v.metadata.size
  digest := some (sha.hexdigest v.chunks.flatten)
  chunks := v.chunks.map sha.hexdigest
  symlinkTarget := none

/-- One round of the loop in `build`; what is not read is recorded as in `ManifestBuilder.visit`. -/
def visit (racyAfter : Int) (acc : Progress) (v : Sighting) : Option Progress :=
  if v.isRead b then
    some {
      entries := acc.entries ++ [v.fileEntry sha]
      chunks := ManifestBuilder.addChunks sha acc.chunks v.chunks
      stamps :=
        if v.metadata.mtimeNs < racyAfter ∧ v.metadata.ctimeNs < racyAfter then
          Dict.set acc.stamps v.path.text (FileStamp.of v.metadata, v.fileEntry sha)
        else acc.stamps }
  else ManifestBuilder.visit sha b racyAfter acc v.still

/-- What the round records, if anything. -/
def recorded : Option ManifestEntry :=
  if v.isRead b then some (v.fileEntry sha) else ManifestBuilder.recordedEntry sha b v.still

/-- The reads return as many bytes as the metadata says, wherever the file is read. -/
def Whole : Prop := v.isRead b = true → v.chunks.flatten.length = v.metadata.size

end Sighting

/-- `ManifestBuilder.build`, of a workspace that may change meanwhile. -/
def ManifestBuilder.buildSeen (sha : Sha256) (b : ManifestBuilder) (sightings : List Sighting)
    (now : Int) (generation : Nat)
    (sandboxId createdAt : Str) : Option BuiltManifest :=
  if generation = 0 ∨ sandboxId = [] then none
  else
    (sightings.foldlM (Sighting.visit sha b (now - racyWindowNs)) {}).map fun acc =>
      { manifest :=
          { schemaVersion := manifestSchemaVersion
            generation := generation
            sandboxId := sandboxId
            createdAt := createdAt
            entries := sortEntries acc.entries }
        chunks := acc.chunks
        stamps := acc.stamps }

/-! ## A process -/

/-- The builder of a process, and what it has built. -/
structure Checkpointing where
  builder : ManifestBuilder
  built : List BuiltManifest := []

inductive Checkpointing.Event
  /-- A build that an `OSError` ends leaves nothing behind, and is no event. -/
  | build (sightings : List Sighting) (now : Int) (generation : Nat) (sandboxId createdAt : Str)
  | remember (k : Nat)
  | forget

namespace Checkpointing

variable (sha : Sha256) (s : Checkpointing)

def Event.sightings : Event → List Sighting
  | .build sightings _ _ _ _ => sightings
  | .remember _ | .forget => []

def step : Event → Checkpointing
  | .build sightings now generation sandboxId createdAt =>
    { s with built :=
      s.built ++ (s.builder.buildSeen sha sightings now generation sandboxId createdAt).toList }
  | .remember k =>
    match s.built[k]? with
    | some m => { s with builder := s.builder.remember m }
    | none => s
  | .forget => { s with builder := s.builder.forget }

def run (events : List Event) : Checkpointing := events.foldl (step sha) s

/-- A build that returns has read every file whole. -/
def Event.Whole : Event → Prop
  | .build sightings now generation sandboxId createdAt =>
    (s.builder.buildSeen sha sightings now generation sandboxId createdAt).isSome → ∀ v ∈ sightings,
      v.Whole s.builder
  | .remember _ | .forget => True

/-- So do all builds of the run. -/
def Steady (sha : Sha256) : Checkpointing → List Event → Prop
  | _, [] => True
  | s, event :: events => event.Whole sha s ∧ Steady sha (s.step sha event) events

end Checkpointing

/-- The check of `_materialize` on the chunks that are fetched. -/
def Matches (sha : Sha256) (fetch : Digest → Bytes) (e : ManifestEntry) : Prop :=
  (e.chunks.map fetch).flatten.length = e.size ∧
    some (sha.hexdigest (e.chunks.map fetch).flatten) = e.digest

/-- Restore takes every file of the manifest. -/
def Consistent (sha : Sha256) (fetch : Digest → Bytes) (m : PersistenceManifest) : Prop :=
  ∀ e ∈ m.entries, e.type = .file → Matches sha fetch e

instance (sha : Sha256) (fetch : Digest → Bytes) (e : ManifestEntry) :
    Decidable (Matches sha fetch e) := instDecidableAnd

instance (sha : Sha256) (fetch : Digest → Bytes) (m : PersistenceManifest) :
    Decidable (Consistent sha fetch m) :=
  List.decidableBAll _ _

variable {sha : Sha256} {fetch : Digest → Bytes} {b : ManifestBuilder} {v : Sighting}
    {e : ManifestEntry} {racyAfter now : Int}
  {acc acc' : Progress} {sightings : List Sighting} {generation : Nat} {sandboxId createdAt : Str}
  {m : BuiltManifest}

namespace Sighting

/-- A file that stands still is read as `ManifestBuilder.visit` reads it. -/
theorem visit_still (h : v.chunks = readChunks b.chunkSize v.chunks.flatten) :
    Sighting.visit sha b racyAfter acc v = ManifestBuilder.visit sha b racyAfter acc v.still := by
  unfold visit
  split
  · next hread =>
    simp only [isRead, Bool.and_eq_true, decide_eq_true_eq, Option.isNone_iff_eq_none] at hread
    obtain ⟨⟨hincludes, hkind⟩, hnone⟩ := hread
    have hincludes : PersistencePolicy.includes v.still.path.relative = true := hincludes
    have hkind : v.still.metadata.kind = .regular := hkind
    have hentry : ManifestBuilder.fileEntry sha b v.still = v.fileEntry sha := by
      simp only [ManifestBuilder.fileEntry, fileEntry, still, ← h]
    simp only [ManifestBuilder.visit, hincludes, hkind, hnone, hentry, Bool.not_true,
      Bool.false_eq_true, if_false,
      ManifestBuilder.addChunks]
    rw [show readChunks b.chunkSize v.still.data = v.chunks from h.symm]
    rfl
  · rfl

theorem visit_entries (h : Sighting.visit sha b racyAfter acc v = some acc') :
    acc'.entries = acc.entries ++ (v.recorded sha b).toList := by
  unfold visit at h
  unfold recorded
  split at h
  · next hread =>
    obtain rfl := Option.some.inj h
    rw [if_pos hread]
    rfl
  · next hread =>
    rw [if_neg hread]
    exact (ManifestBuilder.visited h).entries

theorem visit_stamps (h : Sighting.visit sha b racyAfter acc v = some acc')
    (hacc : ∀ key stamp e, (key, stamp, e) ∈ acc.stamps → e ∈ acc.entries) :
    ∀ key stamp e, (key, stamp, e) ∈ acc'.stamps → e ∈ acc'.entries := by
  have hset : ∀ {key : Str} {x : FileStamp × ManifestEntry}, x.2 ∈ acc'.entries →
      (∀ e ∈ acc.entries, e ∈ acc'.entries) → acc'.stamps = Dict.set acc.stamps key x →
      ∀ key stamp e, (key, stamp, e) ∈ acc'.stamps → e ∈ acc'.entries := by
    intro key x hx hgrow heq key' stamp e hmem
    rw [heq] at hmem
    rcases Dict.mem_set hmem with heq | hmem
    · cases heq
      exact hx
    · exact hgrow e (hacc key' stamp e hmem)
  unfold visit at h
  split at h
  · obtain rfl := Option.some.inj h
    by_cases hold : v.metadata.mtimeNs < racyAfter ∧ v.metadata.ctimeNs < racyAfter
    · exact hset (List.mem_append_right _ (List.mem_singleton_self _))
        (fun e => List.mem_append_left _) (if_pos hold)
    · simp only [if_neg hold]
      exact fun key stamp e hmem => List.mem_append_left _ (hacc key stamp e hmem)
  · cases ManifestBuilder.visited h with
    | skipped hentry => exact hacc
    | listed hentry hchunks =>
    exact fun key stamp e hmem => List.mem_append_left _ (hacc key stamp e hmem)
    | reused hentry hprevious =>
      exact hset (List.mem_append_right _ (List.mem_singleton_self _))
        (fun e => List.mem_append_left _) rfl
    | read hentry hstamps =>
      rcases hstamps with rfl | rfl
      · exact fun key stamp e hmem => List.mem_append_left _ (hacc key stamp e hmem)
      · exact hset (List.mem_append_right _ (List.mem_singleton_self _))
          (fun e => List.mem_append_left _) rfl

theorem recorded_file (h : v.recorded sha b = some e) (hfile : e.type = .file) :
    v.isRead b = true ∧ e = v.fileEntry sha ∨ ∃ key stamp, (key, stamp, e) ∈ b.committed := by
  unfold recorded at h
  split at h
  · next hread => exact Or.inl ⟨hread, (Option.some.inj h).symm⟩
  · next hread =>
    right
    unfold ManifestBuilder.recordedEntry at h
    split at h
    · next hincludes =>
      split at h
      · obtain rfl := Option.some.inj h
        cases hfile
      · split at h
        · obtain ⟨size, -, rfl⟩ := Option.map_eq_some_iff.1 h
          cases hfile
        · cases h
      · next hkind =>
        cases hprevious : ManifestBuilder.reusable b v.still with
        | none =>
          refine absurd ?_ hread
          have hincludes : PersistencePolicy.includes v.path.relative = true := hincludes
          have hkind : v.metadata.kind = .regular := hkind
          simp [isRead, hincludes, hkind, hprevious]
        | some previous =>
          rw [hprevious] at h
          obtain rfl := Option.some.inj h
          exact ⟨_, _, (ManifestBuilder.reusable_eq_some hprevious).1⟩
      · cases h
    · cases h

end Sighting

/-! ## One build -/

theorem foldlM_sightings (h : sightings.foldlM (Sighting.visit sha b racyAfter) acc = some acc')
    (hacc : ∀ key stamp e, (key, stamp, e) ∈ acc.stamps → e ∈ acc.entries) :
    acc'.entries = acc.entries ++ sightings.filterMap (Sighting.recorded sha b) ∧
      ∀ key stamp e, (key, stamp, e) ∈ acc'.stamps → e ∈ acc'.entries := by
  induction sightings generalizing acc with
  | nil =>
    obtain rfl : acc = acc' := by simpa using h
    exact ⟨by simp, hacc⟩
  | cons v sightings ih =>
    simp only [List.foldlM_cons, Option.bind_eq_bind, Option.bind_eq_some_iff] at h
    obtain ⟨acc₁, hvisit, hrest⟩ := h
    obtain ⟨hentries, hstamps⟩ := ih hrest (Sighting.visit_stamps hvisit hacc)
    refine ⟨?_, hstamps⟩
    rw [hentries, Sighting.visit_entries hvisit, List.append_assoc]
    cases hentry : v.recorded sha b <;> simp [hentry]

/-- A workspace that stands still is built as `ManifestBuilder.build` builds it. -/
theorem buildSeen_still (h : ∀ v ∈ sightings, v.chunks = readChunks b.chunkSize v.chunks.flatten) :
    b.buildSeen sha sightings now generation sandboxId createdAt =
      b.build sha (sightings.map Sighting.still) now generation sandboxId createdAt := by
  have hloop : ∀ acc, sightings.foldlM (Sighting.visit sha b (now - racyWindowNs)) acc =
      (sightings.map Sighting.still).foldlM
      (ManifestBuilder.visit sha b (now - racyWindowNs)) acc := by
    induction sightings with
    | nil => exact fun acc => rfl
    | cons v sightings ih =>
      intro acc
      rw [List.map_cons, List.foldlM_cons, List.foldlM_cons, Sighting.visit_still
        (h v List.mem_cons_self)]
      exact congrArg _ (funext (ih fun v hv => h v (List.mem_cons_of_mem _ hv)))
  unfold ManifestBuilder.buildSeen ManifestBuilder.build
  rw [hloop]

theorem buildSeen_spec (h : b.buildSeen sha sightings now generation sandboxId createdAt = some m) :
    (∀ e, e ∈ m.manifest.entries ↔ ∃ v ∈ sightings, v.recorded sha b = some e) ∧
      ∀ key stamp e, (key, stamp, e) ∈ m.stamps → e ∈ m.manifest.entries := by
  unfold ManifestBuilder.buildSeen at h
  split at h
  · cases h
  · obtain ⟨acc, hacc, rfl⟩ := Option.map_eq_some_iff.1 h
    obtain ⟨hentries, hstamps⟩ := foldlM_sightings hacc (by intro key stamp e hmem; cases hmem)
    refine ⟨fun e => ?_, fun key stamp e hmem => ManifestBuilder.mem_sortEntries.2
      (hstamps key stamp e hmem)⟩
    show e ∈ ManifestBuilder.sortEntries acc.entries ↔ _
    rw [ManifestBuilder.mem_sortEntries, hentries]
    simp [List.mem_filterMap]

/-- The digest is always that of the bytes read. -/
theorem matches_fileEntry (h : ∀ data ∈ v.chunks, fetch (sha.hexdigest data) = data) :
    Matches sha fetch (v.fileEntry sha) ↔ v.chunks.flatten.length = v.metadata.size := by
  have hfetch : (v.fileEntry sha).chunks.map fetch = v.chunks := by
    show (v.chunks.map sha.hexdigest).map fetch = v.chunks
    rw [List.map_map]
    exact (List.map_congr_left h).trans (List.map_id _)
  unfold Matches
  rw [hfetch]
  exact and_iff_left rfl

/-- Given that what is remembered is consistent, the manifest is if every file that is read is read
whole. -/
theorem consistent_buildSeen
    (h : b.buildSeen sha sightings now generation sandboxId createdAt = some m)
    (hcommitted : ∀ key stamp e, (key, stamp, e) ∈ b.committed → e.type = .file →
    Matches sha fetch e)
    (hfetch : ∀ v ∈ sightings, ∀ data ∈ v.chunks, fetch (sha.hexdigest data) = data) :
    Consistent sha fetch m.manifest ↔ ∀ v ∈ sightings, v.Whole b := by
  obtain ⟨hentries, -⟩ := buildSeen_spec h
  constructor
  · intro hconsistent v hv hread
    have hmem : v.fileEntry sha ∈ m.manifest.entries := (hentries _).2 ⟨v, hv, if_pos hread⟩
    exact (matches_fileEntry (hfetch v hv)).1 (hconsistent _ hmem rfl)
  · intro hwhole e he hfile
    obtain ⟨v, hv, hrecorded⟩ := (hentries e).1 he
    rcases Sighting.recorded_file hrecorded hfile with ⟨hread, rfl⟩ | ⟨key, stamp, hmem⟩
    · exact (matches_fileEntry (hfetch v hv)).2 (hwhole v hv hread)
    · exact hcommitted key stamp e hmem hfile

/-! ## Runs -/

namespace Checkpointing

variable {s : Checkpointing} {event : Event} {events : List Event}

/-- What is remembered is of a manifest that was built. -/
structure Inv (s : Checkpointing) : Prop where
  committed : ∀ key stamp e, (key, stamp, e) ∈ s.builder.committed →
    ∃ m ∈ s.built, e ∈ m.manifest.entries
  stamps : ∀ m ∈ s.built, ∀ key stamp e, (key, stamp, e) ∈ m.stamps → e ∈ m.manifest.entries

theorem Inv.step (h : s.Inv) : (s.step sha event).Inv := by
  cases event with
  | build sightings now generation sandboxId createdAt =>
    simp only [Checkpointing.step]
    refine ⟨fun key stamp e hmem => ?_, fun m hm => ?_⟩
    · obtain ⟨m, hm, he⟩ := h.committed key stamp e hmem
      exact ⟨m, List.mem_append_left _ hm, he⟩
    · rcases List.mem_append.1 hm with hm | hm
      · exact h.stamps m hm
      · exact (buildSeen_spec (Option.mem_toList.1 hm)).2
  | remember k =>
    simp only [Checkpointing.step]
    split
    · next m hm =>
        exact ⟨fun key stamp e hmem =>
          ⟨m, List.mem_of_getElem? hm, h.stamps m (List.mem_of_getElem? hm) _ _ _ hmem⟩, h.stamps⟩
    · exact h
  | forget =>
    refine ⟨fun key stamp e hmem => ?_, h.stamps⟩
    cases hmem

theorem run_consistent_iff (h : s.Inv)
    (hfetch : ∀ event ∈ events, ∀ v ∈ event.sightings, ∀ data ∈ v.chunks,
    fetch (sha.hexdigest data) = data) :
    (∀ m ∈ (s.run sha events).built, Consistent sha fetch m.manifest) ↔
      (∀ m ∈ s.built, Consistent sha fetch m.manifest) ∧ Steady sha s events := by
  induction events generalizing s with
  | nil => exact (and_iff_left trivial).symm
  | cons event events ih =>
    have hinv : (s.step sha event).Inv := h.step
    have hrest := ih hinv fun event' hevent' => hfetch event' (List.mem_cons_of_mem _ hevent')
    show (∀ m ∈ ((s.step sha event).run sha events).built, Consistent sha fetch m.manifest) ↔ _
    rw [hrest, Steady, ← and_assoc]
    refine and_congr_left fun _ => ?_
    cases event with
    | build sightings now generation sandboxId createdAt =>
      simp only [Checkpointing.step, Event.Whole, List.mem_append, Option.mem_toList,
        or_imp, forall_and]
      refine and_congr_right fun hbuilt => ?_
      have hcommitted : ∀ key stamp e, (key, stamp, e) ∈ s.builder.committed → e.type = .file →
          Matches sha fetch e := by
        intro key stamp e hmem hfile
        obtain ⟨m, hm, he⟩ := h.committed key stamp e hmem
        exact hbuilt m hm e he hfile
      have hseen := hfetch _ List.mem_cons_self
      cases hm : s.builder.buildSeen sha sightings now generation sandboxId createdAt with
      | none => simp
      | some m => simpa using consistent_buildSeen hm hcommitted hseen
    | remember k =>
      simp only [Checkpointing.step, Event.Whole, and_true]
      split <;> rfl
    | forget => simp [Checkpointing.step, Event.Whole]

def start (chunkSize : Nat) (h : 0 < chunkSize) : Checkpointing where
  builder := { chunkSize := chunkSize, chunkSize_pos := h }

end Checkpointing

/-- The manifests of a process are consistent exactly when every file that its builds read has, from
its `lstat` to the end of the file in the read loop, one length. -/
theorem consistent_iff (sha : Sha256) {fetch : Digest → Bytes} {chunkSize : Nat}
    (hsize : 0 < chunkSize)
    {events : List Checkpointing.Event}
    (hfetch : ∀ event ∈ events, ∀ v ∈ event.sightings, ∀ data ∈ v.chunks,
      fetch (sha.hexdigest data) = data) :
    (∀ m ∈ ((Checkpointing.start chunkSize hsize).run sha events).built,
      Consistent sha fetch m.manifest) ↔
      Checkpointing.Steady sha (Checkpointing.start chunkSize hsize) events := by
  have hinv : (Checkpointing.start chunkSize hsize).Inv := by
    refine ⟨?_, ?_⟩
    · intro key stamp e hmem
      cases hmem
    · intro m hm
      cases hm
  rw [Checkpointing.run_consistent_iff hinv hfetch, and_iff_right]
  intro m hm
  cases hm

/-! ## A note that grows -/

namespace Checkpointing

/-- SHA-256 told apart by length. -/
def lengthSha : Sha256 where
  hexdigest := fun data => List.replicate 63 '0' ++ [if data.length = 2 then '2' else '3']
  isDigest := fun data => by
    split
    · decide
    · decide

def noteFetch (d : Digest) : Bytes :=
  if d = lengthSha.hexdigest [118, 49] then [118, 49] else [118, 49, 10]

/-- `user/notes`, two bytes long when it is stat'ed. -/
def note (reads : List Bytes) : Sighting where
  path := ["user", "notes"].map Str.ofString
  metadata := { kind := .regular, mode := 0o644, mtimeNs := 0, size := 2 }
  reads := reads

def noteBuild (reads : List Bytes) : Event :=
  .build [note reads] 10000000000 1 (Str.ofString "sbx") (Str.ofString "now")

/-- Built, remembered and built again; the second build has nothing to read. -/
def noteEvents : List Event := [noteBuild [[118, 49]], .remember 0, noteBuild [[118, 49]]]

end Checkpointing

open Checkpointing in
theorem consistent_iff_note : ((start 4 (by decide)).run lengthSha noteEvents).built ≠ [] ∧
    ∀ m ∈ ((start 4 (by decide)).run lengthSha noteEvents).built,
    Consistent lengthSha noteFetch m.manifest := by
  refine ⟨List.ne_nil_of_length_pos (by decide), (consistent_iff lengthSha (by decide) ?_).2 ?_⟩
  · decide
  · have hwhole : ∀ v ∈ [note [[118, 49]]], v.chunks.flatten.length = v.metadata.size := by decide
    exact ⟨fun _ v hv _ => hwhole v hv, trivial, fun _ v hv _ => hwhole v hv, trivial⟩

open Checkpointing in
/-- A line feed is appended to the note between its `lstat` and the read. -/
theorem grown_note_inconsistent :
    ¬ ∀ m ∈ ((start 4 (by decide)).run lengthSha [noteBuild [[118, 49, 10]]]).built,
    Consistent lengthSha noteFetch m.manifest := by
  decide +kernel

end KiroCrew
