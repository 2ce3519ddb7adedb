import KiroCrew.Manifest

/-!
# What a build records

`recordedEntry` is the entry a visit records, if any; `visited` says all that one round of the loop
does to the accumulators, and `build_entries` that the manifest lists the recorded entries of the
visits in the order of their paths. The entries a reachable builder remembers have the stamp's own
mode, time and size (`Reachable.sound`), so a reused entry agrees with the metadata it is reused for
(`entry_spec`).
-/

namespace KiroCrew

namespace ManifestBuilder

variable (sha : Sha256) (b : ManifestBuilder)

def recordedEntry (v : Visit) : Option ManifestEntry :=
  if PersistencePolicy.includes v.path.relative then
    match v.metadata.kind with
    | .directory => some (directoryEntry v)
    | .symlink =>
      if safeSymlinkTarget v.path.relative (linkTarget v) then (linkTarget v).utf8Length.map
        (symlinkEntry v) else none
    | .regular => some ((reusable b v).elim (fileEntry sha b v) (·.2))
    | .other => none
  else none

/-- The chunks of a file added to those of the build. -/
def addChunks (chunks : Dict Digest Bytes) (datas : List Bytes) : Dict Digest Bytes :=
  datas.foldl (fun chunks data => Dict.setdefault chunks (sha.hexdigest data) data) chunks

/-- What a round of the loop can do. -/
inductive Visited (racyAfter : Int) (v : Visit) (acc : Progress) : Progress → Prop
  | skipped (hentry : recordedEntry sha b v = none) : Visited racyAfter v acc acc
  | listed {e : ManifestEntry} (hentry : recordedEntry sha b v = some e) (hchunks : e.chunks = []) :
      Visited racyAfter v acc { acc with entries := acc.entries ++ [e] }
  | reused {previous : FileStamp × ManifestEntry} (hentry : recordedEntry sha b v = some previous.2)
      (hprevious : reusable b v = some previous) :
      Visited racyAfter v acc
        { acc with
          entries := acc.entries ++ [previous.2]
          stamps := Dict.set acc.stamps v.path.text previous }
  | read {stamps : Stamps} (hentry : recordedEntry sha b v = some (fileEntry sha b v))
      (hstamps : stamps = acc.stamps ∨
        stamps = Dict.set acc.stamps v.path.text (FileStamp.of v.metadata, fileEntry sha b v)) :
      Visited racyAfter v acc
        { entries := acc.entries ++ [fileEntry sha b v]
          chunks := addChunks sha acc.chunks (readChunks b.chunkSize v.data)
          stamps := stamps }

variable {sha b} {racyAfter now : Int} {v : Visit} {acc acc' : Progress} {visits : List Visit}
    {generation : Nat}
  {sandboxId createdAt : Str} {built : BuiltManifest} {e : ManifestEntry}

theorem visited (h : visit sha b racyAfter acc v = some acc') :
    Visited sha b racyAfter v acc acc' := by
  unfold visit at h
  split at h
  · next hexcluded =>
    obtain rfl := Option.some.inj h
    refine .skipped ?_
    have hincludes : PersistencePolicy.includes v.path.relative = false := by simpa using hexcluded
    simp [recordedEntry, hincludes]
  · next hincluded =>
    have hincludes : PersistencePolicy.includes v.path.relative = true := by simpa using hincluded
    split at h
    · next hkind =>
      obtain rfl := Option.some.inj h
      exact .listed (by simp [recordedEntry, hincludes, hkind]) rfl
    · next hkind =>
      split at h
      · next hunsafe =>
        obtain rfl := Option.some.inj h
        have hrefused : safeSymlinkTarget v.path.relative (linkTarget v) = false := by
          simpa using hunsafe
        exact .skipped (by simp [recordedEntry, hincludes, hkind, hrefused])
      · next hsafe =>
        have haccepted : safeSymlinkTarget v.path.relative (linkTarget v) = true := by
          simpa using hsafe
        obtain ⟨size, hsize, rfl⟩ := Option.map_eq_some_iff.1 h
        exact .listed (by simp [recordedEntry, hincludes, hkind, haccepted, hsize]) rfl
    · next hkind =>
      split at h
      · next previous hprevious =>
        obtain rfl := Option.some.inj h
        exact .reused (by simp [recordedEntry, hincludes, hkind, hprevious]) hprevious
      · next hnone =>
        obtain rfl := Option.some.inj h
        refine .read (by simp [recordedEntry, hincludes, hkind, hnone]) ?_
        split
        · exact Or.inr rfl
        · exact Or.inl rfl
    · next hkind =>
      obtain rfl := Option.some.inj h
      exact .skipped (by simp [recordedEntry, hincludes, hkind])

/-- The rule for the loop: what every round keeps holds at its end. -/
theorem foldlM_visit {I : Progress → Prop}
    (hI : ∀ v ∈ visits, ∀ acc acc', I acc → Visited sha b racyAfter v acc acc' → I acc')
    (h : visits.foldlM (visit sha b racyAfter) acc = some acc') (hacc : I acc) : I acc' := by
  induction visits generalizing acc with
  | nil =>
    obtain rfl : acc = acc' := by simpa using h
    exact hacc
  | cons v visits ih =>
    simp only [List.foldlM_cons, Option.bind_eq_bind, Option.bind_eq_some_iff] at h
    obtain ⟨acc₁, hvisit, hrest⟩ := h
    exact ih (fun v hv => hI v (List.mem_cons_of_mem _ hv)) hrest
      (hI v List.mem_cons_self _ _ hacc (visited hvisit))

theorem Visited.entries (h : Visited sha b racyAfter v acc acc') :
    acc'.entries = acc.entries ++ (recordedEntry sha b v).toList := by
  cases h with
  | skipped hentry => simp [hentry]
  | listed hentry hchunks => simp [hentry]
  | reused hentry hprevious => simp [hentry]
  | read hentry hstamps => simp [hentry]

theorem foldlM_entries (h : visits.foldlM (visit sha b racyAfter) acc = some acc') :
    acc'.entries = acc.entries ++ visits.filterMap (recordedEntry sha b) := by
  induction visits generalizing acc with
  | nil =>
    obtain rfl : acc = acc' := by simpa using h
    simp
  | cons v visits ih =>
    simp only [List.foldlM_cons, Option.bind_eq_bind, Option.bind_eq_some_iff] at h
    obtain ⟨acc₁, hvisit, hrest⟩ := h
    rw [ih hrest, (visited hvisit).entries, List.append_assoc]
    cases hentry : recordedEntry sha b v <;> simp [hentry]

theorem build_eq_some (h : b.build sha visits now generation sandboxId createdAt = some built) :
    generation ≠ 0 ∧ sandboxId ≠ [] ∧ ∃ acc,
      visits.foldlM (visit sha b (now - racyWindowNs)) {} = some acc ∧
      built =
        { manifest :=
            { schemaVersion := manifestSchemaVersion, generation := generation,
              sandboxId := sandboxId, createdAt := createdAt, entries := sortEntries acc.entries }
          chunks := acc.chunks
          stamps := acc.stamps } := by
  unfold build at h
  split at h
  · simp at h
  · next hargs =>
    obtain ⟨acc, hacc, rfl⟩ := Option.map_eq_some_iff.1 h
    exact ⟨fun h0 => hargs (Or.inl h0), fun h0 => hargs (Or.inr h0), acc, hacc, rfl⟩

/-- The manifest lists what the visits record, in the order of the paths. -/
theorem build_entries (h : b.build sha visits now generation sandboxId createdAt = some built) :
    built.manifest.entries = sortEntries (visits.filterMap (recordedEntry sha b)) := by
  obtain ⟨-, -, acc, hacc, rfl⟩ := build_eq_some h
  rw [foldlM_entries hacc]
  rfl

theorem mem_sortEntries {entries : List ManifestEntry} : e ∈ sortEntries entries ↔ e ∈ entries :=
  List.mem_insertionSort _

theorem mem_build_entries (h : b.build sha visits now generation sandboxId createdAt = some built) :
    e ∈ built.manifest.entries ↔ ∃ v ∈ visits, recordedEntry sha b v = some e := by
  rw [build_entries h, mem_sortEntries, List.mem_filterMap]

/-! ## Chunks -/

theorem mem_keys_addChunks {chunks : Dict Digest Bytes} {datas : List Bytes} {d : Digest} :
    d ∈ Dict.keys (addChunks sha chunks datas) ↔ d ∈ Dict.keys chunks ∨
    d ∈ datas.map sha.hexdigest := by
  induction datas generalizing chunks with
  | nil => simp [addChunks]
  | cons data datas ih =>
    have hstep : addChunks sha chunks (data :: datas) =
        addChunks sha (Dict.setdefault chunks (sha.hexdigest data) data) datas := rfl
    rw [hstep, ih, Dict.mem_keys_setdefault, List.map_cons, List.mem_cons]
    tauto

/-- Every chunk of what was recorded is one of the build's own or one of `old`. -/
structure Covered (old : List Digest) (acc : Progress) : Prop where
  entries : ∀ e ∈ acc.entries, ∀ d ∈ e.chunks, d ∈ Dict.keys acc.chunks ∨ d ∈ old
  stamps : ∀ key stamp e, (key, stamp, e) ∈ acc.stamps → ∀ d ∈ e.chunks, d ∈ Dict.keys acc.chunks ∨
    d ∈ old

theorem Visited.covered {old : List Digest} (h : Visited sha b racyAfter v acc acc')
    (hold : ∀ key stamp e, (key, stamp, e) ∈ b.committed → ∀ d ∈ e.chunks, d ∈ old)
    (hacc : Covered old acc) :
    Covered old acc' := by
  cases h with
  | skipped hentry => exact hacc
  | @listed e hentry hchunks =>
    refine ⟨fun e' he' d hd => ?_, hacc.stamps⟩
    rcases List.mem_append.1 he' with he' | he'
    · exact hacc.entries e' he' d hd
    · obtain rfl := List.mem_singleton.1 he'
      rw [hchunks] at hd
      exact absurd hd List.not_mem_nil
  | @reused previous hentry hprevious =>
    have hprevious : ∀ d ∈ previous.2.chunks, d ∈ old :=
      hold v.path.text previous.1 previous.2
        (Dict.mem_of_get? (Option.filter_eq_some_iff.1 hprevious).1)
    refine ⟨fun e' he' d hd => ?_, fun key stamp e' he' d hd => ?_⟩
    · rcases List.mem_append.1 he' with he' | he'
      · exact hacc.entries e' he' d hd
      · obtain rfl := List.mem_singleton.1 he'
        exact Or.inr (hprevious d hd)
    · rcases Dict.mem_set he' with heq | he'
      · cases heq
        exact Or.inr (hprevious d hd)
      · exact hacc.stamps key stamp e' he' d hd
  | @read stamps hentry hstamps =>
    have hgrow : ∀ d, d ∈ Dict.keys acc.chunks ∨ d ∈ old →
        d ∈ Dict.keys (addChunks sha acc.chunks (readChunks b.chunkSize v.data)) ∨ d ∈ old :=
      fun d => Or.imp_left fun hd => mem_keys_addChunks.2 (Or.inl hd)
    have hnew : ∀ d ∈ (fileEntry sha b v).chunks,
        d ∈ Dict.keys (addChunks sha acc.chunks (readChunks b.chunkSize v.data)) ∨ d ∈ old :=
      fun d hd => Or.inl (mem_keys_addChunks.2 (Or.inr hd))
    refine ⟨fun e' he' d hd => ?_, fun key stamp e' he' d hd => ?_⟩
    · rcases List.mem_append.1 he' with he' | he'
      · exact hgrow d (hacc.entries e' he' d hd)
      · obtain rfl := List.mem_singleton.1 he'
        exact hnew d hd
    · rcases hstamps with rfl | rfl
      · exact hgrow d (hacc.stamps key stamp e' he' d hd)
      · rcases Dict.mem_set he' with heq | he'
        · cases heq
          exact hnew d hd
        · exact hgrow d (hacc.stamps key stamp e' he' d hd)

/-- The chunks a manifest references are among those the build returns and those of the entries it
reused. -/
theorem build_covered {old : List Digest}
    (h : b.build sha visits now generation sandboxId createdAt = some built)
    (hold : ∀ key stamp e, (key, stamp, e) ∈ b.committed → ∀ d ∈ e.chunks, d ∈ old) :
    (∀ e ∈ built.manifest.entries, ∀ d ∈ e.chunks, d ∈ Dict.keys built.chunks ∨ d ∈ old) ∧
      ∀ key stamp e, (key, stamp, e) ∈ built.stamps → ∀ d ∈ e.chunks, d ∈ Dict.keys built.chunks ∨
      d ∈ old := by
  obtain ⟨-, -, acc, hacc, rfl⟩ := build_eq_some h
  have hcovered : Covered old acc :=
    foldlM_visit (fun v _ acc acc' hI hv => hv.covered hold hI) hacc ⟨by simp, by simp⟩
  exact ⟨fun e he => hcovered.entries e (mem_sortEntries.1 he), hcovered.stamps⟩

/-- The entries of the stamps are in the manifest, and so are the chunks the build returns. -/
structure Listed (acc : Progress) : Prop where
  stamps : ∀ key stamp e, (key, stamp, e) ∈ acc.stamps → e ∈ acc.entries
  chunks : ∀ d ∈ Dict.keys acc.chunks, ∃ e ∈ acc.entries, d ∈ e.chunks

theorem Listed.append (h : Listed acc) (e : ManifestEntry) :
    Listed { acc with entries := acc.entries ++ [e] } where
  stamps := fun key stamp e' he' => List.mem_append_left _ (h.stamps key stamp e' he')
  chunks := fun d hd => (h.chunks d hd).imp fun _ he => ⟨List.mem_append_left _ he.1, he.2⟩

theorem Listed.set {key : Str} {x : FileStamp × ManifestEntry} (h : Listed acc)
    (hx : x.2 ∈ acc.entries) :
    Listed { acc with stamps := Dict.set acc.stamps key x } where
  stamps := fun key' stamp e he => by
    rcases Dict.mem_set he with heq | he
    · cases heq
      exact hx
    · exact h.stamps key' stamp e he
  chunks := h.chunks

theorem Visited.keeps_listed (h : Visited sha b racyAfter v acc acc') (hacc : Listed acc) :
    Listed acc' := by
  cases h with
  | skipped hentry => exact hacc
  | listed hentry hchunks => exact hacc.append _
  | reused hentry hprevious =>
    exact (hacc.append _).set (List.mem_append_right _ (List.mem_singleton_self _))
  | @read stamps hentry hstamps =>
    have hread : Listed { acc with
        entries := acc.entries ++ [fileEntry sha b v]
        chunks := addChunks sha acc.chunks (readChunks b.chunkSize v.data) } := by
      refine ⟨(hacc.append _).stamps, fun d hd => ?_⟩
      rcases mem_keys_addChunks.1 hd with hd | hd
      · exact (hacc.append _).chunks d hd
      · exact ⟨_, List.mem_append_right _ (List.mem_singleton_self _), hd⟩
    rcases hstamps with rfl | rfl
    · exact hread
    · exact hread.set (List.mem_append_right _ (List.mem_singleton_self _))

theorem build_listed (h : b.build sha visits now generation sandboxId createdAt = some built) :
    (∀ key stamp e, (key, stamp, e) ∈ built.stamps → e ∈ built.manifest.entries) ∧
      ∀ d ∈ Dict.keys built.chunks, ∃ e ∈ built.manifest.entries, d ∈ e.chunks := by
  obtain ⟨-, -, acc, hacc, rfl⟩ := build_eq_some h
  have hlisted : Listed acc :=
    foldlM_visit (fun v _ acc acc' hI hv => hv.keeps_listed hI) hacc ⟨by simp, by simp [Dict.keys]⟩
  exact ⟨fun key stamp e he => mem_sortEntries.2 (hlisted.stamps key stamp e he),
    fun d hd => (hlisted.chunks d hd).imp fun _ he => ⟨mem_sortEntries.2 he.1, he.2⟩⟩

/-! ## Entries -/

/-- The digest, the chunks and the target an entry of its type has. -/
def WellShaped (e : ManifestEntry) : Prop :=
  match e.type with
  | .file => (∃ d, e.digest = some d ∧ isDigest d = true) ∧ e.chunks ≠ [] ∧
      (∀ d ∈ e.chunks, isDigest d = true) ∧
      e.symlinkTarget = none
  | .directory => e.size = 0 ∧ e.digest = none ∧ e.chunks = [] ∧ e.symlinkTarget = none
  | .symlink => e.digest = none ∧ e.chunks = [] ∧
      ∃ target, e.symlinkTarget = some target ∧ safeSymlinkTarget (PosixPath.parse e.path) target =
      true ∧ target.safe = true

theorem readChunks_ne_nil (n : Nat) (data : Bytes) : readChunks n data ≠ [] := by
  unfold readChunks
  split
  · simp
  · next h => exact h

theorem fileEntry_wellShaped : WellShaped (fileEntry sha b v) := by
  refine ⟨⟨_, rfl, sha.isDigest _⟩, ?_, ?_, rfl⟩
  · simpa [fileEntry] using readChunks_ne_nil b.chunkSize v.data
  · simp only [fileEntry, List.mem_map, forall_exists_index, and_imp]
    rintro d data - rfl
    exact sha.isDigest data

/-- A remembered entry has the mode, time and size of its stamp. -/
structure SoundStamp (key : Str) (stamp : FileStamp) (e : ManifestEntry) : Prop where
  path : e.path = key
  type : e.type = .file
  mode : e.mode = stamp.mode
  mtimeNs : e.mtimeNs = stamp.mtimeNs
  size : e.size = stamp.size
  shape : WellShaped e

def Sound (stamps : Stamps) : Prop :=
  ∀ key stamp e, (key, stamp, e) ∈ stamps → SoundStamp key stamp e

theorem reusable_eq_some {previous : FileStamp × ManifestEntry} (h : reusable b v = some previous) :
    (v.path.text, previous) ∈ b.committed ∧ previous.1 = FileStamp.of v.metadata := by
  simp only [reusable, Option.filter_eq_some_iff, decide_eq_true_eq] at h
  exact ⟨Dict.mem_of_get? h.1, h.2⟩

theorem fileEntry_sound : SoundStamp v.path.text (FileStamp.of v.metadata) (fileEntry sha b v) where
  path := rfl
  type := rfl
  mode := rfl
  mtimeNs := rfl
  size := rfl
  shape := fileEntry_wellShaped

theorem Visited.sound (h : Visited sha b racyAfter v acc acc') (hb : Sound b.committed)
    (hacc : Sound acc.stamps) :
    Sound acc'.stamps := by
  cases h with
  | skipped hentry => exact hacc
  | listed hentry hchunks => exact hacc
  | @reused previous hentry hprevious =>
    intro key stamp e hmem
    rcases Dict.mem_set hmem with heq | hmem
    · cases heq
      exact hb _ _ _ (reusable_eq_some hprevious).1
    · exact hacc _ _ _ hmem
  | read hentry hstamps =>
    rcases hstamps with rfl | rfl
    · exact hacc
    · intro key stamp e hmem
      rcases Dict.mem_set hmem with heq | hmem
      · cases heq
        exact fileEntry_sound
      · exact hacc _ _ _ hmem

theorem Reachable.sound (h : Reachable sha b) : Sound b.committed := by
  induction h with
  | new hpos =>
    intro key stamp e hmem
    exact absurd hmem List.not_mem_nil
  | remember hb hbuild ih =>
    obtain ⟨-, -, acc, hacc, rfl⟩ := build_eq_some hbuild
    refine foldlM_visit (I := fun acc => Sound acc.stamps)
      (fun v _ acc acc' hI hv => hv.sound ih hI) hacc ?_
    intro key stamp e hmem
    exact absurd hmem List.not_mem_nil
  | forget hb ih =>
    intro key stamp e hmem
    exact absurd hmem List.not_mem_nil

/-- The type of an entry for each kind of file. -/
def entryType : FileKind → Option EntryType
  | .directory => some .directory
  | .symlink => some .symlink
  | .regular => some .file
  | .other => none

/-- An entry and the visit that records it. -/
structure EntryOf (v : Visit) (e : ManifestEntry) : Prop where
  path : e.path = v.path.text
  includes : PersistencePolicy.includes v.path.relative = true
  type : entryType v.metadata.kind = some e.type
  mode : e.mode = v.metadata.mode
  mtimeNs : e.mtimeNs = v.metadata.mtimeNs
  directorySize : e.type = .directory → e.size = 0
  fileSize : e.type = .file → e.size = v.metadata.size
  link : e.type = .symlink → e.symlinkTarget = some (linkTarget v) ∧ (linkTarget v).utf8Length =
    some e.size ∧
    safeSymlinkTarget v.path.relative (linkTarget v) = true
  shape : (∀ name ∈ v.path, PosixPath.isPart name = true) → v.path ≠ [] → WellShaped e

theorem entry_spec (hb : Reachable sha b) (h : recordedEntry sha b v = some e) : EntryOf v e := by
  unfold recordedEntry at h
  split at h
  · next hincludes =>
    split at h
    · next hkind =>
      obtain rfl := Option.some.inj h
      exact ⟨rfl, hincludes, by rw [hkind]; rfl, rfl, rfl, fun _ => rfl, nofun, nofun, fun _ _ =>
        ⟨rfl, rfl, rfl, rfl⟩⟩
    · next hkind =>
      split at h
      · next hsafe =>
        obtain ⟨size, hsize, rfl⟩ := Option.map_eq_some_iff.1 h
        refine ⟨rfl, hincludes, by rw [hkind]; rfl, rfl, rfl, nofun, nofun, fun _ =>
          ⟨rfl, hsize, hsafe⟩, fun hparts hne => ?_⟩
        refine ⟨rfl, rfl, linkTarget v, rfl, ?_, Str.safe_of_utf8Length hsize⟩
        show safeSymlinkTarget (PosixPath.parse v.path.text) (linkTarget v) = true
        rw [Path.parse_text hparts hne]
        exact hsafe
      · simp at h
    · next hkind =>
      obtain rfl := Option.some.inj h
      cases hprevious : reusable b v with
      | none =>
        exact ⟨rfl, hincludes, by rw [hkind]; rfl, rfl, rfl, nofun, fun _ => rfl, nofun, fun _ _ =>
          fileEntry_wellShaped⟩
      | some previous =>
        obtain ⟨hmem, hstamp⟩ := reusable_eq_some hprevious
        have hsound : SoundStamp v.path.text previous.1 previous.2 := hb.sound _ _ _ hmem
        rw [hstamp] at hsound
        exact ⟨hsound.path, hincludes, by rw [hkind]; exact congrArg some hsound.type.symm,
          hsound.mode, hsound.mtimeNs,
          fun hdirectory => absurd (hsound.type.symm.trans hdirectory) (by decide), fun _ =>
          hsound.size,
          fun hlink => absurd (hsound.type.symm.trans hlink) (by decide), fun _ _ => hsound.shape⟩
    · simp at h
  · simp at h

end ManifestBuilder

end KiroCrew
