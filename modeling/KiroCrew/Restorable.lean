import KiroCrew.RoundTrip

/-!
# Which checkpoints restore accepts

A build never asks whether restore will take what it records: the decoder refuses a modification
time before the epoch, more than 100 000 entries, and more than 50 GiB in all.
`restore_accepts_iff`: a build of a tree is decoded, to the entries it was built with, exactly when
the recorded paths of the tree stay within these limits (`Snapshot.Restorable`).
-/

namespace KiroCrew

/-- `_SANDBOX_PATTERN` -/
def isSandboxId (text : Str) : Bool :=
  text.length = 30 && (Str.ofString "sbx_").isPrefixOf text &&
    (text.drop 4).all fun c => decide (48 ≤ c ∧ c ≤ 57 ∨ 65 ≤ c ∧ c ≤ 90)

structure SandboxId where
  text : Str
  pattern : isSandboxId text = true

/-- What `datetime.isoformat` prints. -/
structure IsoTime where
  text : Str
  ascii : (text.all fun c => decide (c < 0x80)) = true

theorem Str.safe_of_ascii {s : Str} (h : (s.all fun c => decide (c < 0x80)) = true) :
    s.safe = true := by
  simp only [List.all_eq_true, decide_eq_true_eq] at h
  simp only [Str.safe, List.all_eq_true, Bool.and_eq_true, decide_eq_true_eq,
    Bool.not_eq_true', Str.isHigh,
    decide_eq_false_iff_not]
  intro c hc
  have := h c hc
  omega

theorem SandboxId.safe (s : SandboxId) : s.text.safe = true := by
  obtain ⟨text, pattern⟩ := s
  simp only [isSandboxId, Bool.and_eq_true, decide_eq_true_eq, List.isPrefixOf_iff_prefix,
    List.all_eq_true] at pattern
  obtain ⟨⟨-, rest, rfl⟩, hall⟩ := pattern
  have hdrop : (Str.ofString "sbx_" ++ rest).drop 4 = rest := rfl
  rw [hdrop] at hall
  refine Str.safe_append.2 ⟨by decide, Str.safe_of_ascii ?_⟩
  simp only [List.all_eq_true, decide_eq_true_eq]
  intro c hc
  have := hall c hc
  omega

/-! ## The entries of a tree -/

namespace Snapshot

open ManifestBuilder

variable {t : Snapshot} {sha : Sha256} {b : ManifestBuilder} {p : Path} {n : Node}

/-- The limits of the decoder, on the paths a build records. -/
structure Restorable (t : Snapshot) : Prop where
  mtime : ∀ p ∈ t.recorded, 0 ≤ t.mtimeNs p
  count : t.recorded.length ≤ maxRestoreFiles
  size : (t.recorded.map t.size).sum ≤ maxRestoreBytes

def entryAt (t : Snapshot) (sha : Sha256) (b : ManifestBuilder) (p : Path) : Option ManifestEntry :=
  (t.visitAt p).bind (recordedEntry sha b)

/-- Path, time and size of the entry for `p`. -/
def summaryAt (t : Snapshot) (p : Path) : Str × Int × Nat :=
  (p.text, t.mtimeNs p, t.size p)

def summary (e : ManifestEntry) : Str × Int × Nat := (e.path, e.mtimeNs, e.size)

/-- No link that would be recorded has a target without UTF-8 encoding. -/
def Encodable (t : Snapshot) (p : Path) : Prop :=
  ∀ n, t.node p = some n → Tree.records p n = true → n.kind = .symlink →
    ((PosixPath.parse n.target).str.utf8Length).isSome

theorem visitAt_eq (h : t.node p = some n) :
    t.visitAt p = some { path := p, metadata := t.metadata p n, target := n.target,
                         data := n.data } := by
  simp [visitAt, h]

theorem entryAt_none (h : t.node p = some n) (hn : Tree.records p n = false) :
    t.entryAt sha b p = none := by
  simp only [entryAt, visitAt_eq h, Option.bind_some, recordedEntry]
  split
  · next hincludes =>
    cases n <;> simp_all [Tree.records, metadata, Node.kind, linkTarget, Node.target]
  · rfl

theorem entryAt_isSome (h : t.node p = some n) (hn : Tree.records p n = true)
    (hutf : t.Encodable p) :
    ∃ e, t.entryAt sha b p = some e := by
  have hlink := hutf n h hn
  simp only [Tree.records, Bool.and_eq_true] at hn
  simp only [entryAt, visitAt_eq h, Option.bind_some, recordedEntry, hn.1, if_true]
  cases n with
  | directory mode mtimeNs => exact ⟨_, rfl⟩
  | symlink mode mtimeNs target =>
    obtain ⟨size, hsize⟩ := Option.isSome_iff_exists.1 (hlink rfl)
    have hsafe := hn.2
    simp only [Node.target] at hsize
    simp [metadata, Node.kind, linkTarget, Node.target, hsafe, hsize]
  | file mode mtimeNs data => exact ⟨_, rfl⟩
  | special => simp at hn

theorem entryAt_summary (hb : b.Reachable sha) (h : t.node p = some n) {e : ManifestEntry}
    (he : t.entryAt sha b p = some e) : summary e = t.summaryAt p := by
  simp only [entryAt, visitAt_eq h, Option.bind_some] at he
  have hspec := entry_spec hb he
  have hsize : e.size = n.size := by
    have htype := hspec.type
    cases n with
    | directory mode mtimeNs => exact hspec.directorySize (Option.some.inj htype).symm
    | symlink mode mtimeNs target =>
      have hlink := (hspec.link (Option.some.inj htype).symm).2.1
      simp only [linkTarget, Node.target] at hlink
      simp [Node.size, hlink]
    | file mode mtimeNs data => exact hspec.fileSize (Option.some.inj htype).symm
    | special => exact absurd htype (by simp [metadata, Node.kind, entryType])
  simp [summary, summaryAt, Tree.mtimeNs, Tree.size, h, hspec.path, hspec.mtimeNs, hsize, metadata]

/-- Path by path, the entries of a build are the recorded paths. -/
theorem filterMap_summary (hb : b.Reachable sha) {paths : List Path}
    (hpaths : ∀ p ∈ paths, ∃ n, t.node p = some n)
    (hutf : ∀ p ∈ paths, t.Encodable p) :
    (paths.filterMap (t.entryAt sha b)).map summary =
      (paths.filter fun p => (t.node p).any (Tree.records p)).map t.summaryAt := by
  induction paths with
  | nil => rfl
  | cons p paths ih =>
    have ih := ih (fun p hp => hpaths p (List.mem_cons_of_mem _ hp)) fun p hp =>
      hutf p (List.mem_cons_of_mem _ hp)
    obtain ⟨n, hn⟩ := hpaths p List.mem_cons_self
    by_cases hrecords : Tree.records p n = true
    · obtain ⟨e, he⟩ : ∃ e, t.entryAt sha b p = some e :=
        entryAt_isSome hn hrecords (hutf p List.mem_cons_self)
      simp [he, hn, hrecords, ih, entryAt_summary hb hn he]
    · have hnone : t.entryAt sha b p = none := entryAt_none hn (by simpa using hrecords)
      simp [hnone, hn, hrecords, ih]

end Snapshot

namespace ManifestBuilder

variable {t : Snapshot} {sha : Sha256} {b : ManifestBuilder} {now : Int} {generation : Nat}
    {sandboxId createdAt : Str}
  {built : BuiltManifest} {e : ManifestEntry}

theorem visit_of_foldlM {racyAfter : Int} {visits : List Visit} {acc acc' : Progress} {v : Visit}
    (h : visits.foldlM (visit sha b racyAfter) acc = some acc') (hv : v ∈ visits) :
    ∃ acc acc', visit sha b racyAfter acc v = some acc' := by
  induction visits generalizing acc with
  | nil => exact absurd hv List.not_mem_nil
  | cons w visits ih =>
    simp only [List.foldlM_cons, Option.bind_eq_bind, Option.bind_eq_some_iff] at h
    obtain ⟨acc₁, hvisit, hrest⟩ := h
    rcases List.mem_cons.1 hv with rfl | hv
    · exact ⟨acc, acc₁, hvisit⟩
    · exact ih hrest hv

theorem encodable_of_build (h : b.build sha t.visits now generation sandboxId createdAt =
    some built) {p : Path}
    (hp : p ∈ t.walk) : t.Encodable p := by
  intro n hn hrecords hkind
  obtain ⟨-, -, acc, hacc, -⟩ := build_eq_some h
  have hv : _ ∈ t.visits := List.mem_filterMap.2 ⟨p, hp, Snapshot.visitAt_eq hn⟩
  obtain ⟨acc₀, acc₁, hvisit⟩ := visit_of_foldlM hacc hv
  simp only [Tree.records, Bool.and_eq_true] at hrecords
  cases n with
  | symlink mode mtimeNs target =>
    simp only [visit, hrecords.1, Snapshot.metadata, Node.kind, linkTarget, Node.target, hrecords.2,
      Bool.not_true,
      Bool.false_eq_true, if_false, Option.map_eq_some_iff] at hvisit
    obtain ⟨size, hsize, -⟩ := hvisit
    simp [Node.target, hsize]
  | _ => simp [Node.kind] at hkind

theorem build_entries_tree (h : b.build sha t.visits now generation sandboxId createdAt =
    some built) :
    built.manifest.entries = sortEntries (t.walk.filterMap (t.entryAt sha b)) := by
  rw [build_entries h, Snapshot.visits, List.filterMap_filterMap]
  rfl

/-- The manifest of a tree lists its recorded paths, each with the time and size of its node. -/
theorem build_summaries (hb : b.Reachable sha)
    (h : b.build sha t.visits now generation sandboxId createdAt = some built) :
    (built.manifest.entries.map Snapshot.summary).Perm (t.recorded.map t.summaryAt) := by
  rw [build_entries_tree h]
  refine ((List.perm_insertionSort _ _).map _).trans ?_
  rw [Snapshot.filterMap_summary hb (fun p hp => Tree.node_of_mem_walk hp) fun p hp =>
    encodable_of_build h hp]
  exact List.Perm.refl _

theorem build_paths (hb : b.Reachable sha)
    (h : b.build sha t.visits now generation sandboxId createdAt = some built) :
    (built.manifest.entries.map (·.path)).Perm (t.recorded.map Path.text) := by
  have := (build_summaries hb h).map Prod.fst
  simpa [List.map_map, Function.comp_def, Snapshot.summary, Snapshot.summaryAt] using this

theorem mem_recorded_path {p : Path} (hp : p ∈ t.recorded) :
    (∀ name ∈ p, PosixPath.isPart name = true) ∧ p ≠ [] := by
  obtain ⟨hwalk, n, hn, -⟩ := Tree.mem_recorded.1 hp
  exact ⟨Tree.isPart_of_node hn, Tree.ne_nil_of_mem_walk hwalk⟩

theorem nodup_paths (hb : b.Reachable sha)
    (h : b.build sha t.visits now generation sandboxId createdAt = some built) :
    (built.manifest.entries.map (·.path)).Nodup := by
  refine (build_paths hb h).nodup_iff.2 (List.Nodup.map_on ?_ (Tree.nodup_walk.filter _))
  intro p hp q hq heq
  obtain ⟨hp, hp'⟩ := mem_recorded_path hp
  obtain ⟨hq, hq'⟩ := mem_recorded_path hq
  rw [Path.text_eq_join hp hp', Path.text_eq_join hq hq'] at heq
  exact PosixPath.join_injective hp hq heq

theorem pairwise_sortEntries (entries : List ManifestEntry) :
    (sortEntries entries).Pairwise fun e e' => e.path ≤ e'.path := by
  have htotal : Std.Total fun e e' : ManifestEntry => e.path ≤ e'.path :=
    ⟨fun e e' => le_total e.path e'.path⟩
  have htrans : IsTrans ManifestEntry fun e e' => e.path ≤ e'.path := ⟨fun _ _ _ => le_trans⟩
  exact List.pairwise_insertionSort _ _

theorem sorted_paths (h : b.build sha t.visits now generation sandboxId createdAt = some built) :
    (built.manifest.entries.map (·.path)).Pairwise (· ≤ ·) := by
  rw [build_entries h]
  exact List.pairwise_map.2 (pairwise_sortEntries _)

theorem admissible_of_build (hb : b.Reachable sha)
    (h : b.build sha t.visits now generation sandboxId createdAt = some built)
    (he : e ∈ built.manifest.entries) : ManifestDecoder.Admissible e := by
  obtain ⟨v, hv, hrecorded⟩ := (mem_build_entries h).1 he
  obtain ⟨p, hwalk, hvisit⟩ := List.mem_filterMap.1 hv
  obtain ⟨n, hn⟩ := Tree.node_of_mem_walk hwalk
  rw [Snapshot.visitAt_eq hn] at hvisit
  obtain rfl := Option.some.inj hvisit
  have hspec := entry_spec hb hrecorded
  have hparts := Tree.isPart_of_node hn
  have hne := Tree.ne_nil_of_mem_walk hwalk
  have hparse : PosixPath.parse e.path = p.relative := by
    rw [hspec.path]; exact Path.parse_text hparts hne
  refine ⟨by rw [hparse, hspec.path]; rfl, by rw [hparse]; exact hspec.includes,
    hspec.shape hparts hne, ?_⟩
  rw [hspec.path, Path.text_eq_join hparts hne]
  exact PosixPath.safe_join (Tree.safe_of_node hn)

theorem writable_of_build {sandbox : SandboxId} {created : IsoTime} (hb : b.Reachable sha)
    (h : b.build sha t.visits now generation sandbox.text created.text = some built) :
    ManifestDecoder.Writable built.manifest where
  schema := by
    obtain ⟨-, -, acc, -, rfl⟩ := build_eq_some h
    rfl
  sandboxId := by
    obtain ⟨-, -, acc, -, rfl⟩ := build_eq_some h
    exact sandbox.safe
  createdAt := by
    obtain ⟨-, -, acc, -, rfl⟩ := build_eq_some h
    exact Str.safe_of_ascii created.ascii
  admissible := fun _ he => admissible_of_build hb h he
  sorted := sorted_paths h
  nodup := nodup_paths hb h

theorem restorable_iff (hb : b.Reachable sha)
    (h : b.build sha t.visits now generation sandboxId createdAt = some built) :
    ManifestDecoder.Restorable built.manifest.entries ↔ t.Restorable := by
  have hperm := build_summaries hb h
  have hcount : built.manifest.entries.length = t.recorded.length := by simpa using hperm.length_eq
  have hsize : ManifestDecoder.totalSize built.manifest.entries =
      (t.recorded.map t.size).sum := by
    have := (hperm.map fun s => s.2.2).sum_nat
    simpa [List.map_map, Function.comp_def, Snapshot.summary, Snapshot.summaryAt,
      ManifestDecoder.totalSize] using this
  have hmtime : (∀ e ∈ built.manifest.entries, 0 ≤ e.mtimeNs) ↔ ∀ p ∈ t.recorded,
      0 ≤ t.mtimeNs p := by
    have hall : (∀ s ∈ built.manifest.entries.map Snapshot.summary, 0 ≤ s.2.1) ↔
        ∀ s ∈ t.recorded.map t.summaryAt, 0 ≤ s.2.1 :=
      forall_congr' fun s => by rw [hperm.mem_iff]
    simpa only [List.mem_map, forall_exists_index, and_imp, forall_apply_eq_imp_iff₂,
      Snapshot.summary,
      Snapshot.summaryAt] using hall
  constructor
  · rintro ⟨h1, h2, h3⟩
    exact ⟨hmtime.1 h1, hcount ▸ h2, hsize ▸ h3⟩
  · rintro ⟨h1, h2, h3⟩
    exact ⟨hmtime.2 h1, hcount ▸ h2, hsize ▸ h3⟩

/-- What a build wrote is decoded to itself or refused. -/
theorem decode_build {sandbox : SandboxId} {created : IsoTime} {m : PersistenceManifest}
    (hb : b.Reachable sha)
    (h : b.build sha t.visits now generation sandbox.text created.text = some built) :
    ManifestDecoder.decode built.manifest.toJson sandbox.text generation = .ok m ↔ t.Restorable ∧
        m = built.manifest := by
  have hids : built.manifest.sandboxId = sandbox.text ∧ built.manifest.generation = generation := by
    obtain ⟨-, -, acc, -, rfl⟩ := build_eq_some h
    exact ⟨rfl, rfl⟩
  rw [← restorable_iff hb h, ← ManifestDecoder.decode_toJson (writable_of_build hb h),
    hids.1, hids.2]

end ManifestBuilder

/-! ## Two trees -/

namespace Example

/-- The SHA-256 of nothing. -/
def emptyDigest : Digest :=
  "e3b0c44298fc1c149afbf4c8996fb92427ae41e4649b934ca495991b7852b855".toList

/-- The SHA-256 of the manifest of `tree 0`. -/
def manifestDigest : Digest :=
  "40026158dd44907f58aa7b405eca73b5cb9760e91fb5085e169c78c0f343df38".toList

/-- SHA-256 on the two inputs that occur. -/
def sha256 : Sha256 where
  hexdigest := fun data => if data = [] then emptyDigest else manifestDigest
  isDigest := fun data => by
    split
    · decide
    · decide

def sandbox : SandboxId where
  text := Str.ofString "sbx_01ARZ3NDEKTSV4RRFFQ69G5FAV"
  pattern := by decide

def created : IsoTime where
  text := Str.ofString "2026-10-29T00:00:00Z"
  ascii := by decide

def builder : ManifestBuilder where
  chunkSize := 4 * 1024 * 1024
  chunkSize_pos := by decide

/-- One directory under a root, with an empty file in it, both of the given time. -/
def tree (mtimeNs : Int) : Snapshot where
  toTree := Tree.ofNodes
    [(["user"].map Str.ofString, .directory 0o755 mtimeNs),
      (["user", "notes"].map Str.ofString, .file 0o644 mtimeNs [])]
    (by
      simp only [List.mem_cons, List.not_mem_nil, or_false]
      rintro x (rfl | rfl)
      · show ∀ name ∈ ["user"].map Str.ofString, isFileName name = true
        decide
      · show ∀ name ∈ ["user", "notes"].map Str.ofString, isFileName name = true
        decide)
  ctimeNs := fun _ => 0
  inode := fun _ => 1

def built (mtimeNs : Int) : Option BuiltManifest :=
  builder.build sha256 (tree mtimeNs).visits 1000000000000000000 1 sandbox.text created.text

theorem builder_reachable : builder.Reachable sha256 := .new _

end Example

/-! ## The limits -/

/-- A checkpoint of a tree is accepted by restore, entry for entry, exactly when its recorded paths
keep the limits. -/
theorem restore_accepts_iff (sha : Sha256) {b : ManifestBuilder} (hb : b.Reachable sha)
    (t : Snapshot) (now : Int)
    (generation : Nat) (sandbox : SandboxId) (created : IsoTime) {built : BuiltManifest}
    (h : b.build sha t.visits now generation sandbox.text created.text = some built) :
    (∃ m, ManifestDecoder.decode built.manifest.toJson sandbox.text generation = .ok m ∧
      m.entries = built.manifest.entries) ↔
      t.Restorable := by
  constructor
  · rintro ⟨m, hm, -⟩
    exact ((ManifestBuilder.decode_build hb h).1 hm).1
  · intro ht
    exact ⟨built.manifest, (ManifestBuilder.decode_build hb h).2 ⟨ht, rfl⟩, rfl⟩

open Example in
theorem restore_accepts_iff_epoch : ∃ bm, built 0 = some bm ∧
    ∃ m, ManifestDecoder.decode bm.manifest.toJson sandbox.text 1 = .ok m ∧
    m.entries = bm.manifest.entries := by
  obtain ⟨bm, hbm⟩ := Option.isSome_iff_exists.1 (show (built 0).isSome = true by decide)
  exact ⟨bm, hbm, (restore_accepts_iff sha256 builder_reachable (tree 0) _ 1 sandbox created hbm).2
    ⟨by decide, by decide, by decide⟩⟩

open Example in
/-- One nanosecond before the epoch, and the generation is committed and refused. -/
theorem negative_time_refused : ¬ ∀ (sha : Sha256) (b : ManifestBuilder), b.Reachable sha →
    ∀ (t : Snapshot) (now : Int)
    (generation : Nat) (sandbox : SandboxId) (created : IsoTime) (bm : BuiltManifest),
    b.build sha t.visits now generation sandbox.text created.text = some bm →
      ∃ m, ManifestDecoder.decode bm.manifest.toJson sandbox.text generation = .ok m ∧
      m.entries = bm.manifest.entries := by
  intro h
  obtain ⟨bm, hbm⟩ := Option.isSome_iff_exists.1 (show (built (-1)).isSome = true by decide)
  obtain ⟨m, hm, -⟩ := h sha256 builder builder_reachable (tree (-1)) _ 1 sandbox created bm hbm
  have hrestorable := ((ManifestBuilder.decode_build builder_reachable hbm).1 hm).1
  exact absurd hrestorable.mtime (by decide)

end KiroCrew
