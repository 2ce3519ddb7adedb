import KiroCrew.Materialize
import KiroCrew.Restorable

/-!
# The layout of a built manifest

A build of a tree that does not change meanwhile describes, entry by entry, the recorded paths with
their nodes (`locate`), parents before children: `materialize_build` is `materialize_staged` for it.
A remembered entry is as good as a fresh one when its file has not changed behind its stamp
(`Faithful`); a builder that remembers nothing has no such entry.
-/

namespace KiroCrew

/-- No file of the tree has the stamp of a remembered entry and other bytes. -/
def ManifestBuilder.Faithful (sha : Sha256) (b : ManifestBuilder) (t : Snapshot) : Prop :=
  ∀ p ∈ t.recorded, ∀ v, t.visitAt p = some v → ∀ previous, reusable b v = some previous →
    previous.2 = fileEntry sha b v

theorem ManifestBuilder.faithful_of_empty {sha : Sha256} {b : ManifestBuilder} {t : Snapshot}
    (h : b.committed = []) :
    b.Faithful sha t := by
  intro p hp v hv previous hprevious
  simp [reusable, h, Dict.get?] at hprevious

/-- Every chunk of the recorded files comes back from the store as it was. -/
def Snapshot.Fetched (sha : Sha256) (n : Nat) (fetch : Digest → Option Bytes) (t : Snapshot) :
    Prop :=
  ∀ p ∈ t.recorded, ∀ node, t.node p = some node → Restore.Fetched sha n fetch (p, node)

namespace Restore

open ManifestBuilder

/-- The path of an entry and what the tree has there. -/
def locate (t : Tree) (e : ManifestEntry) : Path × Node :=
  ((PosixPath.parse e.path).parts, (t.node (PosixPath.parse e.path).parts).getD .special)

variable {t : Snapshot} {sha : Sha256} {b : ManifestBuilder} {now : Int} {generation : Nat}
    {sandboxId createdAt : Str}
  {built : BuiltManifest} {e : ManifestEntry} {p : Path} {n : Node}

theorem mem_build (h : b.build sha t.visits now generation sandboxId createdAt = some built) :
    e ∈ built.manifest.entries ↔ ∃ p ∈ t.walk, t.entryAt sha b p = some e := by
  rw [build_entries_tree h, mem_sortEntries, List.mem_filterMap]

/-- The entry of a file, remembered or not. -/
theorem eq_fileEntry {v : Visit} (h : recordedEntry sha b v = some e)
    (hkind : v.metadata.kind = .regular)
    (hfaithful : ∀ previous, reusable b v = some previous → previous.2 = fileEntry sha b v) :
    e = fileEntry sha b v := by
  unfold recordedEntry at h
  split at h
  · rw [hkind] at h
    replace h := Option.some.inj h
    cases hprevious : reusable b v with
    | none => rw [← h, hprevious, Option.elim_none]
    | some previous => rw [← h, hprevious, Option.elim_some, hfaithful previous hprevious]
  · simp at h

structure Origin (t : Snapshot) (sha : Sha256) (b : ManifestBuilder) (e : ManifestEntry) (p : Path)
    (n : Node) : Prop where
  recorded : p ∈ t.recorded
  node : t.node p = some n
  entry : recordedEntry sha b { path := p, metadata := t.metadata p n, target := n.target,
                                data := n.data } = some e
  located : locate t.toTree e = (p, n)

theorem origin (hb : b.Reachable sha)
    (h : b.build sha t.visits now generation sandboxId createdAt = some built)
    (he : e ∈ built.manifest.entries) : ∃ p n, Origin t sha b e p n := by
  obtain ⟨p, hwalk, hentry⟩ := (mem_build h).1 he
  obtain ⟨n, hn⟩ := Tree.node_of_mem_walk hwalk
  have hrecords : Tree.records p n = true := by
    by_contra hrecords
    rw [Snapshot.entryAt_none hn (by simpa using hrecords)] at hentry
    simp at hentry
  rw [Snapshot.entryAt, Snapshot.visitAt_eq hn, Option.bind_some] at hentry
  have hparts : (PosixPath.parse e.path).parts = p := by
    rw [(entry_spec hb hentry).path]
    exact congrArg PosixPath.parts
      (Path.parse_text (Tree.isPart_of_node hn) (Tree.ne_nil_of_mem_walk hwalk))
  exact ⟨p, n, Tree.mem_recorded.2 ⟨hwalk, n, hn, hrecords⟩, hn,
    hentry, by rw [locate, hparts, hn]; rfl⟩

/-- A path with what restore makes of its node. -/
def restored (x : Path × Node) : Path × Node := (x.1, restoredNode x.2)

@[simp] theorem restored_fst {x : Path × Node} : (restored x).1 = x.1 := rfl

@[simp] theorem isDirectory_restoredNode : (restoredNode n).isDirectory = n.isDirectory := by
  cases n <;> rfl

theorem Origin.describes {fetch : Digest → Option Bytes} (h : Origin t sha b e p n)
    (hb : b.Reachable sha)
    (hfaithful : b.Faithful sha t) (hfetched : t.Fetched sha b.chunkSize fetch) :
    Describes sha fetch (restored (locate t.toTree e)) e := by
  have hspec := entry_spec hb h.entry
  have hpath := congrArg Prod.fst h.located
  have htype := hspec.type
  rw [h.located]
  rcases n with ⟨mode, mtimeNs⟩ | ⟨mode, mtimeNs, target⟩ | ⟨mode, mtimeNs, data⟩ | -
  · exact ⟨hpath, hspec.mtimeNs, (Option.some.inj htype).symm, hspec.mode⟩
  · have hlink := (Option.some.inj htype).symm
    exact ⟨hpath, hspec.mtimeNs, rfl, hlink, (hspec.link hlink).1⟩
  · have hfile := eq_fileEntry h.entry rfl (hfaithful p h.recorded _ (Snapshot.visitAt_eq h.node))
    refine ⟨hpath, hspec.mtimeNs, ?_⟩
    rw [hfile]
    refine ⟨rfl, rfl, rfl, ?_, readChunks b.chunkSize data, ?_,
      flatten_readChunks b.chunkSize_pos data⟩
    · show some (sha.hexdigest (readChunks b.chunkSize data).flatten) = some (sha.hexdigest data)
      rw [flatten_readChunks b.chunkSize_pos]
    · show ((readChunks b.chunkSize data).map sha.hexdigest).map fetch = _
      rw [List.map_map]
      exact List.map_congr_left fun piece hpiece => hfetched p h.recorded _ h.node piece hpiece
  · exact absurd htype (by simp [Snapshot.metadata, Node.kind, entryType])

/-- The nodes of the recorded paths, in the order of the manifest. -/
def layout (t : Tree) (entries : List ManifestEntry) : List (Path × Node) := entries.map (locate t)

theorem mem_layout (hb : b.Reachable sha)
    (h : b.build sha t.visits now generation sandboxId createdAt = some built) :
    (p, n) ∈ layout t.toTree built.manifest.entries ↔ p ∈ t.recorded ∧ t.node p = some n := by
  constructor
  · intro hmem
    obtain ⟨e, he, hlocate⟩ := List.mem_map.1 hmem
    obtain ⟨q, m, horigin⟩ := origin hb h he
    obtain ⟨rfl, rfl⟩ := Prod.mk.inj (horigin.located.symm.trans hlocate)
    exact ⟨horigin.recorded, horigin.node⟩
  · rintro ⟨hp, hn⟩
    obtain ⟨hwalk, m, hm, hrecords⟩ := Tree.mem_recorded.1 hp
    obtain ⟨e, he⟩ : ∃ e, t.entryAt sha b p = some e :=
      Snapshot.entryAt_isSome hm hrecords (encodable_of_build h hwalk)
    have hmem : e ∈ built.manifest.entries := (mem_build h).2 ⟨p, hwalk, he⟩
    refine List.mem_map.2 ⟨e, hmem, ?_⟩
    have hpath : (PosixPath.parse e.path).parts = p := by
      rw [Snapshot.entryAt, Snapshot.visitAt_eq hm, Option.bind_some] at he
      rw [(entry_spec hb he).path]
      exact congrArg PosixPath.parts
        (Path.parse_text (Tree.isPart_of_node hm) (Tree.ne_nil_of_mem_walk hwalk))
    rw [locate, hpath, hn]
    rfl

theorem describes_build {fetch : Digest → Option Bytes} (hb : b.Reachable sha)
    (hfaithful : b.Faithful sha t)
    (h : b.build sha t.visits now generation sandboxId createdAt = some built)
    (hfetched : t.Fetched sha b.chunkSize fetch) :
    List.Forall₂ (Describes sha fetch) ((layout t.toTree built.manifest.entries).map restored)
      built.manifest.entries := by
  rw [layout, List.map_map, List.forall₂_map_left_iff, List.forall₂_same]
  intro e he
  obtain ⟨p, n, horigin⟩ := origin hb h he
  exact horigin.describes hb hfaithful hfetched

theorem isDirectory_above {q : Path} (hp : p ∈ t.recorded) (hq : q ∈ t.recorded) (hqp : q <+: p)
    (hne : q ≠ p) :
    ∃ m, t.node q = some m ∧ m.isDirectory = true := by
  obtain ⟨-, m, hm, hrecords⟩ := Tree.mem_recorded.1 hq
  simp only [Tree.records, Bool.and_eq_true] at hrecords
  obtain ⟨root, hroot, hle⟩ :=
    PersistencePolicy.covers_relative (PersistencePolicy.covers_of_includes hrecords.1)
  exact (Tree.mem_walk_of_prefix (Tree.mem_recorded.1 hp).1 hroot hle hqp hne).2

theorem order_build (hb : b.Reachable sha)
    (h : b.build sha t.visits now generation sandboxId createdAt = some built) :
    (layout t.toTree built.manifest.entries).Pairwise
      fun y x => ¬ x.1 <+: y.1 ∧ (y.1 <+: x.1 → y.2.isDirectory = true) := by
  have hdistinct : built.manifest.entries.Pairwise fun e e' => e.path ≤ e'.path ∧
      e.path ≠ e'.path :=
    List.Pairwise.and (List.pairwise_map.1 (sorted_paths h))
      (List.pairwise_map.1 (nodup_paths hb h))
  rw [layout, List.pairwise_map]
  refine hdistinct.imp_of_mem fun {e e'} he he' hlt => ?_
  obtain ⟨p, n, hp⟩ := origin hb h he
  obtain ⟨p', n', hp'⟩ := origin hb h he'
  rw [hp.located, hp'.located]
  have hjoin : e.path = PosixPath.join p := (entry_spec hb hp.entry).path.trans <|
    Path.text_eq_join (mem_recorded_path hp.recorded).1 (mem_recorded_path hp.recorded).2
  have hjoin' : e'.path = PosixPath.join p' := (entry_spec hb hp'.entry).path.trans <|
    Path.text_eq_join (mem_recorded_path hp'.recorded).1 (mem_recorded_path hp'.recorded).2
  rw [hjoin, hjoin'] at hlt
  constructor
  · rintro ⟨rest, rfl⟩
    exact hlt.2 (le_antisymm hlt.1 (PosixPath.join_le_append p' rest))
  · intro hle
    obtain ⟨m, hm, hdir⟩ :=
      isDirectory_above hp'.recorded hp.recorded hle fun heq => hlt.2 (congrArg _ heq)
    obtain rfl := Option.some.inj (hp.node.symm.trans hm)
    exact hdir

/-- Restore writes out what a build recorded. -/
theorem materialize_build {fetch : Digest → Option Bytes} {stage : Path} {fs : FileSystem}
    (hb : b.Reachable sha)
    (hfaithful : b.Faithful sha t)
    (h : b.build sha t.visits now generation sandboxId createdAt = some built)
    (hfetched : t.Fetched sha b.chunkSize fetch) (hbase : fs.isDirectory stage = true)
    (hempty : ∀ r, r ≠ [] → fs.node (stage ++ r) = none) :
    ∃ fs', materialize sha fetch stage fs built.manifest.entries = some fs' ∧
      Materialized stage fs ((layout t.toTree built.manifest.entries).map restored) fs' := by
  refine materialize_staged hbase hempty (fun x hx => ?_) ?_
    (describes_build hb hfaithful h hfetched)
  · obtain ⟨y, hy, rfl⟩ := List.mem_map.1 hx
    obtain ⟨hrecorded, -⟩ := (mem_layout hb h).1 (show (y.1, y.2) ∈ _ from hy)
    exact (mem_recorded_path hrecorded).2
  · rw [List.pairwise_map]
    simpa [restored] using order_build hb h

end Restore

end KiroCrew
