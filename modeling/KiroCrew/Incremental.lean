import KiroCrew.Build
import KiroCrew.Lib.Machine
import KiroCrew.Tree

/-!
# Incremental builds

A builder keeps the entries of the build it last remembered, each with the stamp it was read under,
and a stamp that names the file it was read from: `Disk` has the bytes of every file by its inode
number, inside and outside the workspace. `Session` adds the clock and when the bytes under each
number last changed. What the stamps keep along a run is `Session.Inv`: a stamp is older than the
racy window of the build that took it, and names the bytes of its entry unless these changed since.
So `incremental_build`: where every file has a time no earlier than its last change less the window,
a build reuses only what it would read again.
-/

namespace KiroCrew

/-- The files by inode number; `snapshot` is the workspace. -/
structure Disk where
  snapshot : Snapshot
  content : Nat → Bytes
  faithful : ∀ p mode mtimeNs data, snapshot.node p = some (.file mode mtimeNs data) →
    content (snapshot.inode p) = data

structure Session where
  disk : Disk
  now : Int
  changed : Nat → Option Int := fun _ => none
  builder : ManifestBuilder
  built : List BuiltManifest := []
  /-- The manifest of the build that was last remembered, none after `forget`. -/
  baseline : Option PersistenceManifest := none

inductive BuilderEvent
  /-- Any change of the file system, `elapsed` ns after the event before. -/
  | mutate (elapsed : Nat) (disk : Disk)
  | build (generation : Nat) (sandboxId createdAt : Str)
  /-- Of any build made so far. -/
  | remember (k : Nat)
  | forget

namespace Session

variable (sha : Sha256) (s : Session)

/-- A build of the workspace as it stands, by any builder. -/
def buildWith (b : ManifestBuilder) (generation : Nat) (sandboxId createdAt : Str) :
    Option BuiltManifest :=
  b.build sha s.disk.snapshot.visits s.now generation sandboxId createdAt

def fresh : ManifestBuilder where
  chunkSize := s.builder.chunkSize
  chunkSize_pos := s.builder.chunkSize_pos

def mutate (elapsed : Nat) (disk : Disk) : Session where
  disk := disk
  now := s.now + elapsed
  changed i := if disk.content i = s.disk.content i then s.changed i else some (s.now + elapsed)
  builder := s.builder
  built := s.built
  baseline := s.baseline

def step : BuilderEvent → Option Session
  | .mutate elapsed disk => some (s.mutate elapsed disk)
  | .build generation sandboxId createdAt =>
    match s.buildWith sha s.builder generation sandboxId createdAt with
    | some built => some { s with built := s.built ++ [built] }
    | none => some s
  | .remember k => (s.built[k]?).map fun built =>
      { s with builder := s.builder.remember built, baseline := some built.manifest }
  | .forget => some { s with builder := s.builder.forget, baseline := none }

/-- Every file has a modification or change time no earlier than its last change less the window. A
change of the mode shows in the stamp itself. -/
def Stamped : Prop :=
  ∀ p mode mtimeNs data, s.disk.snapshot.node p = some (.file mode mtimeNs data) →
    ∀ t, s.changed (s.disk.snapshot.inode p) = some t →
      t - racyWindowNs ≤ mtimeNs ∨ t - racyWindowNs ≤ s.disk.snapshot.ctimeNs p

def Reaches : Session → Session → Prop := Machine.Reaches (step sha) Machine.Any

def start (disk : Disk) (now : Int) (chunkSize : Nat) (h : 0 < chunkSize) : Session where
  disk := disk
  now := now
  builder := { chunkSize := chunkSize, chunkSize_pos := h }

/-! ## Stamps -/

/-- What a build records of a file with this stamp and these bytes. -/
def stampedEntry (key : Str) (stamp : FileStamp) (data : Bytes) : ManifestEntry where
  path := key
  type := .file
  mode := stamp.mode
  mtimeNs := stamp.mtimeNs
  size := stamp.size
  digest := some (sha.hexdigest (readChunks s.builder.chunkSize data).flatten)
  chunks := (readChunks s.builder.chunkSize data).map sha.hexdigest
  symlinkTarget := none

/-- The entry is of the bytes under the stamp's number, unless they changed after the stamp was
taken. -/
def Current (key : Str) (stamp : FileStamp) (e : ManifestEntry) : Prop :=
  ∃ since ≤ s.now, stamp.mtimeNs < since - racyWindowNs ∧ stamp.ctimeNs < since - racyWindowNs ∧
    ((∀ t, s.changed stamp.inode = some t → t < since) →
    e = s.stampedEntry sha key stamp (s.disk.content stamp.inode))

structure Inv : Prop where
  committed : ∀ key stamp e, (key, stamp, e) ∈ s.builder.committed → s.Current sha key stamp e
  built : ∀ m ∈ s.built, ∀ key stamp e, (key, stamp, e) ∈ m.stamps → s.Current sha key stamp e ∧
    e ∈ m.manifest.entries
  baseline : ∀ key stamp e, (key, stamp, e) ∈ s.builder.committed → ∃ m, s.baseline = some m ∧
    e ∈ m.entries

variable {sha s} {s' : Session} {elapsed : Nat} {disk : Disk} {key : Str} {stamp : FileStamp}
    {e : ManifestEntry}
  {generation : Nat} {sandboxId createdAt : Str} {m : BuiltManifest}

theorem Current.mutate (h : s.Current sha key stamp e) :
    (s.mutate elapsed disk).Current sha key stamp e := by
  obtain ⟨since, hsince, hmtime, hctime, heq⟩ := h
  have hnow : (s.mutate elapsed disk).now = s.now + elapsed := rfl
  refine ⟨since, by omega, hmtime, hctime, fun hold => ?_⟩
  by_cases hsame : disk.content stamp.inode = s.disk.content stamp.inode
  · simp only [Session.mutate, hsame, if_true] at hold
    show e = s.stampedEntry sha key stamp (disk.content stamp.inode)
    rw [hsame]
    exact heq hold
  · -- the bytes change now, and the stamp is not from the future
    have hlt : s.now + elapsed < since := hold _ (by simp [Session.mutate, hsame])
    omega

theorem Current.entry {p : Path} {mode : Mode} {mtimeNs : Int} {data : Bytes}
    (h : s.Current sha key stamp e) (hs : s.Stamped)
    (hnode : s.disk.snapshot.node p = some (.file mode mtimeNs data))
    (hstamp : stamp = FileStamp.of (s.disk.snapshot.metadata p (.file mode mtimeNs data))) :
    e = s.stampedEntry sha key stamp data := by
  obtain ⟨since, -, hmtime, hctime, heq⟩ := h
  have hbytes : s.disk.content stamp.inode = data := by
    rw [hstamp]
    exact s.disk.faithful p mode mtimeNs data hnode
  rw [← hbytes]
  refine heq fun t ht => ?_
  rw [hstamp] at hmtime hctime ht
  rcases hs p mode mtimeNs data hnode t ht with hle | hle
  · exact Int.lt_of_sub_lt_sub_right (lt_of_le_of_lt hle hmtime)
  · exact Int.lt_of_sub_lt_sub_right (lt_of_le_of_lt hle hctime)

/-! ## One build -/

section Visits

open ManifestBuilder

variable {b b' : ManifestBuilder} {racyAfter clock : Int} {acc acc' : Progress} {v : Visit}
    {visits : List Visit}

theorem visit_stamps (h : visit sha b racyAfter acc v = some acc') : acc'.stamps = acc.stamps ∨
    v.metadata.kind = .regular ∧ ((∃ previous, reusable b v = some previous ∧
        acc'.stamps = Dict.set acc.stamps v.path.text previous) ∨
      v.metadata.mtimeNs < racyAfter ∧ v.metadata.ctimeNs < racyAfter ∧
        acc'.stamps = Dict.set acc.stamps v.path.text
          (FileStamp.of v.metadata, fileEntry sha b v)) := by
  unfold visit at h
  split at h
  · obtain rfl := Option.some.inj h
    exact Or.inl rfl
  · split at h
    · obtain rfl := Option.some.inj h
      exact Or.inl rfl
    · split at h
      · obtain rfl := Option.some.inj h
        exact Or.inl rfl
      · obtain ⟨size, -, rfl⟩ := Option.map_eq_some_iff.1 h
        exact Or.inl rfl
    · next hkind =>
      split at h
      · next previous hprevious =>
        obtain rfl := Option.some.inj h
        exact Or.inr ⟨hkind, Or.inl ⟨previous, hprevious, rfl⟩⟩
      · obtain rfl := Option.some.inj h
        by_cases hold : v.metadata.mtimeNs < racyAfter ∧ v.metadata.ctimeNs < racyAfter
        · exact Or.inr ⟨hkind, Or.inr ⟨hold.1, hold.2, if_pos hold⟩⟩
        · exact Or.inl (if_neg hold)
    · obtain rfl := Option.some.inj h
      exact Or.inl rfl

theorem visit_eq_none : visit sha b racyAfter acc v = none ↔
    PersistencePolicy.includes v.path.relative = true ∧
    v.metadata.kind = .symlink ∧ safeSymlinkTarget v.path.relative (linkTarget v) = true ∧
      (linkTarget v).utf8Length = none := by
  unfold visit
  cases hincludes : PersistencePolicy.includes v.path.relative with
  | false => simp
  | true =>
    cases hkind : v.metadata.kind with
    | directory => simp
    | other => simp
    | regular =>
      simp only [Bool.not_true, Bool.false_eq_true, if_false, reduceCtorEq, false_and,
        and_false, iff_false]
      split <;> simp
    | symlink =>
      cases hsafe : safeSymlinkTarget v.path.relative (linkTarget v) with
      | false => simp
      | true => simp

/-- Builders that would record the same are not told apart by their manifests. -/
theorem foldlM_visit_entries {acc₁ : Progress}
    (h : ∀ v ∈ visits, recordedEntry sha b v = recordedEntry sha b' v)
    (hacc : acc.entries = acc₁.entries) : (visits.foldlM (visit sha b racyAfter) acc).map
    (·.entries) =
      (visits.foldlM (visit sha b' racyAfter) acc₁).map (·.entries) := by
  induction visits generalizing acc acc₁ with
  | nil =>
    show some acc.entries = some acc₁.entries
    rw [hacc]
  | cons v visits ih =>
    rw [List.foldlM_cons, List.foldlM_cons]
    cases hb : visit sha b racyAfter acc v with
    | none => rw [visit_eq_none.2 (visit_eq_none.1 hb)]; rfl
    | some acc' =>
      cases hb' : visit sha b' racyAfter acc₁ v with
      | none => rw [visit_eq_none.2 (visit_eq_none.1 hb')] at hb; cases hb
      | some acc₁' =>
        refine ih (fun v hv => h v (List.mem_cons_of_mem _ hv)) ?_
        rw [(visited hb).entries, (visited hb').entries, hacc, h v List.mem_cons_self]

theorem build_manifest (h : ∀ v ∈ visits, recordedEntry sha b v = recordedEntry sha b' v) :
    (b.build sha visits clock generation sandboxId createdAt).map (·.manifest) =
      (b'.build sha visits clock generation sandboxId createdAt).map (·.manifest) := by
  have hentries : (visits.foldlM (visit sha b (clock - racyWindowNs)) {}).map (·.entries) =
      (visits.foldlM (visit sha b' (clock - racyWindowNs)) {}).map (·.entries) :=
      foldlM_visit_entries h rfl
  unfold build
  split
  · rfl
  · cases hb : visits.foldlM (visit sha b (clock - racyWindowNs)) {} with
    | none =>
      rw [hb, Option.map_none, eq_comm, Option.map_eq_none_iff] at hentries
      rw [hentries]
    | some acc =>
      rw [hb, Option.map_some, eq_comm] at hentries
      obtain ⟨acc₁, hb', heq⟩ := Option.map_eq_some_iff.1 hentries
      rw [hb', Option.map_some, Option.map_some, Option.map_some, Option.map_some, heq]

/-- The rule for the loop, with what a round has computed. -/
theorem foldlM_visit_rule {I : Progress → Prop}
    (hI : ∀ v ∈ visits, ∀ acc acc', I acc → visit sha b racyAfter acc v = some acc' → I acc')
    (h : visits.foldlM (visit sha b racyAfter) acc = some acc') (hacc : I acc) : I acc' := by
  induction visits generalizing acc with
  | nil =>
    obtain rfl : acc = acc' := by simpa using h
    exact hacc
  | cons v visits ih =>
    simp only [List.foldlM_cons, Option.bind_eq_bind, Option.bind_eq_some_iff] at h
    obtain ⟨acc₁, hvisit, hrest⟩ := h
    exact ih (fun v hv => hI v (List.mem_cons_of_mem _ hv)) hrest
      (hI v List.mem_cons_self _ _ hacc hvisit)

end Visits

/-! ## Runs -/

section Step

open ManifestBuilder

variable {v : Visit} {p : Path}

theorem visitAt_regular (h : s.disk.snapshot.visitAt p = some v)
    (hkind : v.metadata.kind = .regular) :
    ∃ mode mtimeNs data, s.disk.snapshot.node p = some (.file mode mtimeNs data) ∧ v.path = p ∧
      v.metadata = s.disk.snapshot.metadata p (.file mode mtimeNs data) ∧ v.data = data := by
  obtain ⟨n, hn, rfl⟩ := Option.map_eq_some_iff.1 h
  cases n with
  | file mode mtimeNs data => exact ⟨mode, mtimeNs, data, hn, rfl, rfl, rfl⟩
  | directory mode mtimeNs => cases hkind
  | symlink mode mtimeNs target => cases hkind
  | special => cases hkind

theorem Inv.reused {b : ManifestBuilder} {previous : FileStamp × ManifestEntry} (h : s.Inv sha)
    (hs : s.Stamped)
    (hv : s.disk.snapshot.visitAt p = some v) (hkind : v.metadata.kind = .regular)
    (hprevious : reusable s.builder v = some previous) (hsize : b.chunkSize = s.builder.chunkSize) :
    previous.2 = fileEntry sha b v := by
  obtain ⟨mode, mtimeNs, data, hnode, rfl, hmetadata, rfl⟩ := visitAt_regular hv hkind
  obtain ⟨hmem, hstamp⟩ := reusable_eq_some hprevious
  rw [hmetadata] at hstamp
  rw [(h.committed _ _ _ hmem).entry hs hnode hstamp, stampedEntry, fileEntry, hsize,
    hstamp, hmetadata]
  rfl

theorem Inv.recordedEntry (h : s.Inv sha) (hs : s.Stamped)
    (hv : s.disk.snapshot.visitAt p = some v) :
    ManifestBuilder.recordedEntry sha s.builder v =
    ManifestBuilder.recordedEntry sha s.fresh v := by
  unfold ManifestBuilder.recordedEntry
  cases hkind : v.metadata.kind with
  | regular =>
    have hfresh : reusable s.fresh v = none := rfl
    cases hprevious : reusable s.builder v with
    | none => rw [hfresh]; rfl
    | some previous =>
      simp only [hfresh, Option.elim_some, Option.elim_none,
        h.reused (b := s.fresh) hs hv hkind hprevious rfl]
  | directory => rfl
  | symlink => rfl
  | other => rfl

theorem Inv.build (h : s.Inv sha)
    (hbuild : s.buildWith sha s.builder generation sandboxId createdAt = some m)
    (hmem : (key, stamp, e) ∈ m.stamps) :
    s.Current sha key stamp e := by
  obtain ⟨-, -, acc, hacc, rfl⟩ := build_eq_some hbuild
  have hall : ∀ key stamp e, (key, stamp, e) ∈ acc.stamps → s.Current sha key stamp e := by
    refine foldlM_visit_rule (I := fun acc => ∀ key stamp e, (key, stamp, e) ∈ acc.stamps →
      s.Current sha key stamp e) ?_ hacc ?_
    · intro v hv acc acc' hI hvisit key stamp e hmem
      obtain ⟨p, -, hvisitAt⟩ := List.mem_filterMap.1 hv
      rcases visit_stamps hvisit with heq | ⟨hkind,
        ⟨previous, hprevious, heq⟩ | ⟨hmtime, hctime, heq⟩⟩
      · exact hI key stamp e (heq ▸ hmem)
      · rw [heq] at hmem
        rcases Dict.mem_set hmem with heq | hmem
        · cases heq
          exact h.committed _ _ _ (reusable_eq_some hprevious).1
        · exact hI key stamp e hmem
      · rw [heq] at hmem
        rcases Dict.mem_set hmem with heq | hmem
        · cases heq
          refine ⟨s.now, le_refl _, hmtime, hctime, fun _ => ?_⟩
          obtain ⟨mode, mtimeNs, data, hnode, rfl, hmetadata, rfl⟩ := visitAt_regular hvisitAt hkind
          have hbytes : s.disk.content (FileStamp.of v.metadata).inode = v.data := by
            rw [hmetadata]
            exact s.disk.faithful _ _ _ _ hnode
          rw [hbytes]
          rfl
        · exact hI key stamp e hmem
    · intro key stamp e hmem
      cases hmem
  exact hall key stamp e hmem

theorem Inv.step {event : BuilderEvent} (h : s.Inv sha) (hstep : s.step sha event = some s') :
    s'.Inv sha := by
  cases event with
  | mutate elapsed disk =>
    obtain rfl := Option.some.inj hstep
    exact ⟨fun key stamp e hmem => (h.committed key stamp e hmem).mutate,
      fun m hm key stamp e hmem =>
      ⟨(h.built m hm key stamp e hmem).1.mutate, (h.built m hm key stamp e hmem).2⟩, h.baseline⟩
  | build generation sandboxId createdAt =>
    simp only [Session.step] at hstep
    split at hstep
    · next m hm =>
      obtain rfl := Option.some.inj hstep
      refine ⟨h.committed, fun m' hm' key stamp e hmem => ?_, h.baseline⟩
      rcases List.mem_append.1 hm' with hm' | hm'
      · exact h.built m' hm' key stamp e hmem
      · obtain rfl := List.mem_singleton.1 hm'
        exact ⟨h.build hm hmem, (build_listed hm).1 _ _ _ hmem⟩
    · obtain rfl := Option.some.inj hstep
      exact h
  | remember k =>
    obtain ⟨m, hm, rfl⟩ := Option.map_eq_some_iff.1 hstep
    have hmem := List.mem_of_getElem? hm
    exact ⟨fun key stamp e he => (h.built m hmem key stamp e he).1, h.built,
      fun key stamp e he => ⟨m.manifest, rfl, (h.built m hmem key stamp e he).2⟩⟩
  | forget =>
    obtain rfl := Option.some.inj hstep
    refine ⟨?_, h.built, ?_⟩ <;> intro key stamp e hmem <;> cases hmem

theorem step_chunkSize {event : BuilderEvent} (hstep : s.step sha event = some s') :
    s'.builder.chunkSize = s.builder.chunkSize := by
  cases event with
  | mutate elapsed disk =>
    obtain rfl := Option.some.inj hstep
    rfl
  | build generation sandboxId createdAt =>
    simp only [Session.step] at hstep
    split at hstep <;> obtain rfl := Option.some.inj hstep <;> rfl
  | remember k =>
    obtain ⟨m, -, rfl⟩ := Option.map_eq_some_iff.1 hstep
    rfl
  | forget =>
    obtain rfl := Option.some.inj hstep
    rfl

theorem Reaches.inv {clock : Int} {chunkSize : Nat} {hsize : 0 < chunkSize}
    (h : Reaches sha (start disk clock chunkSize hsize) s) : s.Inv sha ∧
    s.builder.chunkSize = chunkSize := by
  refine Machine.Reaches.invariant (I := fun s => s.Inv sha ∧
    s.builder.chunkSize = chunkSize) ?_ h ?_
  · rintro s event s' ⟨hinv, hsize⟩ - hstep
    exact ⟨hinv.step hstep, (step_chunkSize hstep).trans hsize⟩
  · refine ⟨⟨?_, ?_, ?_⟩, rfl⟩
    · intro key stamp e hmem
      cases hmem
    · intro m hm
      cases hm
    · intro key stamp e hmem
      cases hmem

/-- Only what the builder remembers is left out of the chunks. -/
theorem Inv.chunks (h : s.Inv sha)
    (hbuild : s.buildWith sha s.builder generation sandboxId createdAt = some m)
    (hmem : e ∈ m.manifest.entries) {d : Digest} (hd : d ∈ e.chunks) :
    d ∈ Dict.keys m.chunks ∨ ∃ baseline, s.baseline = some baseline ∧ ∃ e' ∈ baseline.entries,
        d ∈ e'.chunks := by
  have hold : ∀ key stamp e, (key, stamp, e) ∈ s.builder.committed → ∀ d ∈ e.chunks,
      d ∈ (s.baseline.toList.flatMap (·.entries)).flatMap (·.chunks) := by
    intro key stamp e hmem d hd
    obtain ⟨baseline, hbaseline, he⟩ := h.baseline key stamp e hmem
    rw [hbaseline]
    exact List.mem_flatMap.2 ⟨e, by simpa using he, hd⟩
  rcases (build_covered hbuild hold).1 e hmem d hd with hd | hd
  · exact Or.inl hd
  · obtain ⟨e', he', hd⟩ := List.mem_flatMap.1 hd
    obtain ⟨baseline, hbaseline, he'⟩ := List.mem_flatMap.1 he'
    exact Or.inr ⟨baseline, Option.mem_toList.1 hbaseline, e', he', hd⟩

end Step

end Session

/-! ## A note is rewritten -/

namespace Session

def noteNodes (mtimeNs : Int) (data : Bytes) : Dict Path Node :=
  [(["user"].map Str.ofString, .directory 0o755 0),
    (["user", "notes"].map Str.ofString, .file 0o644 mtimeNs data)]

theorem noteNodes_fileName (mtimeNs : Int) (data : Bytes) :
    ∀ x ∈ noteNodes mtimeNs data, ∀ name ∈ x.1, isFileName name = true := by
  simp only [noteNodes, List.mem_cons, List.not_mem_nil, or_false]
  rintro x (rfl | rfl)
  · show ∀ name ∈ ["user"].map Str.ofString, isFileName name = true
    decide
  · show ∀ name ∈ ["user", "notes"].map Str.ofString, isFileName name = true
    decide

def noteTree (mtimeNs : Int) (data : Bytes) : Tree :=
  Tree.ofNodes (noteNodes mtimeNs data) (noteNodes_fileName mtimeNs data)

theorem noteTree_file {p : Path} {mode : Mode} {mtimeNs mtimeNs' : Int} {data data' : Bytes}
    (h : (noteTree mtimeNs data).node p = some (.file mode mtimeNs' data')) : mtimeNs' = mtimeNs ∧
    data' = data := by
  have hmem : (p, Node.file mode mtimeNs' data') ∈ noteNodes mtimeNs data := Dict.mem_of_get? h
  simp only [noteNodes, List.mem_cons, Prod.mk.injEq, reduceCtorEq, and_false, List.not_mem_nil,
    or_false, false_or,
    Node.file.injEq] at hmem
  exact ⟨hmem.2.2.1, hmem.2.2.2⟩

/-- `user/notes` is the file with number 7. -/
def noteDisk (mtimeNs : Int) (data : Bytes) : Disk where
  snapshot := { noteTree mtimeNs data with ctimeNs := fun _ => mtimeNs, inode := fun _ => 7 }
  content := fun _ => data
  faithful := fun _ _ _ _ h => (noteTree_file h).2.symm

def noteSha : Sha256 where
  hexdigest := fun data => List.replicate 63 '0' ++ [if data = [118, 49] then '1' else '2']
  isDigest := fun data => by
    split
    · decide
    · decide

def noteStart : Session := start (noteDisk 0 [118, 49]) 10000000000 4 (by decide)

/-- Built, remembered, and rewritten to the same length five seconds later. -/
def noteEvents : List BuilderEvent :=
  [.build 1 (Str.ofString "sbx") (Str.ofString "now"), .remember 0, .mutate 5000000000
    (noteDisk 15000000000 [118, 50])]

theorem noteEvents_run : (Machine.runAlong (step noteSha) Machine.Any noteStart noteEvents).isSome =
    true := by
  decide +kernel

/-- The builder remembers the note as it was. -/
def noteSession : Session :=
  (Machine.runAlong (step noteSha) Machine.Any noteStart noteEvents).get noteEvents_run

theorem noteSession_stamped : noteSession.Stamped := by
  intro p mode mtimeNs data hnode t ht
  have hdisk : noteSession.disk = noteDisk 15000000000 [118, 50] := rfl
  have hchanged : noteSession.changed 7 = some 15000000000 := rfl
  rw [hdisk] at hnode ht
  obtain ⟨rfl, -⟩ := noteTree_file hnode
  obtain rfl : 15000000000 = t := Option.some.inj (hchanged.symm.trans ht)
  exact Or.inl (by decide)

end Session

/-! ## The main result -/

open Session in
/-- A build, after any changes of the files and any builds remembered or abandoned, has the manifest
of a build that reads every file, and the chunks it leaves out are those of the manifest last
remembered. -/
theorem incremental_build (sha : Sha256) {disk : Disk} {now : Int} {chunkSize : Nat}
    (hsize : 0 < chunkSize) {s : Session}
    (h : Session.Reaches sha (start disk now chunkSize hsize) s) (hs : s.Stamped) (generation : Nat)
    (sandboxId createdAt : Str) :
    (s.buildWith sha s.builder generation sandboxId createdAt).map (·.manifest) =
        (s.buildWith sha { chunkSize := chunkSize, chunkSize_pos := hsize } generation sandboxId
        createdAt).map (·.manifest) ∧
      ∀ m, s.buildWith sha s.builder generation sandboxId createdAt = some m →
        ∀ e ∈ m.manifest.entries, ∀ d ∈ e.chunks,
        d ∈ Dict.keys m.chunks ∨ ∃ baseline, s.baseline = some baseline ∧ ∃ e' ∈ baseline.entries,
        d ∈ e'.chunks := by
  obtain ⟨hinv, hchunkSize⟩ := h.inv
  refine ⟨?_, fun m hm e he d hd => hinv.chunks hm he hd⟩
  subst hchunkSize
  refine build_manifest fun v hv => ?_
  obtain ⟨p, -, hvisitAt⟩ := List.mem_filterMap.1 hv
  exact hinv.recordedEntry hs hvisitAt

theorem incremental_build_note : Session.noteSession.builder.committed.length = 1 ∧
    (Session.noteSession.buildWith Session.noteSha Session.noteSession.builder 2
      (Str.ofString "sbx") (Str.ofString "now")).map
        (·.manifest) =
      (Session.noteSession.buildWith Session.noteSha { chunkSize := 4, chunkSize_pos := by decide }
        2 (Str.ofString "sbx")
          (Str.ofString "now")).map (·.manifest) := by
  have hrun := Machine.Reaches.of_isSome Session.noteEvents_run
  exact ⟨rfl, (incremental_build Session.noteSha (by decide) hrun Session.noteSession_stamped 2
    (Str.ofString "sbx")
    (Str.ofString "now")).1⟩

end KiroCrew
