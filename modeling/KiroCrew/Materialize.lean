import KiroCrew.Build
import KiroCrew.FileSystem

/-!
# Writing out a manifest

`RestoreEngine._materialize`: every chunk is fetched once and dropped after its last use, the
entries are written in order, and the directories get their modes and times at the end, last one
first, when nothing is created in them any more. `materialize_staged`: for a manifest that describes
a layout of nodes, parents before children, all of this succeeds and the stage then holds exactly
the layout and the directories above it.
-/

namespace KiroCrew

namespace Restore

/-- The prefetched chunks: how often each is still to be used, and whether its future is still
held. -/
structure Futures where
  remaining : Digest → Int
  live : Digest → Bool

def Futures.submit (digests : List Digest) : Futures where
  remaining := fun digest => digests.count digest
  live := fun digest => decide (digest ∈ digests)

/-- `futures[digest].result()` and the count after it. -/
def Futures.result (fetch : Digest → Option Bytes) (f : Futures) (digest : Digest) :
    Option (Bytes × Futures) :=
  if f.live digest then
    (fetch digest).map fun chunk =>
      (chunk, { remaining := Function.update f.remaining digest (f.remaining digest - 1)
                live := if f.remaining digest - 1 = 0 then Function.update f.live digest false
                  else f.live })
  else none

structure Materializing where
  fs : FileSystem
  futures : Futures
  directories : List (Path × ManifestEntry) := []

/-- One round of the loop over the chunks of a file; `whole` is what has been written. -/
def writeChunk (fetch : Digest → Option Bytes) (destination : Path)
    (acc : FileSystem × Futures × Bytes) (digest : Digest) :
    Option (FileSystem × Futures × Bytes) :=
  (acc.2.1.result fetch digest).bind fun r =>
    (acc.1.write destination r.1).map fun fs => (fs, r.2, acc.2.2 ++ r.1)

def materializeFile (sha : Sha256) (fetch : Digest → Option Bytes) (destination : Path)
    (st : Materializing)
    (e : ManifestEntry) : Option Materializing :=
  (st.fs.openWrite destination).bind fun fs =>
    (e.chunks.foldlM (writeChunk fetch destination) (fs, st.futures, [])).bind fun acc =>
      -- `IntegrityError`
      if acc.2.2.length ≠ e.size ∨ some (sha.hexdigest acc.2.2) ≠ e.digest then none
      else
        ((acc.1.chmod destination e.mode).bind fun fs =>
            fs.utime destination e.mtimeNs).map fun fs =>
          { st with fs := fs, futures := acc.2.1 }

def materializeEntry (sha : Sha256) (fetch : Digest → Option Bytes) (stage : Path)
    (st : Materializing)
    (e : ManifestEntry) : Option Materializing :=
  let destination := stage ++ (PosixPath.parse e.path).parts
  (st.fs.mkdirParents destination.dropLast).bind fun fs =>
    match e.type with
    | .directory =>
      (fs.mkdirExistOk destination).map fun fs =>
        { st with fs := fs, directories := st.directories ++ [(destination, e)] }
    | .symlink =>
      e.symlinkTarget.bind fun target =>
        ((fs.symlink target destination).bind fun fs =>
          fs.utime destination e.mtimeNs).map fun fs => { st with fs := fs }
    | .file => materializeFile sha fetch destination { st with fs := fs } e

/-- The last loop, for one directory. -/
def retime (fs : FileSystem) (d : Path × ManifestEntry) : Option FileSystem :=
  (fs.chmod d.1 d.2.mode).bind fun fs => fs.utime d.1 d.2.mtimeNs

def fileChunks (entries : List ManifestEntry) : List Digest :=
  (entries.filter (·.type = .file)).flatMap (·.chunks)

def materialize (sha : Sha256) (fetch : Digest → Option Bytes) (stage : Path) (fs : FileSystem)
    (entries : List ManifestEntry) : Option FileSystem :=
  (entries.foldlM (materializeEntry sha fetch stage)
      { fs := fs, futures := .submit (fileChunks entries) }).bind fun st =>
    st.directories.reverse.foldlM retime st.fs

/-! ## Chunks -/

variable {sha : Sha256} {fetch : Digest → Option Bytes} {stage : Path} {fs fs' : FileSystem}
    {f : Futures} {p q : Path}

theorem flatten_pieces {n fuel : Nat} {data : Bytes} (hn : 0 < n) (h : data.length ≤ fuel) :
    (pieces n fuel data).flatten = data := by
  induction fuel generalizing data with
  | zero =>
    obtain rfl := List.length_eq_zero_iff.1 (Nat.le_zero.1 h)
    rfl
  | succ fuel ih =>
    unfold pieces
    split
    · next hnil => simp [hnil]
    · next hne =>
      have hpos := List.length_pos_iff.2 hne
      rw [List.flatten_cons, ih (by rw [List.length_drop]; omega), List.take_append_drop]

theorem flatten_readChunks {n : Nat} (hn : 0 < n) (data : Bytes) :
    (readChunks n data).flatten = data := by
  have hpieces := flatten_pieces hn (Nat.le_refl data.length)
  unfold readChunks
  split
  · next hnil =>
    rw [hnil] at hpieces
    simpa using hpieces
  · exact hpieces

/-- The futures serve exactly the uses in `rest`. -/
structure Futures.Ready (f : Futures) (rest : List Digest) : Prop where
  remaining : ∀ d, f.remaining d = rest.count d
  live : ∀ d, f.live d = true ↔ d ∈ rest

theorem Futures.ready_submit (digests : List Digest) : (Futures.submit digests).Ready digests :=
  ⟨fun _ => rfl, fun _ => decide_eq_true_iff⟩

/-- A future that is still needed is there, and is dropped with its last use. -/
theorem Futures.Ready.result {d : Digest} {rest : List Digest} {chunk : Bytes}
    (h : f.Ready (d :: rest))
    (hfetch : fetch d = some chunk) : ∃ f', f.result fetch d = some (chunk, f') ∧
    f'.Ready rest := by
  have hlive : f.live d = true := (h.live d).2 List.mem_cons_self
  have hcount : f.remaining d = rest.count d + 1 := by simpa using h.remaining d
  refine ⟨_, by rw [Futures.result, if_pos hlive, hfetch]; rfl, fun d' => ?_, fun d' => ?_⟩
  · by_cases hd : d' = d
    · subst hd
      simp [hcount]
    · simpa [hd, Ne.symm hd] using h.remaining d'
  · by_cases hd : d' = d
    · subst hd
      by_cases hmem : d' ∈ rest
      · have hpos := List.count_pos_iff.2 hmem
        have hne : f.remaining d' - 1 ≠ 0 := by omega
        simp [hne, hlive, hmem]
      · have hzero := List.count_eq_zero.2 hmem
        have heq : f.remaining d' - 1 = 0 := by omega
        simp [heq, hmem]
    · have hother := h.live d'
      rw [List.mem_cons, or_iff_right hd] at hother
      by_cases heq : f.remaining d - 1 = 0 <;> simp [heq, hd, hother]

theorem foldlM_writeChunk {digests rest : List Digest} {datas : List Bytes} {old : Bytes}
    {mode : Mode}
    {mtimeNs : Int} (whole : Bytes) (hfetch : digests.map fetch = datas.map some)
    (hnode : fs.node p = some (.file mode mtimeNs old)) (hready : f.Ready (digests ++ rest)) :
    ∃ fs' f' mtimeNs',
      digests.foldlM (writeChunk fetch p) (fs, f, whole) = some (fs', f', whole ++ datas.flatten) ∧
      fs'.node p = some (.file mode mtimeNs' (old ++ datas.flatten)) ∧
      (∀ q, q ≠ p → fs'.node q = fs.node q) ∧ f'.Ready rest := by
  induction digests generalizing datas fs f old mtimeNs whole with
  | nil =>
    obtain rfl : datas = [] := by simpa using hfetch.symm
    exact ⟨fs, f, mtimeNs, by simp, by simpa using hnode, fun _ _ => rfl, by simpa using hready⟩
  | cons digest digests ih =>
    obtain ⟨data, datas, rfl⟩ : ∃ data datas', datas = data :: datas' :=
      List.exists_cons_of_length_eq_add_one (by simpa using (congrArg List.length hfetch).symm)
    obtain ⟨hfirst, hfetch⟩ := List.cons.inj hfetch
    obtain ⟨f₁, hresult, hready₁⟩ := Futures.Ready.result hready hfirst
    have hwrite : fs.write p data = some (fs.put p (.file mode fs.now (old ++ data))) := by
      simp [FileSystem.write, hnode]
    have hput : (fs.put p (.file mode fs.now (old ++ data))).node p =
      some (.file mode fs.now (old ++ data)) := by simp
    obtain ⟨fs', f', mtimeNs', hrun, hnode', hsame, hready'⟩ :=
      ih (whole ++ data) hfetch hput hready₁
    refine ⟨fs', f', mtimeNs', ?_, by simpa using hnode', fun q hq => ?_, hready'⟩
    · rw [List.foldlM_cons, List.flatten_cons, ← List.append_assoc, ← hrun]
      simp [writeChunk, hresult, hwrite]
    · rw [hsame q hq]
      simp [hq]

/-! ## Entries -/

/-- What restore makes of a node: the same, with the link target in pathlib's normal form. -/
def restoredNode : Node → Node
  | .symlink _ mtimeNs target => .symlink 0o777 mtimeNs (PosixPath.parse target).str
  | n => n

/-- The entry describes a node at a path, with the chunks that come from the store. -/
structure Describes (sha : Sha256) (fetch : Digest → Option Bytes) (x : Path × Node)
    (e : ManifestEntry) :
    Prop where
  parts : (PosixPath.parse e.path).parts = x.1
  mtimeNs : e.mtimeNs = x.2.mtimeNs
  content : match x.2 with
    | .directory mode _ => e.type = .directory ∧ e.mode = mode
    | .symlink mode _ target => mode = 0o777 ∧ e.type = .symlink ∧ e.symlinkTarget = some target
    | .file mode _ data => e.type = .file ∧ e.mode = mode ∧ e.size = data.length ∧
        e.digest = some (sha.hexdigest data) ∧
        ∃ datas : List Bytes, e.chunks.map fetch = datas.map some ∧ datas.flatten = data
    | .special => False

/-- The chunks an entry takes from the futures. -/
def usedChunks (e : ManifestEntry) : List Digest := if e.type = .file then e.chunks else []

/-- `done` is written out below the stage. -/
structure Staged (stage : Path) (fs₀ : FileSystem) (done : List (Path × Node)) (st : Materializing)
    (rest : List Digest) :
    Prop where
  base : st.fs.isDirectory stage = true
  placed : ∀ x ∈ done, x.2.isDirectory = false → st.fs.node (stage ++ x.1) = some x.2
  above : ∀ x ∈ done, ∀ r, r <+: x.1 → r ≠ x.1 ∨ x.2.isDirectory = true →
    st.fs.isDirectory (stage ++ r) = true
  only : ∀ r, r ≠ [] → st.fs.node (stage ++ r) ≠ none → ∃ x ∈ done, r <+: x.1
  outside : ∀ q, ¬ stage <+: q → st.fs.node q = fs₀.node q
  listed : ∀ x ∈ done, x.2.isDirectory = true → ∃ d ∈ st.directories, d.1 = stage ++ x.1
  directories : ∀ d ∈ st.directories, ∃ x ∈ done, d.1 = stage ++ x.1 ∧
    x.2 = .directory d.2.mode d.2.mtimeNs
  ready : st.futures.Ready rest

section Step

variable {n : Nat} {fs₀ fs₁ : FileSystem} {done : List (Path × Node)} {st st' : Materializing}
    {x : Path × Node}
  {e : ManifestEntry} {rest : List Digest} {new : Node}

theorem prefix_of_dropLast {r : Path} (h : r <+: p.dropLast) (hne : p ≠ []) : r <+: p ∧ r ≠ p := by
  refine ⟨h.trans (List.dropLast_prefix p), ?_⟩
  rintro rfl
  have hlen := h.length_le
  have hpos := List.length_pos_iff.2 hne
  rw [List.length_dropLast] at hlen
  omega

theorem prefix_dropLast {r : Path} (h : r <+: p) (hne : r ≠ p) : r <+: p.dropLast := by
  obtain ⟨s, rfl⟩ := h
  have hs : s ≠ [] := by
    rintro rfl
    exact hne (List.append_nil r).symm
  rw [List.dropLast_append_of_ne_nil hs]
  exact List.prefix_append r _

theorem dropLast_append {base : Path} (hne : p ≠ []) : (base ++ p).dropLast = base ++ p.dropLast :=
  List.dropLast_append_of_ne_nil hne

/-- Nothing is written out yet. -/
theorem Staged.start (hbase : fs.isDirectory stage = true)
    (hempty : ∀ r, r ≠ [] → fs.node (stage ++ r) = none) (digests : List Digest) :
    Staged stage fs [] { fs := fs, futures := .submit digests } digests :=
  ⟨hbase, by simp, by simp, fun r hr hsome => absurd (hempty r hr) hsome, fun _ _ =>
    rfl, by simp, by simp,
    Futures.ready_submit _⟩

theorem Staged.absent (h : Staged stage fs₀ done st rest) (hne : x.1 ≠ [])
    (hnew : ∀ y ∈ done, ¬ x.1 <+: y.1) :
    st.fs.node (stage ++ x.1) = none := by
  by_contra hnode
  obtain ⟨y, hy, hle⟩ := h.only x.1 hne hnode
  exact hnew y hy hle

theorem Staged.parents (h : Staged stage fs₀ done st rest) (hne : x.1 ≠ [])
    (hup : ∀ y ∈ done, y.1 <+: x.1 → y.2.isDirectory = true) :
    ∃ fs', st.fs.mkdirParents (stage ++ x.1).dropLast = some fs' ∧
        FileSystem.MadeDirs st.fs fs' stage x.1.dropLast := by
  rw [dropLast_append hne]
  have hdir : ∀ r, r <+: x.1 → st.fs.node (stage ++ r) ≠ none →
      st.fs.isDirectory (stage ++ r) = true := by
    intro r hr hnode
    by_cases hnil : r = []
    · simpa [hnil] using h.base
    · obtain ⟨y, hy, hle⟩ := h.only r hnil hnode
      by_cases heq : r = y.1
      · exact h.above y hy r hle (Or.inr (hup y hy (heq ▸ hr)))
      · exact h.above y hy r hle (Or.inl heq)
  refine FileSystem.mkdirParents_made h.base (fun r hr => ?_) fun r₁ r₂ h₁ h₂ hr₂ => ?_
  · by_cases hnode : st.fs.node (stage ++ r) = none
    · exact Or.inl hnode
    · exact Or.inr (hdir r (prefix_of_dropLast hr hne).1 hnode)
  · by_cases hnil : r₁ = []
    · simpa [hnil] using h.base
    · by_cases heq : r₁ = r₂
      · rwa [heq]
      · have hnil₂ : r₂ ≠ [] := by
          rintro rfl
          exact hnil (List.prefix_nil.1 h₁)
        have hnode₂ : st.fs.node (stage ++ r₂) ≠ none := by
          obtain ⟨mode, mtimeNs, hnode⟩ := FileSystem.isDirectory_iff.1 hr₂
          simp [hnode]
        obtain ⟨y, hy, hle⟩ := h.only r₂ hnil₂ hnode₂
        refine h.above y hy r₁ (h₁.trans hle) (Or.inl ?_)
        rintro rfl
        exact heq (h₁.eq_of_length_le hle.length_le)

theorem Staged.place (h : Staged stage fs₀ done st (usedChunks e ++ rest)) (hne : x.1 ≠ [])
    (hnew : ∀ y ∈ done, ¬ x.1 <+: y.1) (hup : ∀ y ∈ done, y.1 <+: x.1 → y.2.isDirectory = true)
    (hmade : FileSystem.MadeDirs st.fs fs₁ stage x.1.dropLast)
      (hcreates : FileSystem.Creates fs₁ st'.fs (stage ++ x.1) new)
    (hdirectory : x.2.isDirectory = true → new.isDirectory = true)
      (hnode : x.2.isDirectory = false → new = x.2)
    (hdirectories : (x.2.isDirectory = false ∧ st'.directories = st.directories) ∨
      (x.2 = .directory e.mode e.mtimeNs ∧ st'.directories = st.directories ++ [(stage ++ x.1, e)]))
    (hready : st'.futures.Ready rest) : Staged stage fs₀ (done ++ [x]) st' rest := by
  have hparent : fs₁.isDirectory (stage ++ x.1).dropLast = true := by
    rw [dropLast_append hne]
    exact hmade.dirs _ List.prefix_rfl
  -- what is not on the way down to the entry is as it was
  have hsame : ∀ q, q ≠ stage ++ x.1 → (∀ r, r <+: x.1.dropLast → q ≠ stage ++ r) →
      st'.fs.node q = st.fs.node q := by
    intro q hq hway
    rw [hcreates.same q hq (by rw [dropLast_append hne]; exact hway _ List.prefix_rfl)]
    exact hmade.same q hway
  have hway : ∀ r, r <+: x.1.dropLast → st'.fs.isDirectory (stage ++ r) = true := by
    intro r hr
    rw [hcreates.isDirectory hparent (by simpa using (prefix_of_dropLast hr hne).2)]
    exact hmade.dirs r hr
  have holdDir : ∀ r, st.fs.isDirectory (stage ++ r) = true → r ≠ x.1 →
      st'.fs.isDirectory (stage ++ r) = true := by
    intro r hr hrx
    by_cases hdrop : r <+: x.1.dropLast
    · exact hway r hdrop
    · rw [← hr]
      refine FileSystem.isDirectory_congr (hsame _ (by simpa using hrx) fun r' hr' heq => hdrop ?_)
      rwa [List.append_cancel_left heq]
  refine ⟨by simpa using hway [] List.nil_prefix, fun y hy hfile => ?_, fun y hy r hr hcase =>
    ?_, fun r hr hsome => ?_,
    fun q hq => ?_, fun y hy hdir => ?_, fun d hd => ?_, hready⟩
  · rcases List.mem_append.1 hy with hy | hy
    · have hyx : y.1 ≠ x.1 := fun heq => hnew y hy (heq ▸ List.prefix_rfl)
      rw [hsame _ (by simpa using hyx) fun r hr heq => ?_]
      · exact h.placed y hy hfile
      · obtain rfl : y.1 = r := List.append_cancel_left heq
        have := hup y hy (prefix_of_dropLast hr hne).1
        rw [hfile] at this
        exact absurd this (by simp)
    · obtain rfl := List.mem_singleton.1 hy
      rw [hcreates.node, hnode hfile]
  · rcases List.mem_append.1 hy with hy | hy
    · refine holdDir r (h.above y hy r hr hcase) ?_
      rintro rfl
      exact hnew y hy hr
    · obtain rfl := List.mem_singleton.1 hy
      by_cases heq : r = y.1
      · subst heq
        have hdir := hdirectory (hcase.resolve_left fun hne => hne rfl)
        simp [FileSystem.isDirectory, hcreates.node, hdir]
      · exact hway r (prefix_dropLast hr heq)
  · by_cases hdrop : r <+: x.1
    · exact ⟨x, by simp, hdrop⟩
    · have hrx : r ≠ x.1 := fun heq => hdrop (heq ▸ List.prefix_rfl)
      rw [hsame _ (by simpa using hrx) fun r' hr' heq => hdrop ?_] at hsome
      · obtain ⟨y, hy, hle⟩ := h.only r hr hsome
        exact ⟨y, List.mem_append_left _ hy, hle⟩
      · rw [List.append_cancel_left heq]
        exact (prefix_of_dropLast hr' hne).1
  · rw [← h.outside q hq]
    refine hsame q ?_ fun r _ => ?_ <;> rintro rfl <;> exact hq (List.prefix_append _ _)
  · rcases hdirectories with ⟨hfile, heq⟩ | ⟨hx, heq⟩
    · rcases List.mem_append.1 hy with hy | hy
      · rw [heq]
        exact h.listed y hy hdir
      · obtain rfl := List.mem_singleton.1 hy
        rw [hfile] at hdir
        exact absurd hdir (by simp)
    · rw [heq]
      rcases List.mem_append.1 hy with hy | hy
      · obtain ⟨d, hd, hd'⟩ := h.listed y hy hdir
        exact ⟨d, List.mem_append_left _ hd, hd'⟩
      · obtain rfl := List.mem_singleton.1 hy
        exact ⟨(stage ++ y.1, e), by simp, rfl⟩
  · have hold : d ∈ st.directories → ∃ y ∈ done ++ [x], d.1 = stage ++ y.1 ∧
        y.2 = .directory d.2.mode d.2.mtimeNs :=
      fun hd => (h.directories d hd).imp fun y hy => ⟨List.mem_append_left _ hy.1, hy.2⟩
    rcases hdirectories with ⟨-, heq⟩ | ⟨hx, heq⟩
    · exact hold (heq ▸ hd)
    · rw [heq] at hd
      rcases List.mem_append.1 hd with hd | hd
      · exact hold hd
      · obtain rfl := List.mem_singleton.1 hd
        exact ⟨x, by simp, rfl, hx⟩

/-- Every chunk of the files of a layout is fetched as it was. -/
def Fetched (sha : Sha256) (n : Nat) (fetch : Digest → Option Bytes) (x : Path × Node) : Prop :=
  ∀ data ∈ readChunks n x.2.data, fetch (sha.hexdigest data) = some data

theorem materializeFile_creates (st : Materializing) {destination : Path} {mode : Mode}
    {mtimeNs : Int}
    {data : Bytes} {datas : List Bytes} (hfree : st.fs.free destination = true)
    (htype : e.type = .file)
    (hmode : e.mode = mode) (hmtime : e.mtimeNs = mtimeNs) (hsize : e.size = data.length)
    (hdigest : e.digest = some (sha.hexdigest data)) (hfetch : e.chunks.map fetch = datas.map some)
    (hflatten : datas.flatten = data) (hready : st.futures.Ready (usedChunks e ++ rest)) :
    ∃ st', materializeFile sha fetch destination st e = some st' ∧
      st'.directories = st.directories ∧
      FileSystem.Creates st.fs st'.fs destination (.file mode mtimeNs data) ∧
      st'.futures.Ready rest := by
  obtain ⟨hne, -, hnone⟩ := FileSystem.free_iff.1 hfree
  have hopen : st.fs.openWrite destination =
      some (st.fs.create destination (.file st.fs.fileMode st.fs.now [])) := by
    simp [FileSystem.openWrite, hnone, hfree]
  have hcreates := FileSystem.creates (n := .file st.fs.fileMode st.fs.now []) hfree
  rw [usedChunks, if_pos htype] at hready
  obtain ⟨fs₁, futures, written, hrun, hnode, hsame, hready'⟩ :=
    foldlM_writeChunk [] hfetch hcreates.node hready
  simp only [List.nil_append, hflatten] at hrun hnode
  have hchmod : fs₁.chmod destination e.mode =
      some (fs₁.put destination (.file mode written data)) := by
    simp [FileSystem.chmod, hnode, hmode]
  have hutime : (fs₁.put destination (.file mode written data)).utime destination e.mtimeNs =
      some ((fs₁.put destination (.file mode written data)).put destination
      (.file mode mtimeNs data)) := by
    simp [FileSystem.utime, hmtime]
  refine ⟨{ st with
      fs :=
        (fs₁.put destination (.file mode written data)).put destination (.file mode mtimeNs data)
      futures := futures }, ?_, rfl, ?_, hready'⟩
  · simp [materializeFile, hopen, hrun, hsize, hdigest, hchmod, hutime]
  · refine FileSystem.Creates.put (n := .file mode written data)
      (FileSystem.Creates.put (n := .file st.fs.fileMode written data)
      ⟨hnode, fun q hq hqp => ?_, ?_⟩ hne) hne
    · rw [hsame q hq, hcreates.same q hq hqp]
    · rw [← hcreates.parent]
      exact FileSystem.isDirectory_congr (hsame _ (FileSystem.dropLast_ne hne))

theorem Staged.step (h : Staged stage fs₀ done st (usedChunks e ++ rest)) (hne : x.1 ≠ [])
    (hnew : ∀ y ∈ done, ¬ x.1 <+: y.1) (hup : ∀ y ∈ done, y.1 <+: x.1 → y.2.isDirectory = true)
    (hdescribes : Describes sha fetch x e) :
    ∃ st', materializeEntry sha fetch stage st e = some st' ∧
        Staged stage fs₀ (done ++ [x]) st' rest := by
  obtain ⟨fs₁, hparents, hmade⟩ := h.parents hne hup
  have hnone : fs₁.node (stage ++ x.1) = none := by
    rw [hmade.same _ fun r hr heq => ?_]
    · exact h.absent hne hnew
    · exact (prefix_of_dropLast hr hne).2 (List.append_cancel_left heq).symm
  have hfree : fs₁.free (stage ++ x.1) = true :=
    FileSystem.free_iff.2 ⟨by simp [hne], by
        rw [dropLast_append hne]; exact hmade.dirs _ List.prefix_rfl, hnone⟩
  have hcontent := hdescribes.content
  have hmtime := hdescribes.mtimeNs
  obtain ⟨p, node⟩ := x
  cases node with
  | directory mode mtimeNs =>
    obtain ⟨htype, hmode⟩ := hcontent
    have hready := h.ready
    rw [usedChunks, htype] at hready
    have hmkdir : fs₁.mkdirExistOk (stage ++ p) =
        some (fs₁.create (stage ++ p) (.directory fs₁.dirMode fs₁.now)) := by
      simp [FileSystem.mkdirExistOk, FileSystem.isDirectory, hnone, FileSystem.mkdir, hfree]
    refine ⟨{ st with
        fs := fs₁.create (stage ++ p) (.directory fs₁.dirMode fs₁.now)
        directories := st.directories ++ [(stage ++ p, e)] }, ?_, ?_⟩
    · simp only [materializeEntry, hdescribes.parts, hparents, Option.bind_some, htype, hmkdir,
        Option.map_some]
    · refine h.place (e := e) (x := (p, .directory mode mtimeNs)) hne hnew hup hmade
        (FileSystem.creates hfree) (fun _ => rfl)
        (by rintro ⟨⟩) (Or.inr ⟨?_, rfl⟩) hready
      rw [hmode, hmtime]
      rfl
  | symlink mode mtimeNs target =>
    obtain ⟨rfl, htype, htarget⟩ := hcontent
    have hlink : fs₁.symlink target (stage ++ p) =
        some (fs₁.create (stage ++ p) (.symlink 0o777 fs₁.now target)) := by
      simp [FileSystem.symlink, hfree]
    have hcreates := FileSystem.creates (n := .symlink 0o777 fs₁.now target) hfree
    have hutime : (fs₁.create (stage ++ p) (.symlink 0o777 fs₁.now target)).utime
      (stage ++ p) e.mtimeNs =
        some ((fs₁.create (stage ++ p) (.symlink 0o777 fs₁.now target)).put (stage ++ p)
          (.symlink 0o777 mtimeNs target)) := by
      simp only [FileSystem.utime, hcreates.node, hmtime]
      rfl
    refine ⟨{ st with
        fs := (fs₁.create (stage ++ p) (.symlink 0o777 fs₁.now target)).put (stage ++ p)
          (.symlink 0o777 mtimeNs target) }, ?_, ?_⟩
    · simp only [materializeEntry, hdescribes.parts, hparents, Option.bind_some, htype, htarget,
        hlink, hutime, Option.map_some]
    · refine h.place (x := (p, .symlink 0o777 mtimeNs target)) hne hnew hup hmade
        (hcreates.put (by simp [hne])) (by rintro ⟨⟩)
        (fun _ => rfl) (Or.inl ⟨rfl, rfl⟩) ?_
      have hready := h.ready
      rwa [usedChunks, htype] at hready
  | file mode mtimeNs data =>
    obtain ⟨htype, hmode, hsize, hdigest, datas, hfetch, hflatten⟩ := hcontent
    obtain ⟨st', hrun, hdirectories, hcreates, hready⟩ := materializeFile_creates
      { st with fs := fs₁ } hfree htype hmode hmtime hsize hdigest hfetch hflatten h.ready
    refine ⟨st', ?_, ?_⟩
    · simp only [materializeEntry, hdescribes.parts, hparents, Option.bind_some, htype, hrun]
    · exact h.place (x := (p, .file mode mtimeNs data)) hne hnew hup hmade hcreates (by rintro ⟨⟩)
        (fun _ => rfl)
        (Or.inl ⟨rfl, hdirectories⟩) hready
  | special => exact absurd hcontent id

theorem Staged.run {entries : List ManifestEntry} {layout : List (Path × Node)}
    (h : Staged stage fs₀ done st (entries.flatMap usedChunks ++ rest))
    (hne : ∀ x ∈ layout, x.1 ≠ [])
    (horder : (done ++ layout).Pairwise fun y x => ¬ x.1 <+: y.1 ∧
      (y.1 <+: x.1 → y.2.isDirectory = true))
    (hdescribes : List.Forall₂ (Describes sha fetch) layout entries) :
    ∃ st', entries.foldlM (materializeEntry sha fetch stage) st = some st' ∧
        Staged stage fs₀ (done ++ layout) st' rest := by
  induction hdescribes generalizing done st with
  | nil => exact ⟨st, rfl, by simpa using h⟩
  | @cons x e layout entries hx hrest ih =>
    have hbefore : ∀ y ∈ done, ¬ x.1 <+: y.1 ∧ (y.1 <+: x.1 → y.2.isDirectory = true) :=
      fun y hy => (List.pairwise_append.1 horder).2.2 y hy x List.mem_cons_self
    rw [List.flatMap_cons, List.append_assoc] at h
    obtain ⟨st₁, hstep, hstaged⟩ := h.step (hne x List.mem_cons_self) (fun y hy => (hbefore y hy).1)
      (fun y hy => (hbefore y hy).2) hx
    obtain ⟨st', hrun, hstaged'⟩ :=
      ih hstaged (fun y hy => hne y (List.mem_cons_of_mem _ hy)) (by simpa using horder)
    refine ⟨st', ?_, by simpa using hstaged'⟩
    rw [List.foldlM_cons, hstep]
    exact hrun

/-- The entries of directories are noted in their order. -/
theorem materializeEntry_directories (h : materializeEntry sha fetch stage st e = some st') :
    st'.directories = st.directories ++
      (if e.type = .directory then [(stage ++ (PosixPath.parse e.path).parts, e)] else []) := by
  obtain ⟨fs, -, h⟩ := Option.bind_eq_some_iff.1 h
  cases htype : e.type with
  | directory =>
    rw [htype] at h
    obtain ⟨fs', -, rfl⟩ := Option.map_eq_some_iff.1 h
    rfl
  | symlink =>
    rw [htype] at h
    obtain ⟨target, -, h⟩ := Option.bind_eq_some_iff.1 h
    obtain ⟨fs', -, rfl⟩ := Option.map_eq_some_iff.1 h
    exact (List.append_nil _).symm
  | file =>
    rw [htype] at h
    obtain ⟨fs₁, -, h⟩ := Option.bind_eq_some_iff.1 h
    obtain ⟨acc, -, h⟩ := Option.bind_eq_some_iff.1 h
    split at h
    · cases h
    · obtain ⟨fs', -, rfl⟩ := Option.map_eq_some_iff.1 h
      exact (List.append_nil _).symm

theorem foldlM_directories {entries : List ManifestEntry}
    (h : entries.foldlM (materializeEntry sha fetch stage) st = some st') :
    st'.directories = st.directories ++ (entries.filter (·.type = .directory)).map
      fun e => (stage ++ (PosixPath.parse e.path).parts, e) := by
  induction entries generalizing st with
  | nil =>
    obtain rfl := Option.some.inj h
    exact (List.append_nil _).symm
  | cons e entries ih =>
    rw [List.foldlM_cons] at h
    obtain ⟨st₁, hentry, hrest⟩ := Option.bind_eq_some_iff.1 h
    rw [ih hrest, materializeEntry_directories hentry, List.append_assoc]
    by_cases htype : e.type = .directory <;> simp [htype]

end Step

/-! ## Directories -/

theorem retime_eq {d : Path × ManifestEntry} (h : fs.isDirectory d.1 = true) :
    ∃ fs', retime fs d = some fs' ∧ fs'.node d.1 = some (.directory d.2.mode d.2.mtimeNs) ∧
      ∀ q, q ≠ d.1 → fs'.node q = fs.node q := by
  obtain ⟨mode, mtimeNs, hnode⟩ := FileSystem.isDirectory_iff.1 h
  refine ⟨(fs.put d.1 (.directory d.2.mode mtimeNs)).put d.1 (.directory d.2.mode d.2.mtimeNs),
    ?_, by simp, fun q hq => ?_⟩
  · simp [retime, FileSystem.chmod, FileSystem.utime, hnode]
  · simp [hq]

/-- Each directory gets its mode and time; one listed twice those of one of its entries. -/
theorem foldlM_retime {ds : List (Path × ManifestEntry)} (h : ∀ d ∈ ds, fs.isDirectory d.1 = true) :
    ∃ fs', ds.foldlM retime fs = some fs' ∧ (∀ q, (∀ d ∈ ds, q ≠ d.1) → fs'.node q = fs.node q) ∧
      ∀ d ∈ ds, ∃ d' ∈ ds, d'.1 = d.1 ∧
      fs'.node d.1 = some (.directory d'.2.mode d'.2.mtimeNs) := by
  induction ds generalizing fs with
  | nil => exact ⟨fs, rfl, fun _ _ => rfl, by simp⟩
  | cons d ds ih =>
    obtain ⟨fs₁, hretime, hnode, hsame⟩ := retime_eq (h d List.mem_cons_self)
    have hdirs : ∀ d' ∈ ds, fs₁.isDirectory d'.1 = true := by
      intro d' hd'
      by_cases heq : d'.1 = d.1
      · rw [heq]
        exact FileSystem.isDirectory_iff.2 ⟨_, _, hnode⟩
      · rw [FileSystem.isDirectory_congr (hsame _ heq)]
        exact h d' (List.mem_cons_of_mem _ hd')
    obtain ⟨fs', hrun, hsame', hnode'⟩ := ih hdirs
    refine ⟨fs', by rw [List.foldlM_cons, hretime]; exact hrun, fun q hq => ?_, fun d' hd' => ?_⟩
    · rw [hsame' q fun d' hd' => hq d' (List.mem_cons_of_mem _ hd'),
        hsame q (hq d List.mem_cons_self)]
    · by_cases hlater : ∃ d'' ∈ ds, d''.1 = d'.1
      · obtain ⟨d'', hd'', heq⟩ := hlater
        obtain ⟨d₃, hd₃, heq₃, hnode₃⟩ := hnode' d'' hd''
        exact ⟨d₃, List.mem_cons_of_mem _ hd₃, heq₃.trans heq, heq ▸ hnode₃⟩
      · have hfirst : d' = d := by
          rcases List.mem_cons.1 hd' with rfl | hd'
          · rfl
          · exact absurd ⟨d', hd', rfl⟩ hlater
        subst hfirst
        refine ⟨d', List.mem_cons_self, rfl, ?_⟩
        rw [hsame' _ fun d'' hd'' heq => hlater ⟨d'', hd'', heq.symm⟩, hnode]

/-! ## The stage -/

/-- What the stage holds in the end: the nodes of the layout, the directories above them, nothing
else. -/
structure Materialized (stage : Path) (fs₀ : FileSystem) (layout : List (Path × Node))
    (fs : FileSystem) : Prop where
  base : fs.isDirectory stage = true
  placed : ∀ x ∈ layout, fs.node (stage ++ x.1) = some x.2
  above : ∀ x ∈ layout, ∀ r, r <+: x.1 → r ≠ x.1 → fs.isDirectory (stage ++ r) = true
  only : ∀ r, r ≠ [] → fs.node (stage ++ r) ≠ none → ∃ x ∈ layout, r <+: x.1
  outside : ∀ q, ¬ stage <+: q → fs.node q = fs₀.node q

theorem flatMap_usedChunks (entries : List ManifestEntry) : entries.flatMap usedChunks =
    fileChunks entries := by
  induction entries with
  | nil => rfl
  | cons e entries ih =>
    by_cases htype : e.type = .file <;> simp_all [usedChunks, fileChunks]

theorem materialize_staged {entries : List ManifestEntry} {layout : List (Path × Node)}
    (hbase : fs.isDirectory stage = true) (hempty : ∀ r, r ≠ [] → fs.node (stage ++ r) = none)
    (hne : ∀ x ∈ layout, x.1 ≠ [])
    (horder : layout.Pairwise fun y x => ¬ x.1 <+: y.1 ∧ (y.1 <+: x.1 → y.2.isDirectory = true))
    (hdescribes : List.Forall₂ (Describes sha fetch) layout entries) :
    ∃ fs', materialize sha fetch stage fs entries = some fs' ∧
        Materialized stage fs layout fs' := by
  have hstart : Staged stage fs [] { fs := fs, futures := .submit (fileChunks entries) }
      (entries.flatMap usedChunks ++ []) := by
    rw [flatMap_usedChunks, List.append_nil]
    exact .start hbase hempty _
  obtain ⟨st, hrun, hstaged⟩ := hstart.run hne (by simpa using horder) hdescribes
  rw [List.nil_append] at hstaged
  have hdirs : ∀ d ∈ st.directories.reverse, st.fs.isDirectory d.1 = true := by
    intro d hd
    obtain ⟨x, hx, hpath, hnode⟩ := hstaged.directories d (List.mem_reverse.1 hd)
    rw [hpath]
    exact hstaged.above x hx x.1 List.prefix_rfl (Or.inr (by rw [hnode]; rfl))
  obtain ⟨fs', hretime, hsame, hnode⟩ := foldlM_retime hdirs
  -- the layout has one node for each path, so the entry of a directory is its own
  have hunique : ∀ x ∈ layout, ∀ y ∈ layout, x.1 = y.1 → x = y := by
    have hsymm : Std.Symm fun x y : Path × Node => x.1 = y.1 → x = y :=
      ⟨fun _ _ h heq => (h heq.symm).symm⟩
    have hapart : layout.Pairwise fun x y => x.1 = y.1 → x = y :=
      horder.imp fun h heq => absurd (heq ▸ List.prefix_rfl) h.1
    exact fun x hx y hy => hapart.forall_of_forall (fun _ _ _ => rfl) hx hy
  have hdirectory : ∀ q, (∃ d ∈ st.directories.reverse, q = d.1) → fs'.isDirectory q = true := by
    rintro q ⟨d, hd, rfl⟩
    obtain ⟨d', -, -, hd'⟩ := hnode d hd
    exact FileSystem.isDirectory_iff.2 ⟨_, _, hd'⟩
  have hkept : ∀ q, st.fs.isDirectory q = true → fs'.isDirectory q = true := by
    intro q hq
    by_cases hmem : ∃ d ∈ st.directories.reverse, q = d.1
    · exact hdirectory q hmem
    · rw [← hq]
      exact FileSystem.isDirectory_congr (hsame q fun d hd heq => hmem ⟨d, hd, heq⟩)
  refine ⟨fs', by rw [materialize, hrun]; exact hretime, hkept _ hstaged.base, fun x hx =>
    ?_, fun x hx r hr hrx => ?_,
    fun r hr hsome => ?_, fun q hq => ?_⟩
  · cases hdir : x.2.isDirectory with
    | false =>
      rw [hsame _ fun d hd heq => ?_]
      · exact hstaged.placed x hx hdir
      · obtain ⟨y, hy, hpath, hynode⟩ := hstaged.directories d (List.mem_reverse.1 hd)
        obtain rfl := hunique x hx y hy (List.append_cancel_left (heq.trans hpath))
        rw [hynode] at hdir
        exact absurd hdir (by simp [Node.isDirectory])
    | true =>
      obtain ⟨d, hd, hpath⟩ := hstaged.listed x hx hdir
      obtain ⟨d', hd', heq, hd'node⟩ := hnode d (List.mem_reverse.2 hd)
      obtain ⟨y, hy, hypath, hynode⟩ := hstaged.directories d' (List.mem_reverse.1 hd')
      obtain rfl :=
        hunique x hx y hy (List.append_cancel_left ((hpath.symm.trans heq.symm).trans hypath))
      rw [← hpath, hd'node, hynode]
  · exact hkept _ (hstaged.above x hx r hr (Or.inl hrx))
  · refine hstaged.only r hr fun hnone => hsome ?_
    rw [hsame _ fun d hd heq => ?_, hnone]
    have := hdirs d hd
    rw [← heq] at this
    simp [FileSystem.isDirectory, hnone] at this
  · rw [hsame q fun d hd heq => ?_]
    · exact hstaged.outside q hq
    · obtain ⟨y, -, hpath, -⟩ := hstaged.directories d (List.mem_reverse.1 hd)
      exact hq (heq ▸ hpath ▸ List.prefix_append _ _)

end Restore

end KiroCrew
