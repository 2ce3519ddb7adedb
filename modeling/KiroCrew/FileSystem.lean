import KiroCrew.Tree

/-!
# A file system

The calls restore makes of the file system, on one tree of paths: each either fails (`none`) or
gives the new tree. Creating and removing a name sets the modification time of its directory to the
next reading of the clock. No call goes through a symbolic link: a path whose parent is none but a
directory is refused. `Creates` is what a call does that makes one new node; the calls on a node
that exists only replace it (`put`).
-/

namespace KiroCrew

structure FileSystem where
  node : Path → Option Node
  names : List Path
  complete : ∀ p, node p ≠ none → p ∈ names
  /-- The readings of the clock to come. -/
  times : Nat → Int
  /-- What the umask leaves of `0o777` and `0o666`. -/
  dirMode : Mode
  fileMode : Mode
  /-- Whether a link leads to something. -/
  resolves : Path → Bool

namespace FileSystem

variable (fs : FileSystem)

def now : Int := fs.times 0

def put (p : Path) (n : Node) : FileSystem where
  node := Function.update fs.node p (some n)
  names := p :: fs.names
  complete := fun q hq => by
    by_cases h : q = p
    · exact h ▸ List.mem_cons_self
    · rw [Function.update_of_ne h] at hq
      exact List.mem_cons_of_mem _ (fs.complete q hq)
  times := fun i => fs.times (i + 1)
  dirMode := fs.dirMode
  fileMode := fs.fileMode
  resolves := fs.resolves

def isDirectory (p : Path) : Bool := (fs.node p).any Node.isDirectory

/-- An entry of the directory was added or removed. -/
def touch (d : Path) : FileSystem :=
  match fs.node d with
  | some (.directory mode _) => fs.put d (.directory mode fs.now)
  | _ => fs

/-- `path.exists()` -/
def exists? (p : Path) : Bool :=
  match fs.node p with
  | none => false
  | some (.symlink _ _ _) => fs.resolves p
  | some _ => true

/-- The names in a directory, sorted. -/
def iterdir (d : Path) : List Str :=
  ((fs.names.filter fun p => p.dropLast = d && decide (p ≠ []) && (fs.node p).isSome).map fun p =>
    p.getLastD []).dedup.insertionSort
    (· ≤ ·)

def free (p : Path) : Bool := decide (p ≠ []) && fs.isDirectory p.dropLast && (fs.node p).isNone

def create (p : Path) (n : Node) : FileSystem := (fs.touch p.dropLast).put p n

def mkdir (p : Path) : Option FileSystem :=
  if fs.free p then some (fs.create p (.directory fs.dirMode fs.now)) else none

/-- `path.mkdir(exist_ok=True)` -/
def mkdirExistOk (p : Path) : Option FileSystem := if fs.isDirectory p then some fs else fs.mkdir p

/-- `path.mkdir(parents=True, exist_ok=True)` of the reversed path. -/
def mkdirParentsRev (fs : FileSystem) : List Str → Option FileSystem
  | [] =>
    if fs.isDirectory [] then some fs
    else if fs.node [] = none then some (fs.put [] (.directory fs.dirMode fs.now)) else none
  | name :: above =>
    if fs.isDirectory (name :: above).reverse then some fs
    else (mkdirParentsRev fs above).bind fun fs => fs.mkdir (name :: above).reverse

def mkdirParents (p : Path) : Option FileSystem := fs.mkdirParentsRev p.reverse

def symlink (target : Str) (p : Path) : Option FileSystem :=
  if fs.free p then some (fs.create p (.symlink 0o777 fs.now target)) else none

/-- `path.open("wb")` -/
def openWrite (p : Path) : Option FileSystem :=
  match fs.node p with
  | none => if fs.free p then some (fs.create p (.file fs.fileMode fs.now [])) else none
  | some (.file mode _ _) => some (fs.put p (.file mode fs.now []))
  | some _ => none

def write (p : Path) (data : Bytes) : Option FileSystem :=
  match fs.node p with
  | some (.file mode _ old) => some (fs.put p (.file mode fs.now (old ++ data)))
  | _ => none

def chmod (p : Path) (mode : Mode) : Option FileSystem :=
  match fs.node p with
  | some (.directory _ mtimeNs) => some (fs.put p (.directory mode mtimeNs))
  | some (.file _ mtimeNs data) => some (fs.put p (.file mode mtimeNs data))
  | _ => none

/-- `os.utime`, of a link itself. -/
def utime (p : Path) (mtimeNs : Int) : Option FileSystem :=
  match fs.node p with
  | some (.directory mode _) => some (fs.put p (.directory mode mtimeNs))
  | some (.symlink mode _ target) => some (fs.put p (.symlink mode mtimeNs target))
  | some (.file mode _ data) => some (fs.put p (.file mode mtimeNs data))
  | _ => none

/-- What may lie at the destination of a rename: nothing, a non-directory under a non-directory, an
empty directory under a directory. -/
def replaceable (src dst : Path) : Bool :=
  match fs.node dst with
  | none => true
  | some n => n.isDirectory = fs.isDirectory src && (!n.isDirectory || (fs.iterdir dst).isEmpty)

/-- The tree at `src` is at `dst`. -/
def moved (src dst : Path) : FileSystem where
  node := fun q => if dst <+: q then fs.node (src ++ q.drop dst.length) else if src <+: q then none
    else fs.node q
  names := fs.names ++ fs.names.map fun q => dst ++ q.drop src.length
  complete := fun q hq => by
    split at hq
    · next h =>
      obtain ⟨r, rfl⟩ := h
      rw [List.drop_left] at hq
      refine List.mem_append_right _ (List.mem_map.2 ⟨_, fs.complete _ hq, ?_⟩)
      rw [List.drop_left]
    · split at hq
      · exact absurd rfl hq
      · exact List.mem_append_left _ (fs.complete q hq)
  times := fs.times
  dirMode := fs.dirMode
  fileMode := fs.fileMode
  resolves := fs.resolves

/-- `path.replace(target)` within one file system. -/
def rename (src dst : Path) : Option FileSystem :=
  if (src ≠ [] ∧ dst ≠ [] ∧ (fs.node src).isSome ∧ fs.isDirectory dst.dropLast ∧ ¬ src <+: dst) ∧
      fs.replaceable src dst then
    some (((fs.moved src dst).touch src.dropLast).touch dst.dropLast)
  else none

def removed (p : Path) : FileSystem where
  node := fun q => if p <+: q then none else fs.node q
  names := fs.names
  complete := fun q hq => by
    split at hq
    · exact absurd rfl hq
    · exact fs.complete q hq
  times := fs.times
  dirMode := fs.dirMode
  fileMode := fs.fileMode
  resolves := fs.resolves

/-- `_remove_tree_tolerating_mounts`: what is neither a link nor a regular file is listed as a
directory. -/
def removeTree (p : Path) : Option FileSystem :=
  if fs.names.any fun q => p.isPrefixOf q && fs.node q = some .special then none
  else if fs.node p = none then some fs
  else some ((fs.removed p).touch p.dropLast)

/-! ## One call -/

variable {fs} {fs' : FileSystem} {p q d : Path} {n : Node}

@[simp] theorem node_put : (fs.put p n).node q = if q = p then some n else fs.node q := by
  simp [put, Function.update_apply]

theorem isDirectory_iff : fs.isDirectory p = true ↔ ∃ mode mtimeNs, fs.node p =
    some (.directory mode mtimeNs) := by
  constructor
  · intro h
    obtain ⟨n, hn, hd⟩ := (Option.any_eq_true _ _).1 h
    cases n <;> simp_all [Node.isDirectory]
  · rintro ⟨mode, mtimeNs, h⟩
    simp [isDirectory, h, Node.isDirectory]

theorem isDirectory_congr (h : fs'.node p = fs.node p) : fs'.isDirectory p = fs.isDirectory p := by
  simp [isDirectory, h]

theorem node_touch_of_ne (h : q ≠ d) : (fs.touch d).node q = fs.node q := by
  unfold touch
  split <;> simp [h]

theorem isDirectory_touch : (fs.touch d).isDirectory q = fs.isDirectory q := by
  by_cases hqd : q = d
  · subst hqd
    unfold touch
    split
    · next mode mtimeNs hnode => simp [isDirectory, hnode, Node.isDirectory]
    · rfl
  · exact isDirectory_congr (node_touch_of_ne hqd)

theorem node_touch_of_not_directory (h : fs.isDirectory q = false) :
    (fs.touch d).node q = fs.node q := by
  by_cases hqd : q = d
  · subst hqd
    unfold touch
    split
    · next mode mtimeNs hnode => simp [isDirectory, hnode, Node.isDirectory] at h
    · rfl
  · exact node_touch_of_ne hqd

theorem free_iff : fs.free p = true ↔ p ≠ [] ∧ fs.isDirectory p.dropLast = true ∧
    fs.node p = none := by
  simp [free, and_assoc]

structure Creates (fs fs' : FileSystem) (p : Path) (n : Node) : Prop where
  node : fs'.node p = some n
  same : ∀ q, q ≠ p → q ≠ p.dropLast → fs'.node q = fs.node q
  parent : fs'.isDirectory p.dropLast = true

theorem dropLast_ne (h : p ≠ []) : p.dropLast ≠ p := by
  intro heq
  have hlen := congrArg List.length heq
  have hpos := List.length_pos_iff.2 h
  rw [List.length_dropLast] at hlen
  omega

theorem append_not_prefix_self {r : Path} (hr : r ≠ []) : ¬ p ++ r <+: p := by
  intro h
  have hlen := h.length_le
  rw [List.length_append] at hlen
  exact hr (List.length_eq_zero_iff.1 (by omega))

theorem creates (h : fs.free p = true) : Creates fs (fs.create p n) p n := by
  obtain ⟨hne, hparent, -⟩ := free_iff.1 h
  refine ⟨by simp [create], fun q hq hqp => ?_, ?_⟩
  · simp only [create, node_put, hq, if_false]
    exact node_touch_of_ne hqp
  · calc (fs.create p n).isDirectory p.dropLast
        = (fs.touch p.dropLast).isDirectory p.dropLast :=
          isDirectory_congr (by simp [create, dropLast_ne hne])
      _ = fs.isDirectory p.dropLast := isDirectory_touch
      _ = true := hparent

theorem Creates.isDirectory (h : Creates fs fs' p n) (hparent : fs.isDirectory p.dropLast = true)
    (hq : q ≠ p) :
    fs'.isDirectory q = fs.isDirectory q := by
  by_cases hqp : q = p.dropLast
  · rw [hqp, h.parent, hparent]
  · exact isDirectory_congr (h.same q hq hqp)

theorem Creates.put {n' : Node} (h : Creates fs fs' p n) (hne : p ≠ []) :
    Creates fs (fs'.put p n') p n' := by
  refine ⟨by simp, fun q hq hqp => ?_, ?_⟩
  · rw [node_put, if_neg hq]
    exact h.same q hq hqp
  · rw [← h.parent]
    exact isDirectory_congr (by simp [dropLast_ne hne])

theorem mkdir_eq_some : fs.mkdir p = some fs' ↔ fs.free p = true ∧
    fs' = fs.create p (.directory fs.dirMode fs.now) := by
  unfold mkdir
  split
  · next hfree => simp [hfree, eq_comm]
  · next hfree => simp [hfree]

theorem openWrite_same (h : fs.openWrite p = some fs') (hq : q ≠ p) (hparent : q ≠ p.dropLast) :
    fs'.node q = fs.node q := by
  unfold openWrite at h
  split at h
  · split at h
    · next hfree =>
      obtain rfl := Option.some.inj h
      exact (creates hfree).same q hq hparent
    · simp at h
  · obtain rfl := Option.some.inj h
    simp [hq]
  · simp at h

theorem write_same {data : Bytes} (h : fs.write p data = some fs') (hq : q ≠ p) :
    fs'.node q = fs.node q := by
  unfold write at h
  split at h
  · obtain rfl := Option.some.inj h
    simp [hq]
  · simp at h

theorem chmod_same {mode : Mode} (h : fs.chmod p mode = some fs') (hq : q ≠ p) :
    fs'.node q = fs.node q := by
  unfold chmod at h
  split at h
  · obtain rfl := Option.some.inj h
    simp [hq]
  · obtain rfl := Option.some.inj h
    simp [hq]
  · simp at h

/-! ## A chain of directories -/

/-- The directories from `base` down to `base ++ r` are there, and nothing else has changed. -/
structure MadeDirs (fs fs' : FileSystem) (base r : Path) : Prop where
  dirs : ∀ r', r' <+: r → fs'.isDirectory (base ++ r') = true
  same : ∀ q, (∀ r', r' <+: r → q ≠ base ++ r') → fs'.node q = fs.node q

theorem mkdirParents_concat {name : Str} : fs.mkdirParents (p ++ [name]) =
    if fs.isDirectory (p ++ [name]) then some fs else (fs.mkdirParents p).bind fun fs =>
    fs.mkdir (p ++ [name]) := by
  simp [mkdirParents, mkdirParentsRev]

theorem mkdirParents_of_isDirectory (h : fs.isDirectory p = true) :
    fs.mkdirParents p = some fs := by
  cases p using List.reverseRec with
  | nil => simp [mkdirParents, mkdirParentsRev, h]
  | append_singleton p name => rw [mkdirParents_concat, if_pos h]

theorem mkdirParents_made {base r : Path} (hbase : fs.isDirectory base = true)
    (hchain : ∀ r', r' <+: r → fs.node (base ++ r') = none ∨ fs.isDirectory (base ++ r') = true)
    (hclosed : ∀ r₁ r₂, r₁ <+: r₂ → r₂ <+: r → fs.isDirectory (base ++ r₂) = true →
      fs.isDirectory (base ++ r₁) = true) :
    ∃ fs', fs.mkdirParents (base ++ r) = some fs' ∧ MadeDirs fs fs' base r := by
  induction r using List.reverseRec with
  | nil =>
    refine ⟨fs, by simpa using mkdirParents_of_isDirectory hbase, fun r' hr' => ?_, fun _ _ => rfl⟩
    obtain rfl := List.prefix_nil.1 hr'
    simpa using hbase
  | append_singleton r name ih =>
    have hsub : ∀ r', r' <+: r → r' <+: r ++ [name] := fun r' hr' =>
      hr'.trans (List.prefix_append _ _)
    obtain ⟨fs₁, hfs₁, hmade⟩ :=
      ih (fun r' hr' => hchain r' (hsub r' hr')) fun r₁ r₂ h₁ h₂ => hclosed r₁ r₂ h₁ (hsub r₂ h₂)
    have hlast : ∀ r', r' <+: r → base ++ r' ≠ base ++ r ++ [name] := by
      intro r' hr' heq
      have hlen := congrArg List.length heq
      have hle := hr'.length_le
      simp only [List.length_append, List.length_singleton] at hlen
      omega
    rw [← List.append_assoc, mkdirParents_concat]
    by_cases hdir : fs.isDirectory (base ++ r ++ [name]) = true
    · refine ⟨fs, by rw [if_pos hdir], fun r' hr' => ?_, fun _ _ => rfl⟩
      exact hclosed r' (r ++ [name]) hr' List.prefix_rfl (by rwa [← List.append_assoc])
    · have hnone : fs.node (base ++ r ++ [name]) = none := by
        rw [List.append_assoc] at hdir ⊢
        exact (hchain (r ++ [name]) List.prefix_rfl).resolve_right hdir
      have hnone₁ : fs₁.node (base ++ r ++ [name]) = none := by
        rw [hmade.same _ fun r' hr' => (hlast r' hr').symm, hnone]
      have hfree : fs₁.free (base ++ r ++ [name]) = true :=
        free_iff.2 ⟨by simp, by simpa using hmade.dirs r List.prefix_rfl, hnone₁⟩
      have hcreates := creates (n := .directory fs₁.dirMode fs₁.now) hfree
      refine ⟨_, by rw [if_neg hdir, hfs₁, Option.bind_some, mkdir_eq_some.2 ⟨hfree, rfl⟩], fun r'
        hr' => ?_, fun q hq => ?_⟩
      · rcases List.prefix_concat_iff.1 hr' with rfl | hr'
        · rw [← List.append_assoc]
          exact isDirectory_iff.2 ⟨_, _, hcreates.node⟩
        · rw [hcreates.isDirectory (by simpa using hmade.dirs r List.prefix_rfl) (hlast r' hr')]
          exact hmade.dirs r' hr'
      · have hne : q ≠ base ++ r ++ [name] := by simpa using hq _ List.prefix_rfl
        have hparent : q ≠ (base ++ r ++ [name]).dropLast := by
          simpa using hq r (hsub r List.prefix_rfl)
        rw [hcreates.same q hne hparent]
        exact hmade.same q fun r' hr' => hq r' (hsub r' hr')

theorem mkdirParents_isDirectory (h : fs.mkdirParents p = some fs') : fs'.isDirectory p = true := by
  cases p using List.reverseRec with
  | nil =>
    simp only [mkdirParents, List.reverse_nil, mkdirParentsRev] at h
    split at h
    · next hdir =>
      obtain rfl := Option.some.inj h
      exact hdir
    · split at h
      · obtain rfl := Option.some.inj h
        simp [isDirectory, Node.isDirectory]
      · simp at h
  | append_singleton p name =>
    rw [mkdirParents_concat] at h
    split at h
    · next hdir =>
      obtain rfl := Option.some.inj h
      exact hdir
    · obtain ⟨fs₁, -, hmkdir⟩ := Option.bind_eq_some_iff.1 h
      obtain ⟨hfree, rfl⟩ := mkdir_eq_some.1 hmkdir
      exact isDirectory_iff.2 ⟨_, _, (creates hfree).node⟩

/-- Only the directories on the way down may change. -/
theorem mkdirParents_same (h : fs.mkdirParents p = some fs') (hq : ¬ q <+: p) :
    fs'.node q = fs.node q := by
  induction p using List.reverseRec generalizing fs' with
  | nil =>
    have hne : q ≠ [] := fun heq => hq (heq ▸ List.prefix_rfl)
    simp only [mkdirParents, List.reverse_nil, mkdirParentsRev] at h
    split at h
    · obtain rfl := Option.some.inj h
      rfl
    · split at h
      · obtain rfl := Option.some.inj h
        simp [hne]
      · simp at h
  | append_singleton p name ih =>
    rw [mkdirParents_concat] at h
    split at h
    · obtain rfl := Option.some.inj h
      rfl
    · obtain ⟨fs₁, hparents, hmkdir⟩ := Option.bind_eq_some_iff.1 h
      obtain ⟨hfree, rfl⟩ := mkdir_eq_some.1 hmkdir
      have hp : ¬ q <+: p := fun hle => hq (hle.trans (List.prefix_append _ _))
      rw [(creates hfree).same q (fun heq => hq (heq ▸ List.prefix_rfl)) fun heq =>
        ?_, ih hparents hp]
      exact hp (by simp [heq])

/-- What is there already is a directory. -/
theorem isDirectory_of_mkdirParents (h : fs.mkdirParents p = some fs') (hnode : fs.node p ≠ none) :
    fs.isDirectory p = true := by
  by_contra hdir
  cases p using List.reverseRec with
  | nil =>
    simp only [mkdirParents, List.reverse_nil, mkdirParentsRev, if_neg hdir, if_neg hnode] at h
    cases h
  | append_singleton p name =>
    rw [mkdirParents_concat, if_neg hdir] at h
    obtain ⟨fs₁, hparents, hmkdir⟩ := Option.bind_eq_some_iff.1 h
    obtain ⟨-, -, hnone⟩ := free_iff.1 (mkdir_eq_some.1 hmkdir).1
    rw [mkdirParents_same hparents fun hle => by simpa using hle.length_le] at hnone
    exact hnode hnone

/-! ## Whole trees -/

/-- What has something below it is a directory. -/
def Closed (fs : FileSystem) : Prop :=
  ∀ p name, fs.node (p ++ [name]) ≠ none → fs.isDirectory p = true

theorem Closed.above {r : Path} (h : fs.Closed) (hr : r ≠ []) (hnode : fs.node (p ++ r) ≠ none) :
    fs.isDirectory p = true := by
  induction r using List.reverseRec with
  | nil => exact absurd rfl hr
  | append_singleton r name ih =>
    rw [← List.append_assoc] at hnode
    have hdir := h (p ++ r) name hnode
    by_cases hnil : r = []
    · simpa [hnil] using hdir
    · obtain ⟨mode, mtimeNs, hnode⟩ := isDirectory_iff.1 hdir
      exact ih hnil (by simp [hnode])

theorem Closed.put (h : fs.Closed) (hparent : p ≠ [] → fs.isDirectory p.dropLast = true)
    (hn : fs.isDirectory p = true → n.isDirectory = true) : (fs.put p n).Closed := by
  intro q name hnode
  have hdir : fs.isDirectory q = true → (fs.put p n).isDirectory q = true := by
    intro hq
    by_cases hqp : q = p
    · subst hqp
      simp [isDirectory, hn hq]
    · rw [← hq]
      exact isDirectory_congr (by simp [hqp])
  by_cases heq : q ++ [name] = p
  · subst heq
    exact hdir (by simpa using hparent (by simp))
  · rw [node_put, if_neg heq] at hnode
    exact hdir (h q name hnode)

theorem Closed.parent (h : fs.Closed) (hnode : fs.node p ≠ none) (hne : p ≠ []) :
    fs.isDirectory p.dropLast = true := by
  rw [← List.dropLast_append_getLast hne] at hnode
  exact h _ _ hnode

/-- A call that replaces a node. -/
theorem Closed.replace {n₀ : Node} (h : fs.Closed) (hnode : fs.node p = some n₀)
    (hn : n₀.isDirectory = true → n.isDirectory = true) : (fs.put p n).Closed :=
  h.put (h.parent (by simp [hnode])) fun hdir => hn (by simpa [isDirectory, hnode] using hdir)

theorem Closed.touch (h : fs.Closed) : (fs.touch d).Closed := by
  unfold FileSystem.touch
  split
  · next hnode => exact h.replace hnode fun _ => rfl
  · exact h

theorem Closed.create (h : fs.Closed) (hfree : fs.free p = true) : (fs.create p n).Closed := by
  obtain ⟨hne, hparent, hnone⟩ := free_iff.1 hfree
  refine h.touch.put (fun _ => by rw [isDirectory_touch, hparent]) fun hdir => ?_
  rw [isDirectory_touch, isDirectory, hnone] at hdir
  cases hdir

theorem Closed.mkdirParents (h : fs.Closed) (hrun : fs.mkdirParents p = some fs') : fs'.Closed := by
  induction p using List.reverseRec generalizing fs' with
  | nil =>
    simp only [FileSystem.mkdirParents, List.reverse_nil, mkdirParentsRev] at hrun
    split at hrun
    · obtain rfl := Option.some.inj hrun
      exact h
    · split at hrun
      · obtain rfl := Option.some.inj hrun
        exact h.put (fun hne => absurd rfl hne) fun _ => rfl
      · cases hrun
  | append_singleton p name ih =>
    rw [mkdirParents_concat] at hrun
    split at hrun
    · obtain rfl := Option.some.inj hrun
      exact h
    · obtain ⟨fs₁, hparents, hmkdir⟩ := Option.bind_eq_some_iff.1 hrun
      obtain ⟨hfree, rfl⟩ := mkdir_eq_some.1 hmkdir
      exact (ih hparents).create hfree

theorem node_ne_none_of_isDirectory (h : fs.isDirectory p = true) : fs.node p ≠ none := by
  obtain ⟨mode, mtimeNs, hnode⟩ := isDirectory_iff.1 h
  simp [hnode]

/-- On the way to a directory that could be made there are only directories. -/
theorem isDirectory_above_mkdirParents {r : Path} (hclosed : fs.Closed)
    (h : fs.mkdirParents p = some fs') (hr : r <+: p) (hnode : fs.node r ≠ none) :
    fs.isDirectory r = true := by
  induction p using List.reverseRec generalizing fs' with
  | nil =>
    obtain rfl := List.prefix_nil.1 hr
    exact isDirectory_of_mkdirParents h hnode
  | append_singleton p name ih =>
    rcases List.prefix_concat_iff.1 hr with rfl | hle
    · exact isDirectory_of_mkdirParents h hnode
    · rw [mkdirParents_concat] at h
      split at h
      · next hdir =>
        obtain ⟨s, rfl⟩ := hle
        rw [List.append_assoc] at hdir
        exact hclosed.above (by simp) (node_ne_none_of_isDirectory hdir)
      · obtain ⟨fs₁, hparents, -⟩ := Option.bind_eq_some_iff.1 h
        exact ih hparents hle

theorem mem_iterdir {name : Str} : name ∈ fs.iterdir d ↔ fs.node (d ++ [name]) ≠ none := by
  simp only [iterdir, List.mem_insertionSort, List.mem_dedup, List.mem_map, List.mem_filter,
    Bool.and_eq_true,
    decide_eq_true_eq, Option.isSome_iff_ne_none]
  constructor
  · rintro ⟨p, ⟨-, ⟨hparent, hne⟩, hnode⟩, rfl⟩
    rwa [← hparent, List.getLastD_eq_getLast?, List.getLast?_eq_getLast_of_ne_nil hne,
      Option.getD_some,
      List.dropLast_append_getLast hne]
  · intro hnode
    exact ⟨d ++ [name], ⟨fs.complete _ hnode, ⟨by simp, by simp⟩, hnode⟩, by simp⟩

theorem nodup_iterdir : (fs.iterdir d).Nodup :=
  (List.perm_insertionSort _ _).nodup_iff.2 (List.nodup_dedup _)

theorem rename_eq_some {src dst : Path} : fs.rename src dst = some fs' ↔
    (src ≠ [] ∧ dst ≠ [] ∧ (fs.node src).isSome ∧ fs.isDirectory dst.dropLast ∧ ¬ src <+: dst) ∧
      fs.replaceable src dst ∧
      fs' = ((fs.moved src dst).touch src.dropLast).touch dst.dropLast := by
  unfold rename
  split
  · next h =>
    simp only [h, true_and, Option.some.injEq, eq_comm, not_false_eq_true, ne_eq, and_self]
  · next h =>
    simp only [reduceCtorEq, false_iff]
    exact fun hc => h ⟨hc.1, hc.2.1⟩

theorem Closed.moved {src dst : Path} (h : fs.Closed) (hparent : fs.isDirectory dst.dropLast = true)
    (hne : dst ≠ []) (hapart : ¬ src <+: dst) : (fs.moved src dst).Closed := by
  intro q name hnode
  have hout : ∀ {r : Path}, ¬ dst <+: r → ¬ src <+: r →
      (fs.moved src dst).isDirectory r = fs.isDirectory r := fun hdst hsrc =>
    isDirectory_congr (by simp [FileSystem.moved, hdst, hsrc])
  by_cases hdst : dst <+: q
  · obtain ⟨r, rfl⟩ := hdst
    have hmoved : (fs.moved src dst).node (dst ++ r) = fs.node (src ++ r) := by
      simp [FileSystem.moved]
    have hbelow : (fs.moved src dst).node (dst ++ r ++ [name]) = fs.node (src ++ r ++ [name]) := by
      rw [List.append_assoc, List.append_assoc]
      simp [FileSystem.moved]
    rw [isDirectory, hmoved]
    exact h _ name (hbelow ▸ hnode)
  · by_cases hlast : dst = q ++ [name]
    · subst hlast
      rw [List.dropLast_concat] at hparent
      rw [hout hdst fun hle => hapart (hle.trans (List.prefix_append _ _)), hparent]
    · have hdst' : ¬ dst <+: q ++ [name] := fun hle =>
        (List.prefix_concat_iff.1 hle).elim hlast hdst
      simp only [FileSystem.moved, if_neg hdst'] at hnode
      by_cases hsrc : src <+: q ++ [name]
      · exact absurd (if_pos hsrc) hnode
      · rw [if_neg hsrc] at hnode
        rw [hout hdst fun hle => hsrc (hle.trans (List.prefix_append _ _))]
        exact h q name hnode

theorem Closed.rename {src dst : Path} (h : fs.Closed) (hrun : fs.rename src dst = some fs') :
    fs'.Closed := by
  obtain ⟨⟨-, hdst, -, hparent, hapart⟩, -, rfl⟩ := rename_eq_some.1 hrun
  exact (h.moved hparent hdst hapart).touch.touch

/-- What a rename does but for the times of the two directories. -/
theorem rename_node {src dst : Path} (h : fs.rename src dst = some fs') (hsrc : q ≠ src.dropLast)
    (hdst : q ≠ dst.dropLast) :
    fs'.node q = if dst <+: q then fs.node (src ++ q.drop dst.length) else if src <+: q then none
    else fs.node q := by
  obtain ⟨-, -, rfl⟩ := rename_eq_some.1 h
  rw [node_touch_of_ne hdst, node_touch_of_ne hsrc]
  rfl

theorem rename_moved {src dst r : Path} (h : fs.rename src dst = some fs')
    (hsrc : dst ++ r ≠ src.dropLast) :
    fs'.node (dst ++ r) = fs.node (src ++ r) := by
  have hne := (rename_eq_some.1 h).1.2.1
  have hdst : dst ++ r ≠ dst.dropLast := by
    intro heq
    have hlen := congrArg List.length heq
    have hpos := List.length_pos_iff.2 hne
    rw [List.length_append, List.length_dropLast] at hlen
    omega
  rw [rename_node h hsrc hdst, if_pos (List.prefix_append _ _), List.drop_left]

theorem rename_same {src dst : Path} (h : fs.rename src dst = some fs') (hsrc : ¬ src <+: q)
    (hdst : ¬ dst <+: q)
    (hsrc' : q ≠ src.dropLast) (hdst' : q ≠ dst.dropLast) : fs'.node q = fs.node q := by
  rw [rename_node h hsrc' hdst', if_neg hdst, if_neg hsrc]

theorem rename_isDirectory {src dst : Path} (h : fs.rename src dst = some fs') (hsrc : ¬ src <+: q)
    (hdst : ¬ dst <+: q) :
    fs'.isDirectory q = fs.isDirectory q := by
  obtain ⟨-, -, rfl⟩ := rename_eq_some.1 h
  rw [isDirectory_touch, isDirectory_touch]
  exact isDirectory_congr (by rw [moved]; simp [hsrc, hdst])

/-- Below the path nothing is left, everything else is as it was. -/
theorem removeTree_eq_some (h : fs.removeTree p = some fs') : fs' = fs ∧ fs.node p = none ∨
    fs' = (fs.removed p).touch p.dropLast := by
  unfold removeTree at h
  split at h
  · simp at h
  · split at h
    · next hnone => exact Or.inl ⟨(Option.some.inj h).symm, hnone⟩
    · exact Or.inr (Option.some.inj h).symm

theorem removeTree_same (h : fs.removeTree p = some fs') (hq : ¬ p <+: q)
    (hparent : q ≠ p.dropLast) :
    fs'.node q = fs.node q := by
  rcases removeTree_eq_some h with ⟨rfl, -⟩ | rfl
  · rfl
  · rw [node_touch_of_ne hparent]
    simp [removed, hq]

theorem removeTree_isDirectory (h : fs.removeTree p = some fs') (hq : ¬ p <+: q) :
    fs'.isDirectory q = fs.isDirectory q := by
  rcases removeTree_eq_some h with ⟨rfl, -⟩ | rfl
  · rfl
  · rw [isDirectory_touch]
    exact isDirectory_congr (by simp [removed, hq])

theorem removeTree_none (h : fs.removeTree p = some fs') (hq : fs.node q = none) :
    fs'.node q = none := by
  rcases removeTree_eq_some h with ⟨rfl, -⟩ | rfl
  · exact hq
  · have hnone : (fs.removed p).node q = none := by simp [removed, hq]
    rw [node_touch_of_not_directory (by simp [isDirectory, hnone]), hnone]

theorem removeTree_below {r : Path} (h : fs.removeTree p = some fs') (hne : p ≠ [])
    (hclosed : fs.node (p ++ r) ≠ none → fs.node p ≠ none) :
    fs'.node (p ++ r) = none := by
  rcases removeTree_eq_some h with ⟨rfl, hnone⟩ | rfl
  · by_contra hnode
    exact hclosed hnode hnone
  · rw [node_touch_of_ne fun heq => ?_]
    · simp [removed]
    · have hlen := congrArg List.length heq
      have hpos := List.length_pos_iff.2 hne
      rw [List.length_append, List.length_dropLast] at hlen
      omega

/-! ## When the calls succeed -/

def NoSpecial (fs : FileSystem) : Prop := ∀ p, fs.node p ≠ some .special

theorem NoSpecial.put (h : fs.NoSpecial) (hn : n ≠ .special) : (fs.put p n).NoSpecial := by
  intro q
  rw [node_put]
  split
  · simpa using hn
  · exact h q

theorem NoSpecial.touch (h : fs.NoSpecial) : (fs.touch d).NoSpecial := by
  unfold FileSystem.touch
  split
  · exact h.put nofun
  · exact h

theorem NoSpecial.mkdirParents (h : fs.NoSpecial) (hrun : fs.mkdirParents p = some fs') :
    fs'.NoSpecial := by
  induction p using List.reverseRec generalizing fs' with
  | nil =>
    simp only [FileSystem.mkdirParents, List.reverse_nil, mkdirParentsRev] at hrun
    split at hrun
    · obtain rfl := Option.some.inj hrun
      exact h
    · split at hrun
      · obtain rfl := Option.some.inj hrun
        exact h.put nofun
      · simp at hrun
  | append_singleton p name ih =>
    rw [mkdirParents_concat] at hrun
    split at hrun
    · obtain rfl := Option.some.inj hrun
      exact h
    · obtain ⟨fs₁, hparents, hmkdir⟩ := Option.bind_eq_some_iff.1 hrun
      obtain ⟨-, rfl⟩ := mkdir_eq_some.1 hmkdir
      exact ((ih hparents).touch).put nofun

theorem NoSpecial.rename {src dst : Path} (h : fs.NoSpecial) (hrun : fs.rename src dst = some fs') :
    fs'.NoSpecial := by
  obtain ⟨-, -, rfl⟩ := rename_eq_some.1 hrun
  refine NoSpecial.touch (NoSpecial.touch fun q => ?_)
  simp only [moved]
  split
  · exact h _
  · split
    · simp
    · exact h q

theorem NoSpecial.removeTree (h : fs.NoSpecial) (hrun : fs.removeTree p = some fs') :
    fs'.NoSpecial := by
  rcases removeTree_eq_some hrun with ⟨rfl, -⟩ | rfl
  · exact h
  · refine NoSpecial.touch fun q => ?_
    simp only [removed]
    split
    · simp
    · exact h q

theorem NoSpecial.removeTree_isSome (h : fs.NoSpecial) : ∃ fs', fs.removeTree p = some fs' := by
  have hnone : (fs.names.any fun q => p.isPrefixOf q && fs.node q = some .special) = false := by
    simp [h _]
  unfold FileSystem.removeTree
  rw [hnone]
  by_cases hp : fs.node p = none <;> simp [hp]

/-- Nothing is there, or a rename replaces no directory by no directory. -/
def Vacant (fs : FileSystem) (src dst : Path) : Prop :=
  fs.node dst = none ∨ fs.isDirectory dst = false ∧ fs.isDirectory src = false

theorem Vacant.rename_isSome {src dst : Path} (h : fs.Vacant src dst) (hsrc : src ≠ [])
    (hdst : dst ≠ [])
    (hnode : fs.node src ≠ none) (hparent : fs.isDirectory dst.dropLast = true)
    (hapart : ¬ src <+: dst) :
    ∃ fs', fs.rename src dst = some fs' := by
  refine ⟨_, rename_eq_some.2
    ⟨⟨hsrc, hdst, Option.isSome_iff_ne_none.2 hnode, hparent, hapart⟩, ?_, rfl⟩⟩
  unfold replaceable
  rcases h with hnone | ⟨hfile, hsrcFile⟩
  · simp [hnone]
  · split
    · rfl
    · next n hn =>
      have hn' : n.isDirectory = false := by simpa [isDirectory, hn] using hfile
      simp [hn', hsrcFile]

end FileSystem

end KiroCrew
