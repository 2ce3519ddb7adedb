import KiroCrew.Tree
import KiroCrew.Lib.Framing
import KiroCrew.Lib.JsonText
import KiroCrew.Lib.Utf8

/-!
# What the fingerprint hashes

`workspace_fingerprint` hashes one line for each policy-included path that its walk visits: the path
and the mode, time and size that `lstat` gives, each ended by a NUL. No field has a NUL in it and
the walk is sorted, so the bytes determine the entries (`seenEntries_eq_of_stream`) and the entries
the bytes. But nothing is hashed where a root or a visited path refuses a look, where a scan breaks
off, or where a name is to be encoded that Python has decoded from bytes that are no UTF-8, and
nothing is seen of what lies below a directory that cannot be scanned (`separates_iff`).
-/

namespace KiroCrew

/-- What is hashed of `lstat`. -/
structure Stat where
  /-- `st_mode`, the kind included -/
  mode : ℕ
  mtimeNs : ℤ
  size : ℕ
deriving DecidableEq

/-- What `lstat` gives of a node; the size of a directory or a link is up to the file system. -/
def Node.States (stat : Stat) : Node → Prop
  | .directory mode mtimeNs => stat.mode = 0o040000 + mode.val ∧ stat.mtimeNs = mtimeNs
  | .symlink mode mtimeNs _ => stat.mode = 0o120000 + mode.val ∧ stat.mtimeNs = mtimeNs
  | .file mode mtimeNs data =>
    stat.mode = 0o100000 + mode.val ∧ stat.mtimeNs = mtimeNs ∧ stat.size = data.length
  | .special => True

structure Workspace extends Tree where
  lstat : Path → Stat
  states : ∀ p n, node p = some n → n.States (lstat p)
  /-- The path of the workspace itself is followed. -/
  top : ∀ mode mtimeNs target, node [] ≠ some (.symlink mode mtimeNs target)
  /-- The `errno` of a look that fails: the path is too long, or a directory above may not be
  searched. -/
  refuses : Path → Option ℕ
  /-- No look says of what is there that it is not. -/
  present : ∀ p, node p ≠ none → ∀ errno ∈ refuses p, saysAbsent errno = false
  /-- Where a link leads: the `errno` of `stat`, or whether to a directory. -/
  leads : Path → Except ℕ Bool
  /-- The directory can be scanned. -/
  lists : Path → Bool
  /-- The `errno` where a scan breaks off before the end of the directory. -/
  breaks : Path → Option ℕ

namespace Workspace

variable (t : Workspace)

/-! ## The walk -/

/-- What pathlib makes of an `OSError`. -/
def absent {α : Type} (answer : α) (errno : ℕ) : Except ℕ α :=
  if saysAbsent errno then .ok answer else .error errno

/-- `path.stat()` as pathlib asks for it: nothing is there, or whether it is a directory. -/
def stat (p : Path) : Except ℕ (Option Bool) :=
  match t.refuses p with
  | some errno => absent none errno
  | none =>
    match t.node p with
    | none => .ok none
    | some (.symlink _ _ _) =>
      match t.leads p with
      | .error errno => absent none errno
      | .ok directory => .ok (some directory)
    | some n => .ok (some n.isDirectory)

def exists? (p : Path) : Except ℕ Bool := (t.stat p).map Option.isSome

def isDir (p : Path) : Except ℕ Bool := (t.stat p).map fun found => decide (found = some true)

def isSymlink (p : Path) : Except ℕ Bool :=
  match t.refuses p with
  | some errno => absent false errno
  | none =>
    match t.node p with
    | some (.symlink _ _ _) => .ok true
    | _ => .ok false

/-- Reached from `root` through directories that are no links and can be scanned. -/
def shown (root p : Path) : Bool :=
  t.below root p && (List.range (p.length - root.length)).all fun i =>
    t.lists (p.take (root.length + i))

/-- A directory that a walk from `root` scans. -/
def scanned (root p : Path) : Bool :=
  t.shown root p && t.lists p && (t.node p).any Node.isDirectory

def beneath (root : Path) : List Path := t.names.filter fun p => decide (p ≠ root) && t.shown root p

/-- `candidate.rglob("*")`, which passes over directories that cannot be scanned -/
def rglob (root : Path) : Except ℕ (List Path) :=
  match t.names.findSome? fun p => if t.scanned root p then t.breaks p else none with
  | some errno => .error errno
  | none => .ok (t.beneath root)

/-- One round of the loop in `_walk_included_roots`. -/
def walkRoot (root : Path) : Except ℕ (List Path) := do
  let there ← t.exists? root
  let there ← if there then pure true else t.isSymlink root
  if there then
    let directory ← t.isDir root
    let descend ← if directory then (t.isSymlink root).map (!·) else pure false
    let listed ← if descend then (t.rglob root).map (·.insertionSort (· ≤ ·)) else pure []
    pure (root :: listed)
  else pure []

/-- `_walk_included_roots` -/
def walkIncludedRoots : Except ℕ (List Path) := do
  if ← t.exists? [] then
    let paths ← PersistencePolicy.roots.mapM t.walkRoot
    pure (paths.flatten.dedup.insertionSort (· ≤ ·))
  else pure []

/-- The `lstat` of a path; `none` is an `OSError`. -/
def entry (p : Path) : Option (Path × Stat) :=
  if (t.refuses p).isSome then none else some (p, t.lstat p)

/-- The entries that are hashed, in order; `none` is an `OSError`. -/
def entries : Option (List (Path × Stat)) :=
  match t.walkIncludedRoots with
  | .error _ => none
  | .ok paths => (paths.filter fun p => PersistencePolicy.includes p.relative).mapM t.entry

/-- The text of an entry. -/
def record (entry : Path × Stat) : Str :=
  entry.1.text ++ [0] ++ Json.decimal entry.2.mode ++ [0] ++ Json.printInt entry.2.mtimeNs ++ [0] ++
    Json.decimal entry.2.size ++ [0]

/-- The bytes that `workspace_fingerprint` hashes; `none` is an `OSError` or the
`UnicodeEncodeError`. -/
def stream : Option (List ℕ) :=
  t.entries.bind fun entries =>
    (entries.mapM fun entry => Bytes.encodeUtf8 (record entry)).map List.flatten

/-! ## What it tells apart -/

/-- A policy-included entry, reached from a durable root through directories that are no links. -/
structure Included (p : Path) : Prop where
  policy : PersistencePolicy.includes p.relative = true
  present : t.node [] ≠ none
  reached : ∃ root ∈ PersistencePolicy.roots, t.below root p = true

/-- An included entry with no directory above it that cannot be scanned. -/
structure Seen (p : Path) : Prop where
  policy : PersistencePolicy.includes p.relative = true
  present : t.node [] ≠ none
  shown : ∃ root ∈ PersistencePolicy.roots, t.shown root p = true

/-- The entries of a kind are the same, with the same mode, modification time and size each. -/
structure Agree (kind : Workspace → Path → Prop) (t t' : Workspace) : Prop where
  paths : ∀ p, kind t p ↔ kind t' p
  metadata : ∀ p, kind t p → t.lstat p = t'.lstat p

/-- The policy-included paths are the same, with the same mode, modification time and size each. -/
def Same (t t' : Workspace) : Prop := Agree Included t t'

/-- Both workspaces have a byte stream, and the streams, or digests without a collision, are equal
when the workspaces are. -/
def Separates (t t' : Workspace) : Prop :=
  ∃ bytes bytes', t.stream = some bytes ∧ t'.stream = some bytes' ∧ (bytes = bytes' ↔ t.Same t') ∧
    ∀ sha : List ℕ → Digest, (sha bytes = sha bytes' → bytes = bytes') →
    (sha bytes = sha bytes' ↔ t.Same t')

/-- No look at the path ends in an error that pathlib raises. -/
structure Clear (p : Path) : Prop where
  lstat : ∀ errno ∈ t.refuses p, saysAbsent errno = true
  stat : ∀ mode mtimeNs target, t.node p = some (.symlink mode mtimeNs target) →
    ∀ errno, t.leads p = .error errno → saysAbsent errno = true

/-- And no scan below it breaks off. -/
structure Readable (root : Path) : Prop extends t.Clear root where
  scans : ∀ p, t.scanned root p = true → t.breaks p = none

/-- The workspace and its roots can be looked at and read, and the entries that are seen looked
at. -/
structure Open : Prop where
  workspace : t.Clear []
  roots : t.node [] ≠ none → ∀ root ∈ PersistencePolicy.roots, t.Readable root
  entries : ∀ p, t.Seen p → t.refuses p = none

/-- The names of the entries that are seen are UTF-8: no byte of them is decoded to a surrogate. -/
def Decoded : Prop := ∀ p, t.Seen p → ∀ name ∈ p, ∀ c ∈ name, Str.isLow c = false

/-- What lies below directories that cannot be scanned does not tell the workspaces apart: it is the
same where all that is seen is, and where all is the same, as much of it is seen. -/
structure Unhidden (t t' : Workspace) : Prop where
  hidden : Agree Seen t t' → Agree (fun t p => t.Included p ∧ ¬ t.Seen p) t t'
  seen : t.Same t' → ∀ p, t.Seen p ↔ t'.Seen p

variable {t} {t' : Workspace} {p : Path}

/-! ## The walk -/

theorem below_self {n : Node} (h : t.node p = some n) : t.below p p = true :=
  Tree.below_iff.2 ⟨List.prefix_rfl, ⟨n, h⟩, fun i hi => by omega⟩

theorem below_of_shown {root : Path} (h : t.shown root p = true) : t.below root p = true :=
  (Bool.and_eq_true_iff.1 h).1

theorem Seen.included (h : t.Seen p) : t.Included p :=
  ⟨h.policy, h.present, h.shown.imp fun _ hroot => ⟨hroot.1, below_of_shown hroot.2⟩⟩

/-- Where every directory can be scanned, every included entry is seen. -/
theorem seen_iff (h : ∀ p, t.lists p = true) : t.Seen p ↔ t.Included p := by
  refine ⟨Seen.included, fun hp =>
    ⟨hp.policy, hp.present, hp.reached.imp fun root hroot => ⟨hroot.1, ?_⟩⟩⟩
  rw [shown, hroot.2, Bool.true_and, List.all_eq_true]
  exact fun i _ => h _

/-- Whatever is below a root is the root or in a directory there. -/
theorem directory_of_below {root : Path} (h : t.below root p = true) (hne : p ≠ root) :
    ∃ n, t.node root = some n ∧ n.isDirectory = true := by
  obtain ⟨hstart, -, hdirectories⟩ := Tree.below_iff.1 h
  have hlength : root.length < p.length :=
    Nat.lt_of_le_of_ne hstart.length_le fun heq => hne (hstart.eq_of_length heq).symm
  have hroot := hdirectories 0 hlength
  rwa [Nat.add_zero, ← List.prefix_iff_eq_take.1 hstart] at hroot

theorem mem_names_of_shown {root : Path} (h : t.shown root p = true) : p ∈ t.names := by
  obtain ⟨n, hn⟩ := (Tree.below_iff.1 (below_of_shown h)).2.1
  refine t.complete p ?_
  rw [hn]
  exact Option.some_ne_none n

theorem mem_beneath {root : Path} : p ∈ t.beneath root ↔ p ≠ root ∧ t.shown root p = true := by
  rw [beneath, List.mem_filter, Bool.and_eq_true, decide_eq_true_eq]
  exact and_iff_right_of_imp fun h => mem_names_of_shown h.2

theorem shown_of_scanned {root : Path} (h : t.scanned root p = true) : t.shown root p = true :=
  (Bool.and_eq_true_iff.1 (Bool.and_eq_true_iff.1 h).1).1

/-- A root below which something is scanned is a directory. -/
theorem directory_of_scanned {root : Path} (h : t.scanned root p = true) :
    ∃ n, t.node root = some n ∧ n.isDirectory = true := by
  by_cases hp : p = root
  · subst hp
    obtain ⟨n, hn, hdirectory⟩ := (Option.any_eq_true _ _).1 (Bool.and_eq_true_iff.1 h).2
    exact ⟨n, hn, hdirectory⟩
  · exact directory_of_below (below_of_shown (shown_of_scanned h)) hp

theorem rglob_eq {root : Path} (h : t.Readable root) : t.rglob root = .ok (t.beneath root) := by
  have hnone : t.names.findSome? (fun p => if t.scanned root p then t.breaks p else none) =
      none := by
    refine List.findSome?_eq_none_iff.2 fun p _ => ?_
    split_ifs with hscanned
    · exact h.scans p hscanned
    · rfl
  rw [rglob, hnone]

theorem rglob_error {root : Path} (h : t.scanned root p = true) (hbreaks : t.breaks p ≠ none) :
    ∃ errno, t.rglob root = .error errno := by
  unfold rglob
  cases hfound : t.names.findSome? fun p => if t.scanned root p then t.breaks p else none with
  | some errno => exact ⟨errno, rfl⟩
  | none =>
    have hp := List.findSome?_eq_none_iff.1 hfound p (mem_names_of_shown (shown_of_scanned h))
    rw [if_pos h] at hp
    exact absurd hp hbreaks

/-- What a round of the walk lists where nothing is refused. -/
def under (t : Workspace) (root : Path) : List Path :=
  match t.node root with
  | none => []
  | some n => root :: if n.isDirectory then (t.beneath root).insertionSort (· ≤ ·) else []

theorem mem_under {root : Path} : p ∈ t.under root ↔ t.shown root p = true := by
  unfold under
  constructor
  · intro hp
    cases hn : t.node root with
    | none =>
      rw [hn] at hp
      cases hp
    | some n =>
      simp only [hn] at hp
      rcases List.mem_cons.1 hp with rfl | hp
      · rw [shown, below_self hn, Nat.sub_self]
        rfl
      · split_ifs at hp with hdirectory
        · exact (mem_beneath.1 ((List.mem_insertionSort _).1 hp)).2
        · cases hp
  · intro hshown
    have hbelow := below_of_shown hshown
    by_cases heq : p = root
    · subst heq
      obtain ⟨n, hn⟩ := (Tree.below_iff.1 hbelow).2.1
      simp only [hn]
      exact List.mem_cons_self
    · obtain ⟨n, hn, hdirectory⟩ := directory_of_below hbelow heq
      simp only [hn, hdirectory, if_true]
      exact List.mem_cons_of_mem root ((List.mem_insertionSort _).2 (mem_beneath.2 ⟨heq, hshown⟩))

theorem refuses_of_clear (h : t.Clear p) (hnode : t.node p ≠ none) : t.refuses p = none := by
  cases hrefuses : t.refuses p with
  | none => rfl
  | some errno =>
    have hclear := h.lstat errno hrefuses
    rw [t.present p hnode errno hrefuses] at hclear
    cases hclear

theorem stat_of_not_clear (h : ¬ t.Clear p) : ∃ errno, t.stat p = .error errno := by
  unfold stat
  cases hrefuses : t.refuses p with
  | some errno =>
    cases habsent : saysAbsent errno with
    | false => exact ⟨errno, if_neg (by simp [habsent])⟩
    | true =>
      refine absurd ⟨fun errno' herrno => ?_, fun mode mtimeNs target hnode => ?_⟩ h
      · rw [hrefuses] at herrno
        cases herrno
        exact habsent
      · have hfalse := t.present p (by rw [hnode]; exact Option.some_ne_none _) errno hrefuses
        rw [habsent] at hfalse
        cases hfalse
  | none =>
    have hstat : ¬ ∀ mode mtimeNs target, t.node p = some (.symlink mode mtimeNs target) →
        ∀ errno, t.leads p = .error errno → saysAbsent errno = true :=
      fun hstat => h ⟨fun errno herrno => absurd (hrefuses.symm.trans herrno) nofun, hstat⟩
    push Not at hstat
    obtain ⟨mode, mtimeNs, target, hnode, errno, hleads, habsent⟩ := hstat
    simp only [hnode, hleads]
    exact ⟨errno, if_neg habsent⟩

theorem walkRoot_eq (h : t.Readable p) : t.walkRoot p = .ok (t.under p) := by
  unfold walkRoot exists? isDir isSymlink stat under
  rw [rglob_eq h]
  cases hnode : t.node p with
  | none =>
    cases hrefuses : t.refuses p with
    | none => rfl
    | some errno =>
      have habsent : ∀ {α : Type} (answer : α), absent answer errno = .ok answer :=
        fun answer => if_pos (h.lstat errno hrefuses)
      simp only [habsent]
      rfl
  | some n =>
    rw [refuses_of_clear h.toClear (by rw [hnode]; exact Option.some_ne_none n)]
    cases n with
    | symlink mode mtimeNs target =>
      cases hleads : t.leads p with
      | error errno =>
        have habsent : absent (none : Option Bool) errno = .ok none :=
          if_pos (h.stat _ _ _ hnode errno hleads)
        simp only [habsent]
        rfl
      | ok directory => cases directory <;> rfl
    | directory mode mtimeNs => rfl
    | file mode mtimeNs data => rfl
    | special => rfl

theorem walkRoot_error (h : ¬ t.Readable p) : ∃ errno, t.walkRoot p = .error errno := by
  by_cases hclear : t.Clear p
  · have hscans : ¬ ∀ q, t.scanned p q = true → t.breaks q = none := fun hscans =>
      h ⟨hclear, hscans⟩
    push Not at hscans
    obtain ⟨q, hscanned, hbreaks⟩ := hscans
    obtain ⟨errno, herrno⟩ := rglob_error hscanned hbreaks
    obtain ⟨n, hnode, hdirectory⟩ := directory_of_scanned hscanned
    have hrefuses := refuses_of_clear hclear (by rw [hnode]; exact Option.some_ne_none n)
    refine ⟨errno, ?_⟩
    unfold walkRoot exists? isDir isSymlink stat
    cases n with
    | directory mode mtimeNs =>
      rw [hrefuses, hnode, herrno]
      rfl
    | file mode mtimeNs data => cases hdirectory
    | symlink mode mtimeNs target => cases hdirectory
    | special => cases hdirectory
  · obtain ⟨errno, herrno⟩ := stat_of_not_clear hclear
    refine ⟨errno, ?_⟩
    rw [walkRoot, exists?, herrno]
    rfl

theorem mapM_walkRoot {roots : List Path} (h : ∀ root ∈ roots, t.Readable root) :
    roots.mapM t.walkRoot = .ok (roots.map t.under) := by
  induction roots with
  | nil => rfl
  | cons root roots ih =>
    rw [List.mapM_cons, walkRoot_eq (h root List.mem_cons_self), ih fun r hr =>
      h r (List.mem_cons_of_mem _ hr)]
    rfl

theorem mapM_walkRoot_error {roots : List Path} (h : ¬ ∀ root ∈ roots, t.Readable root) :
    ∃ errno, roots.mapM t.walkRoot = .error errno := by
  induction roots with
  | nil => exact absurd (fun _ => nofun) h
  | cons root roots ih =>
    rw [List.mapM_cons]
    by_cases hroot : t.Readable root
    · obtain ⟨errno, herrno⟩ := ih fun hrest => h (List.forall_mem_cons.2 ⟨hroot, hrest⟩)
      exact ⟨errno, by rw [walkRoot_eq hroot, herrno]; rfl⟩
    · obtain ⟨errno, herrno⟩ := walkRoot_error hroot
      exact ⟨errno, by rw [herrno]; rfl⟩

/-- What the walk visits where nothing is refused. -/
def visited (t : Workspace) : List Path :=
  if t.node [] = none then [] else (PersistencePolicy.roots.map t.under).flatten.dedup.insertionSort
    (· ≤ ·)

theorem exists?_top (h : t.Clear []) : t.exists? [] = .ok (t.node []).isSome := by
  unfold exists? stat
  cases hnode : t.node [] with
  | none =>
    cases hrefuses : t.refuses [] with
    | none => rfl
    | some errno =>
      have habsent : absent (none : Option Bool) errno = .ok none := if_pos (h.lstat errno hrefuses)
      simp only [habsent]
      rfl
  | some n =>
    rw [refuses_of_clear h (by rw [hnode]; exact Option.some_ne_none n)]
    cases n with
    | symlink mode mtimeNs target => exact absurd hnode (t.top mode mtimeNs target)
    | directory mode mtimeNs => rfl
    | file mode mtimeNs data => rfl
    | special => rfl

/-- Where the roots can be looked at, the walk visits what it should; otherwise it raises. -/
theorem walkIncludedRoots_eq (h : t.Clear [])
    (hroots : t.node [] ≠ none → ∀ root ∈ PersistencePolicy.roots, t.Readable root) :
    t.walkIncludedRoots = .ok t.visited := by
  unfold walkIncludedRoots visited
  rw [exists?_top h]
  cases hnode : t.node [] with
  | none => rfl
  | some n =>
    have hclear := hroots (by rw [hnode]; exact Option.some_ne_none n)
    show (do let paths ← PersistencePolicy.roots.mapM t.walkRoot; pure _) = _
    rw [mapM_walkRoot hclear, if_neg (Option.some_ne_none n)]
    rfl

theorem clear_of_walk {paths : List Path} (h : t.walkIncludedRoots = .ok paths) :
    t.Clear [] ∧ (t.node [] ≠ none → ∀ root ∈ PersistencePolicy.roots, t.Readable root) := by
  unfold walkIncludedRoots at h
  have htop : t.Clear [] := by
    by_contra hclear
    obtain ⟨errno, herrno⟩ := stat_of_not_clear hclear
    rw [exists?, herrno] at h
    cases h
  refine ⟨htop, fun hnode => ?_⟩
  by_contra hclear
  obtain ⟨errno, herrno⟩ := mapM_walkRoot_error hclear
  rw [exists?_top htop, Option.isSome_iff_ne_none.2 hnode, herrno] at h
  cases h

theorem mem_visited : p ∈ t.visited ↔
    t.node [] ≠ none ∧ ∃ root ∈ PersistencePolicy.roots, t.shown root p = true := by
  unfold visited
  split_ifs with hnone
  · exact ⟨nofun, fun h => absurd hnone h.1⟩
  · rw [List.mem_insertionSort, List.mem_dedup, ← List.flatMap_def, List.mem_flatMap]
    simp only [mem_under]
    exact ⟨fun h => ⟨hnone, h⟩, fun h => h.2⟩

theorem nodup_visited (t : Workspace) : t.visited.Nodup := by
  unfold visited
  split_ifs
  · exact List.nodup_nil
  · exact (List.perm_insertionSort _ _).nodup_iff.2 (List.nodup_dedup _)

theorem pairwise_visited (t : Workspace) : t.visited.Pairwise (· ≤ ·) := by
  unfold visited
  split_ifs
  · exact List.Pairwise.nil
  · exact List.pairwise_insertionSort _ _

/-- Where every directory can be scanned, the fingerprint visits what a build visits. -/
theorem visited_eq (h : t.node [] ≠ none) (hlists : ∀ p, t.lists p = true) :
    t.visited = t.walk := by
  refine List.Perm.eq_of_pairwise' (r := (· ≤ ·)) t.pairwise_visited
    (List.pairwise_insertionSort _ _) ?_
  refine (List.perm_ext_iff_of_nodup t.nodup_visited Tree.nodup_walk).2 fun p => ?_
  rw [mem_visited, Tree.mem_walk, and_iff_right h]
  refine exists_congr fun root => and_congr_right fun _ => ?_
  rw [shown, List.all_eq_true.2 fun i _ => hlists _, Bool.and_true]

/-- Where every entry lies in a directory, the included ones are those that the policy includes. -/
theorem included_iff (h : ∀ p, t.node p ≠ none → ∀ q, q <+: p → q ≠ p → ∃ n, t.node q = some n ∧
    n.isDirectory = true) :
    t.Included p ↔ PersistencePolicy.includes p.relative = true ∧ t.node p ≠ none := by
  constructor
  · rintro ⟨hpolicy, -, root, -, hbelow⟩
    obtain ⟨n, hn⟩ := (Tree.below_iff.1 hbelow).2.1
    refine ⟨hpolicy, ?_⟩
    rw [hn]
    exact Option.some_ne_none n
  · rintro ⟨hpolicy, hnode⟩
    obtain ⟨root, hroot, hstart⟩ :=
      PersistencePolicy.covers_relative (PersistencePolicy.covers_of_includes hpolicy)
    have hne : p ≠ [] := by
      rintro rfl
      exact PersistencePolicy.root_ne_nil hroot (List.prefix_nil.1 hstart)
    obtain ⟨n, hn, -⟩ := h p hnode [] List.nil_prefix hne.symm
    refine ⟨hpolicy, ?_, root, hroot, Tree.below_iff.2
      ⟨hstart, Option.ne_none_iff_exists'.1 hnode, fun i hi => ?_⟩⟩
    · rw [hn]
      exact Option.some_ne_none n
    · refine h p hnode _ (List.take_prefix _ _) fun heq => ?_
      have hlength := congrArg List.length heq
      rw [List.length_take] at hlength
      omega

/-! ## The entries -/

def seenEntries (t : Workspace) : List (Path × Stat) :=
  (t.visited.filter fun p => PersistencePolicy.includes p.relative).map fun p => (p, t.lstat p)

theorem mem_seenEntries {entry : Path × Stat} : entry ∈ t.seenEntries ↔ t.Seen entry.1 ∧
    entry.2 = t.lstat entry.1 := by
  obtain ⟨p, stat⟩ := entry
  simp only [seenEntries, List.mem_map, List.mem_filter, mem_visited, Prod.mk.injEq]
  constructor
  · rintro ⟨q, ⟨⟨hpresent, hshown⟩, hpolicy⟩, rfl, rfl⟩
    exact ⟨⟨hpolicy, hpresent, hshown⟩, rfl⟩
  · rintro ⟨h, rfl⟩
    exact ⟨p, ⟨⟨h.present, h.shown⟩, h.policy⟩, rfl, rfl⟩

/-- The order does not depend on how the tree is listed. -/
theorem seenEntries_eq_iff : t.seenEntries = t'.seenEntries ↔ Agree Seen t t' := by
  constructor
  · intro h
    have hmem (p : Path) : (p, t.lstat p) ∈ t.seenEntries ↔ (p, t.lstat p) ∈ t'.seenEntries := by
      rw [h]
    have hmem' (p : Path) : (p, t'.lstat p) ∈ t.seenEntries ↔ (p, t'.lstat p) ∈ t'.seenEntries := by
      rw [h]
    simp only [mem_seenEntries, and_true] at hmem hmem'
    exact ⟨fun p => ⟨fun hp => ((hmem p).1 hp).1, fun hp => ((hmem' p).2 hp).1⟩, fun p hp =>
      ((hmem p).1 hp).2⟩
  · intro h
    have hpaths : (t.visited.filter fun p => PersistencePolicy.includes p.relative) =
        t'.visited.filter fun p => PersistencePolicy.includes p.relative := by
      refine List.Perm.eq_of_pairwise' (r := (· ≤ ·)) (t.pairwise_visited.filter _)
        (t'.pairwise_visited.filter _) ?_
      refine (List.perm_ext_iff_of_nodup (t.nodup_visited.filter _)
        (t'.nodup_visited.filter _)).2 fun p => ?_
      simp only [List.mem_filter, mem_visited]
      constructor
      · rintro ⟨⟨hpresent, hshown⟩, hpolicy⟩
        have hp := (h.paths p).1 ⟨hpolicy, hpresent, hshown⟩
        exact ⟨⟨hp.present, hp.shown⟩, hpolicy⟩
      · rintro ⟨⟨hpresent, hshown⟩, hpolicy⟩
        have hp := (h.paths p).2 ⟨hpolicy, hpresent, hshown⟩
        exact ⟨⟨hp.present, hp.shown⟩, hpolicy⟩
    rw [seenEntries, seenEntries, ← hpaths]
    refine List.map_congr_left fun p hp => ?_
    obtain ⟨hwalk, hpolicy⟩ := List.mem_filter.1 hp
    obtain ⟨hpresent, hshown⟩ := mem_visited.1 hwalk
    rw [h.metadata p ⟨hpolicy, hpresent, hshown⟩]

theorem mapM_entry {paths : List Path} :
    paths.mapM t.entry =
      if ∀ p ∈ paths, t.refuses p = none then some (paths.map fun p => (p, t.lstat p))
      else none := by
  induction paths with
  | nil => rfl
  | cons p paths ih =>
    rw [List.mapM_cons, ih]
    unfold entry
    cases hrefuses : t.refuses p with
    | some errno => simp [hrefuses]
    | none =>
      have hcons : (∀ p' ∈ p :: paths, t.refuses p' = none) ↔ ∀ p' ∈ paths, t.refuses p' = none :=
        List.forall_mem_cons.trans (and_iff_right hrefuses)
      by_cases hrest : ∀ p' ∈ paths, t.refuses p' = none
      · simp only [if_pos hrest, if_pos (hcons.2 hrest)]
        rfl
      · simp only [if_neg hrest, if_neg (mt hcons.1 hrest)]
        rfl

theorem entries_eq (h : t.Open) : t.entries = some t.seenEntries := by
  rw [entries, walkIncludedRoots_eq h.workspace h.roots]
  refine mapM_entry.trans (if_pos fun p hp => ?_)
  obtain ⟨hwalk, hpolicy⟩ := List.mem_filter.1 hp
  obtain ⟨hpresent, hshown⟩ := mem_visited.1 hwalk
  exact h.entries p ⟨hpolicy, hpresent, hshown⟩

theorem open_of_entries {entries : List (Path × Stat)} (h : t.entries = some entries) : t.Open := by
  unfold Workspace.entries at h
  cases hwalk : t.walkIncludedRoots with
  | error errno =>
    rw [hwalk] at h
    cases h
  | ok paths =>
    obtain ⟨hworkspace, hroots⟩ := clear_of_walk hwalk
    obtain rfl := Except.ok.inj (hwalk.symm.trans (walkIncludedRoots_eq hworkspace hroots))
    simp only [hwalk, mapM_entry] at h
    refine ⟨hworkspace, hroots, fun p hp => ?_⟩
    split_ifs at h with hentries
    exact hentries p (List.mem_filter.2 ⟨mem_visited.2 ⟨hp.present, hp.shown⟩, hp.policy⟩)

/-! ## The bytes -/

/-- The four fields of an entry's line. -/
def fields (entry : Path × Stat) : List Str :=
  [entry.1.text, Json.decimal entry.2.mode, Json.printInt entry.2.mtimeNs,
    Json.decimal entry.2.size]

theorem record_eq (entry : Path × Stat) : record entry = (fields entry).flatMap (· ++ [0]) := by
  simp [record, fields]

/-- A path as the walk gives them. -/
structure Named (p : Path) : Prop where
  nonempty : p ≠ []
  part : ∀ name ∈ p, PosixPath.isPart name = true
  noNul : ∀ name ∈ p, 0 ∉ name

theorem Seen.named (h : t.Seen p) : Named p := by
  obtain ⟨root, hroot, hbelow⟩ := h.included.reached
  obtain ⟨hstart, ⟨n, hn⟩, -⟩ := Tree.below_iff.1 hbelow
  refine ⟨?_, Tree.isPart_of_node hn, fun name hname => ?_⟩
  · rintro rfl
    exact PersistencePolicy.root_ne_nil hroot (List.prefix_nil.1 hstart)
  · have hfile := t.fileName p (by rw [hn]; exact Option.some_ne_none n) name hname
    simp only [isFileName, Bool.and_eq_true, decide_eq_true_eq] at hfile
    exact hfile.1.2

theorem fields_noNul {entry : Path × Stat} (h : Named entry.1) : ∀ field ∈ fields entry,
    0 ∉ field := by
  have hdecimal (n : ℕ) : 0 ∉ Json.decimal n := fun hmem => by
    have hrange := Json.digit_range hmem
    omega
  have hint (i : ℤ) : 0 ∉ Json.printInt i := by
    unfold Json.printInt
    split_ifs
    · rw [List.mem_cons, not_or]
      exact ⟨by decide, hdecimal _⟩
    · exact hdecimal _
  have htext : 0 ∉ entry.1.text := by
    rw [Path.text_eq_join h.part h.nonempty]
    intro hmem
    rcases PosixPath.mem_join hmem with hslash | ⟨name, hname, hzero⟩
    · cases hslash
    · exact h.noNul name hname hzero
  simp only [fields, List.forall_mem_cons]
  exact ⟨htext, hdecimal _, hint _, hdecimal _, nofun⟩

theorem fields_inj {entry entry' : Path × Stat} (h : Named entry.1) (h' : Named entry'.1)
    (heq : fields entry = fields entry') :
    entry = entry' := by
  obtain ⟨p, mode, mtimeNs, size⟩ := entry
  obtain ⟨p', mode', mtimeNs', size'⟩ := entry'
  simp only [fields, List.cons.injEq, and_true] at heq
  obtain ⟨htext, hmode, hmtime, hsize⟩ := heq
  rw [Path.text_eq_join h.part h.nonempty, Path.text_eq_join h'.part h'.nonempty] at htext
  have hpath : p = p' := PosixPath.join_injective h.part h'.part htext
  rw [hpath, Json.decimal_inj hmode, Json.printInt_inj hmtime, Json.decimal_inj hsize]

theorem flatMap_fields_inj {es es' : List (Path × Stat)} (h : ∀ e ∈ es, Named e.1)
    (h' : ∀ e ∈ es', Named e.1)
    (heq : es.flatMap fields = es'.flatMap fields) : es = es' := by
  induction es generalizing es' with
  | nil =>
    cases es' with
    | nil => rfl
    | cons e es' => cases heq
  | cons e es ih =>
    cases es' with
    | nil => cases heq
    | cons e' es' =>
      rw [List.forall_mem_cons] at h h'
      rw [List.flatMap_cons, List.flatMap_cons] at heq
      obtain ⟨hfields, hrest⟩ := List.append_inj heq rfl
      rw [fields_inj h.1 h'.1 hfields, ih h.2 h'.2 hrest]

theorem stream_eq (h : t.Open) :
    t.stream = Bytes.encodeUtf8 ((t.seenEntries.flatMap fields).flatMap (· ++ [0])) := by
  have hrecords : (t.seenEntries.map record).flatten = (t.seenEntries.flatMap fields).flatMap
      (· ++ [0]) := by
    rw [List.flatMap_assoc, ← List.flatMap_def]
    exact List.flatMap_congr fun entry _ => record_eq entry
  rw [stream, entries_eq h, Option.bind_some, ← hrecords, Bytes.encodeUtf8_flatten, List.mapM_map]
  rfl

/-- The bytes determine the entries. -/
theorem seenEntries_eq_of_stream (hopen : t.Open) (hopen' : t'.Open) {bytes : List ℕ}
    (h : t.stream = some bytes)
    (h' : t'.stream = some bytes) : t.seenEntries = t'.seenEntries := by
  have hnamed (t : Workspace) : ∀ e ∈ t.seenEntries, Named e.1 := fun e he =>
    (mem_seenEntries.1 he).1.named
  have hnoNul (t : Workspace) : ∀ s ∈ t.seenEntries.flatMap fields, 0 ∉ s := by
    intro s hs
    obtain ⟨e, he, hs⟩ := List.mem_flatMap.1 hs
    exact fields_noNul (hnamed t e he) s hs
  rw [stream_eq hopen] at h
  rw [stream_eq hopen'] at h'
  exact flatMap_fields_inj (hnamed t) (hnamed t')
    (Framing.terminated_inj (hnoNul t) (hnoNul t') (Bytes.encodeUtf8_inj h h'))

/-! ## Which workspaces have a stream -/

theorem isScalar_decimal {n c : ℕ} (h : c ∈ Json.decimal n) : Bytes.isScalar c = true := by
  have hrange := Json.digit_range h
  simp only [Bytes.isScalar, Str.isHigh, Str.isLow, Bool.and_eq_true, Bool.not_eq_true',
    decide_eq_true_eq, decide_eq_false_iff_not]
  omega

/-- Only the path of an entry can have a surrogate in its line. -/
theorem scalar_record {entry : Path × Stat} (h : ∀ c ∈ entry.1.text, Bytes.isScalar c = true) :
    ∀ c ∈ (fields entry).flatMap (· ++ [0]), Bytes.isScalar c = true := by
  have hint : ∀ c ∈ Json.printInt entry.2.mtimeNs, Bytes.isScalar c = true := by
    unfold Json.printInt
    split_ifs
    · rw [List.forall_mem_cons]
      exact ⟨by decide, fun c => isScalar_decimal⟩
    · exact fun c => isScalar_decimal
  have hfields : ∀ field ∈ fields entry, ∀ c ∈ field, Bytes.isScalar c = true := by
    simp only [fields, List.forall_mem_cons]
    exact ⟨h, fun c => isScalar_decimal, hint, fun c => isScalar_decimal, nofun⟩
  intro c hc
  obtain ⟨field, hfield, hc⟩ := List.mem_flatMap.1 hc
  rcases List.mem_append.1 hc with hc | hc
  · exact hfields field hfield c hc
  · rw [List.mem_singleton.1 hc]
    decide

/-- A path is encoded when no name in it has a surrogate. -/
theorem scalar_text (h : t.Seen p) : (∀ c ∈ p.text, Bytes.isScalar c = true) ↔
    ∀ name ∈ p, ∀ c ∈ name, Str.isLow c = false := by
  have hnamed := h.named
  obtain ⟨root, -, hbelow⟩ := h.included.reached
  obtain ⟨n, hn⟩ := (Tree.below_iff.1 hbelow).2.1
  have hsafe := Tree.safe_of_node hn
  rw [Path.text_eq_join hnamed.part hnamed.nonempty]
  constructor
  · intro hscalar name hname c hc
    have := hscalar c (PosixPath.join_of_mem hname hc)
    simp only [Bytes.isScalar, Bool.and_eq_true, Bool.not_eq_true'] at this
    exact this.2
  · intro hlow c hc
    rcases PosixPath.mem_join hc with rfl | ⟨name, hname, hc⟩
    · decide
    · have hpoint := List.all_eq_true.1 (hsafe name hname) c hc
      rw [Bytes.isScalar, hpoint, hlow name hname c hc]
      rfl

theorem encoded_iff : (Bytes.encodeUtf8
    ((t.seenEntries.flatMap fields).flatMap (· ++ [0]))).isSome = true ↔ t.Decoded := by
  rw [Bytes.encodeUtf8_isSome, List.all_eq_true, List.flatMap_assoc]
  constructor
  · intro h p hp
    refine (scalar_text hp).1 fun c hc => h c ?_
    have hentry : (p, t.lstat p) ∈ t.seenEntries := mem_seenEntries.2 ⟨hp, rfl⟩
    refine List.mem_flatMap.2
      ⟨_, hentry, List.mem_flatMap.2 ⟨p.text, List.mem_cons_self, List.mem_append_left [0] hc⟩⟩
  · intro h c hc
    obtain ⟨entry, hentry, hc⟩ := List.mem_flatMap.1 hc
    have hseen := (mem_seenEntries.1 hentry).1
    exact scalar_record ((scalar_text hseen).2 (h entry.1 hseen)) c hc

theorem stream_isSome : t.stream.isSome = true ↔ t.Open ∧ t.Decoded := by
  constructor
  · intro h
    obtain ⟨bytes, hbytes⟩ := Option.isSome_iff_exists.1 h
    obtain ⟨entries, hentries, -⟩ := Option.bind_eq_some_iff.1 hbytes
    have hopen := open_of_entries hentries
    rw [stream_eq hopen] at h
    exact ⟨hopen, encoded_iff.1 h⟩
  · rintro ⟨hopen, hdecoded⟩
    rw [stream_eq hopen]
    exact encoded_iff.2 hdecoded

/-! ## When the streams tell workspaces apart -/

/-- The metadata of what is seen and of what is not make up that of all included entries. -/
theorem unhidden_iff : t.Unhidden t' ↔ (Agree Seen t t' ↔ t.Same t') := by
  have hsame (h : t.Same t') (hseen : ∀ p, t.Seen p ↔ t'.Seen p) : Agree Seen t t' :=
    ⟨hseen, fun p hp => h.metadata p hp.included⟩
  constructor
  · rintro ⟨hhidden, hseen⟩
    refine ⟨fun h => ?_, fun h => hsame h (hseen h)⟩
    have hrest := hhidden h
    refine ⟨fun p => ?_, fun p hp => ?_⟩
    · by_cases hp : t.Seen p
      · exact ⟨fun _ => ((h.paths p).1 hp).included, fun _ => hp.included⟩
      · have hp' : ¬ t'.Seen p := fun hp' => hp ((h.paths p).2 hp')
        exact ⟨fun hincluded => ((hrest.paths p).1 ⟨hincluded, hp⟩).1, fun hincluded =>
          ((hrest.paths p).2 ⟨hincluded, hp'⟩).1⟩
    · by_cases hseen : t.Seen p
      · exact h.metadata p hseen
      · exact hrest.metadata p ⟨hp, hseen⟩
  · intro h
    refine ⟨fun hagree => ?_, fun hall => (h.2 hall).paths⟩
    have hall := h.1 hagree
    exact ⟨fun p => and_congr (hall.paths p) (not_congr (hagree.paths p)), fun p hp =>
      hall.metadata p hp.1⟩

/-- Nothing is hidden where every directory can be scanned. -/
theorem unhidden_of_lists (h : ∀ p, t.lists p = true) (h' : ∀ p, t'.lists p = true) :
    t.Unhidden t' where
  hidden := fun _ =>
    ⟨fun _ => iff_of_false (fun hp => hp.2 ((seen_iff h).2 hp.1))
        (fun hp => hp.2 ((seen_iff h').2 hp.1)),
      fun _ hp => absurd ((seen_iff h).2 hp.1) hp.2⟩
  seen := fun hsame p => (seen_iff h).trans ((hsame.paths p).trans (seen_iff h').symm)

/-- The streams of two workspaces tell them apart exactly when both can be looked at, all names that
are hashed are UTF-8 and nothing that tells them apart is hidden. -/
theorem separates_iff (t t' : Workspace) :
    t.Separates t' ↔ (t.Open ∧ t.Decoded) ∧ (t'.Open ∧ t'.Decoded) ∧ t.Unhidden t' := by
  have hstream {bytes bytes' : List ℕ} (h : t.stream = some bytes) (h' : t'.stream = some bytes') :
      (t.Open ∧ t.Decoded) ∧ (t'.Open ∧ t'.Decoded) ∧ (bytes = bytes' ↔ Agree Seen t t') := by
    have hwhole := stream_isSome.1 (Option.isSome_iff_exists.2 ⟨bytes, h⟩)
    have hwhole' := stream_isSome.1 (Option.isSome_iff_exists.2 ⟨bytes', h'⟩)
    refine ⟨hwhole, hwhole', ?_⟩
    rw [← seenEntries_eq_iff]
    constructor
    · rintro rfl
      exact seenEntries_eq_of_stream hwhole.1 hwhole'.1 h h'
    · intro hentries
      have hsome : t.stream = t'.stream := by rw [stream_eq hwhole.1, stream_eq hwhole'.1, hentries]
      rw [h, h'] at hsome
      exact Option.some.inj hsome
  rw [unhidden_iff]
  constructor
  · rintro ⟨bytes, bytes', h, h', hiff, -⟩
    obtain ⟨hwhole, hwhole', hseen⟩ := hstream h h'
    exact ⟨hwhole, hwhole', hseen.symm.trans hiff⟩
  · rintro ⟨hwhole, hwhole', hhidden⟩
    obtain ⟨bytes, h⟩ := Option.isSome_iff_exists.1 (stream_isSome.2 hwhole)
    obtain ⟨bytes', h'⟩ := Option.isSome_iff_exists.1 (stream_isSome.2 hwhole')
    have hiff := (hstream h h').2.2.trans hhidden
    refine ⟨bytes, bytes', h, h', hiff, fun sha hsha => ?_⟩
    rw [← hiff]
    exact ⟨hsha, congrArg sha⟩

/-- A tree whose directories have the size of a block. -/
def ofTree (tree : Tree)
    (htop : ∀ mode mtimeNs target, tree.node [] ≠ some (.symlink mode mtimeNs target)) :
    Workspace where
  toTree := tree
  lstat p :=
    match tree.node p with
    | some (.directory mode mtimeNs) => ⟨0o040000 + mode.val, mtimeNs, 4096⟩
    | some (.symlink mode mtimeNs target) => ⟨0o120000 + mode.val, mtimeNs, target.length⟩
    | some (.file mode mtimeNs data) => ⟨0o100000 + mode.val, mtimeNs, data.length⟩
    | _ => ⟨0o010644, 0, 0⟩
  states p n h := by
    simp only [h]
    cases n with
    | directory mode mtimeNs => exact ⟨rfl, rfl⟩
    | symlink mode mtimeNs target => exact ⟨rfl, rfl⟩
    | file mode mtimeNs data => exact ⟨rfl, rfl, rfl⟩
    | special => trivial
  top mode mtimeNs target h := htop mode mtimeNs target h
  refuses _ := none
  present _ _ _ h := by cases h
  leads _ := .error 2
  lists _ := true
  breaks _ := none

/-- A file whose name is the one byte `0xFF`. -/
def latin : Workspace :=
  ofTree (.ofNodes [([], .directory 0o755 0), ([Str.ofString "user"], .directory 0o755 1),
  ([Str.ofString "user", [0xDCFF]], .file 0o644 2 [])] (by decide)) nofun

theorem latin_not_hashed : ¬ ∀ t t' : Workspace, t.Separates t' := by
  intro h
  obtain ⟨bytes, -, hbytes, -⟩ := h latin latin
  have hnone : latin.stream = none := by decide +kernel
  rw [hnone] at hbytes
  cases hbytes

end Workspace

end KiroCrew
