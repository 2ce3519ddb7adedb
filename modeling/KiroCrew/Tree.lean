import KiroCrew.Manifest

/-!
# Workspace trees

`Tree` is what a directory holds: finitely many paths, each a directory, a symbolic link, a regular
file or something else. `Snapshot` adds the change times and inode numbers. `walk` is
`_walk_included_roots`: the durable roots that exist and everything below them that is reached
through directories that are no links. `recorded` are the paths of which a build records an entry.
-/

namespace KiroCrew

/-- A name a directory entry can have, as Python decodes it. -/
def isFileName (name : Str) : Bool :=
  PosixPath.isPart name && decide (name ≠ dotDot) && decide (0 ∉ name) && name.fsDecoded

inductive Node
  | directory (mode : Mode) (mtimeNs : Int)
  | symlink (mode : Mode) (mtimeNs : Int) (target : Str)
  | file (mode : Mode) (mtimeNs : Int) (data : Bytes)
  | special
deriving DecidableEq, Repr

namespace Node

def isDirectory : Node → Bool
  | .directory _ _ => true
  | _ => false

def kind : Node → FileKind
  | .directory _ _ => .directory
  | .symlink _ _ _ => .symlink
  | .file _ _ _ => .regular
  | .special => .other

def mode : Node → Mode
  | .directory mode _ | .symlink mode _ _ | .file mode _ _ => mode
  | .special => 0

def mtimeNs : Node → Int
  | .directory _ mtimeNs | .symlink _ mtimeNs _ | .file _ mtimeNs _ => mtimeNs
  | .special => 0

def data : Node → Bytes
  | .file _ _ data => data
  | _ => []

def target : Node → Str
  | .symlink _ _ target => target
  | _ => []

/-- The size a manifest gives: the bytes of a file, the length of a link's target. -/
def size : Node → Nat
  | .file _ _ data => data.length
  | .symlink _ _ target => (PosixPath.parse target).str.utf8Length.getD 0
  | _ => 0

end Node

/-- The nodes of a directory by their relative path. -/
structure Tree where
  node : Path → Option Node
  names : List Path
  complete : ∀ p, node p ≠ none → p ∈ names
  fileName : ∀ p, node p ≠ none → ∀ name ∈ p, isFileName name = true

/-- The `errno`s that pathlib takes to say that nothing is there: `ENOENT`, `ENOTDIR`, `EBADF`,
`ELOOP`. -/
def saysAbsent (errno : Nat) : Bool := decide (errno ∈ [2, 20, 9, 40])

namespace Tree

/-- The tree that a list of nodes describes. -/
def ofNodes (nodes : Dict Path Node) (h : ∀ x ∈ nodes, ∀ name ∈ x.1, isFileName name = true) :
    Tree where
  node := Dict.get? nodes
  names := Dict.keys nodes
  complete := fun p hp => Dict.get?_isSome.1 (Option.isSome_iff_ne_none.2 hp)
  fileName := fun p hp => by
    obtain ⟨n, hn⟩ := Option.ne_none_iff_exists'.1 hp
    exact h (p, n) (Dict.mem_of_get? hn)

variable (t : Tree)

/-- Reached from `root` through directories that are no links. -/
def below (root p : Path) : Bool :=
  root.isPrefixOf p && (t.node p).isSome &&
    (List.range (p.length - root.length)).all fun i =>
    (t.node (p.take (root.length + i))).any Node.isDirectory

/-- `_walk_included_roots` -/
def walk : List Path :=
  (t.names.filter fun p => PersistencePolicy.roots.any fun root =>
    t.below root p).dedup.insertionSort (· ≤ ·)

/-- What a build records of a path that it visits. -/
def records (p : Path) (n : Node) : Bool :=
  PersistencePolicy.includes p.relative &&
    match n with
    | .directory _ _ | .file _ _ _ => true
    | .symlink _ _ target => safeSymlinkTarget p.relative (PosixPath.parse target).str
    | .special => false

def mtimeNs (p : Path) : Int := ((t.node p).map Node.mtimeNs).getD 0

def size (p : Path) : Nat := ((t.node p).map Node.size).getD 0

def recorded : List Path := t.walk.filter fun p => (t.node p).any (records p)

variable {t} {p q root : Path}

theorem below_iff : t.below root p = true ↔ root <+: p ∧ (∃ n, t.node p = some n) ∧
    ∀ i, root.length + i < p.length → ∃ n, t.node (p.take (root.length + i)) = some n ∧
    n.isDirectory = true := by
  simp only [below, Bool.and_eq_true, List.isPrefixOf_iff_prefix, Option.isSome_iff_exists,
    List.all_eq_true,
    List.mem_range, Option.any_eq_true, and_assoc]
  refine and_congr_right fun _ => and_congr_right fun _ => forall_congr' fun i => ?_
  constructor <;> intro h hi <;> exact h (by omega)

theorem mem_walk : p ∈ t.walk ↔ ∃ root ∈ PersistencePolicy.roots, t.below root p = true := by
  simp only [walk, List.mem_insertionSort, List.mem_dedup, List.mem_filter, List.any_eq_true]
  refine ⟨fun h => h.2, fun h => ⟨t.complete p ?_, h⟩⟩
  obtain ⟨root, -, hbelow⟩ := h
  obtain ⟨n, hn⟩ := (below_iff.1 hbelow).2.1
  simp [hn]

theorem nodup_walk : t.walk.Nodup :=
  (List.perm_insertionSort _ _).nodup_iff.2 (List.nodup_dedup _)

theorem node_of_mem_walk (h : p ∈ t.walk) : ∃ n, t.node p = some n := by
  obtain ⟨root, -, hbelow⟩ := mem_walk.1 h
  exact (below_iff.1 hbelow).2.1

theorem ne_nil_of_mem_walk (h : p ∈ t.walk) : p ≠ [] := by
  obtain ⟨root, hroot, hbelow⟩ := mem_walk.1 h
  rintro rfl
  exact PersistencePolicy.root_ne_nil hroot (List.prefix_nil.1 (below_iff.1 hbelow).1)

theorem mem_recorded : p ∈ t.recorded ↔ p ∈ t.walk ∧ ∃ n, t.node p = some n ∧
    records p n = true := by
  simp only [recorded, List.mem_filter, Option.any_eq_true]

theorem isPart_of_node {n : Node} (h : t.node p = some n) :
    ∀ name ∈ p, PosixPath.isPart name = true := by
  intro name hname
  have := t.fileName p (by simp [h]) name hname
  simp only [isFileName, Bool.and_eq_true] at this
  exact this.1.1.1

theorem safe_of_node {n : Node} (h : t.node p = some n) : ∀ name ∈ p, name.safe = true := by
  intro name hname
  have := t.fileName p (by simp [h]) name hname
  simp only [isFileName, Bool.and_eq_true] at this
  exact Str.safe_of_fsDecoded this.2

/-- A walked path and the directories above it, down from its root, are walked. -/
theorem mem_walk_of_prefix (h : p ∈ t.walk) (hroot : root ∈ PersistencePolicy.roots)
    (hq : root <+: q) (hqp : q <+: p)
    (hne : q ≠ p) : q ∈ t.walk ∧ ∃ n, t.node q = some n ∧ n.isDirectory = true := by
  obtain ⟨root', hroot', hbelow⟩ := mem_walk.1 h
  obtain ⟨hstart, -, hdirs⟩ := below_iff.1 hbelow
  obtain rfl := PersistencePolicy.root_unique hroot' hroot hstart (hq.trans hqp)
  have hlen : q.length < p.length := by
    refine Nat.lt_of_le_of_ne hqp.length_le fun heq => hne ?_
    exact hqp.eq_of_length heq
  have htake : q = p.take q.length := (List.prefix_iff_eq_take.1 hqp)
  have hle : root'.length ≤ q.length := hq.length_le
  have hnode := hdirs (q.length - root'.length) (by omega)
  rw [Nat.add_sub_cancel' hle, ← htake] at hnode
  refine ⟨mem_walk.2 ⟨root', hroot, below_iff.2 ⟨hq, hnode.imp fun n hn => hn.1, fun i hi => ?_⟩⟩,
    hnode⟩
  have htake' : q.take (root'.length + i) = p.take (root'.length + i) := by
    rw [htake, List.take_take, Nat.min_eq_left (by omega)]
  rw [htake']
  exact hdirs i (by omega)

end Tree

structure Snapshot extends Tree where
  ctimeNs : Path → Int
  inode : Path → Nat

namespace Snapshot

/-- `lstat`; the size counts for files only. -/
def metadata (t : Snapshot) (p : Path) (n : Node) : Metadata where
  kind := n.kind
  mode := n.mode
  mtimeNs := n.mtimeNs
  ctimeNs := t.ctimeNs p
  inode := t.inode p
  size := n.data.length

/-- What a build observes of `p` when the workspace does not change meanwhile. -/
def visitAt (t : Snapshot) (p : Path) : Option Visit :=
  (t.node p).map fun n =>
    { path := p
      metadata := t.metadata p n
      target := n.target
      data := n.data }

def visits (t : Snapshot) : List Visit := t.walk.filterMap t.visitAt

end Snapshot

end KiroCrew
