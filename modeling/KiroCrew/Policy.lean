import KiroCrew.Lib.PosixPath

/-!
# What a checkpoint holds

`PersistencePolicy`: the durable roots of the workspace and what is left out below them. `covers`
says whether a path lies inside a root, `includes` whether it is checkpointed. The excluded segments
are compared with the components of the path and with runs of components, so a segment that is
itself a path (`home/.kiro/crew/models`) is excluded wherever it occurs.
-/

namespace KiroCrew

/-- A path relative to the workspace: its component names. -/
abbrev Path := List Str

/-- `PurePosixPath` of a workspace-relative path. -/
def Path.relative (p : Path) : PosixPath := { parts := p }

/-- Its text. -/
def Path.text (p : Path) : Str := p.relative.str

theorem Path.text_eq_join {p : Path} (h : ∀ name ∈ p, PosixPath.isPart name = true) (hne : p ≠ []) :
    p.text = PosixPath.join p := PosixPath.str_relative h hne

theorem Path.parse_text {p : Path} (h : ∀ name ∈ p, PosixPath.isPart name = true) (hne : p ≠ []) :
    PosixPath.parse p.text = p.relative := by
  rw [Path.text_eq_join h hne]
  exact PosixPath.parse_join h

def dotDot : Str := [46, 46]

namespace PersistencePolicy

def roots : List Path :=
  [["home", ".kiro"], ["home", ".config"], ["home", ".local", "share", "kiro-cli"], ["artifacts"],
    ["knowledge"],
    ["memory"], ["projects"], ["user"]].map fun root => root.map Str.ofString

def excludedSegments : List Str :=
  [".agentcore", ".aws", ".cache", ".mypy_cache", ".pytest_cache", ".ruff_cache", ".ssh",
    "__pycache__", "node_modules",
    "home/.kiro/crew/models"].map Str.ofString

def excludedNames : List Str :=
  [".env", ".env.local", "adapter.run", "kirocrew.pid", "runtime.pid"].map Str.ofString

def excludedSuffixes : List Str := [".log", ".pid", ".sock", ".tmp", "~"].map Str.ofString

def covers (path : PosixPath) : Bool :=
  !path.isAbsolute && !decide (dotDot ∈ path.parts) &&
    roots.any fun root => path = root.relative || path.isRelativeTo root.relative

def excludedBy (path : PosixPath) (excluded : Str) : Bool :=
  decide (excluded ∈ path.parts) || path.str = excluded || (excluded ++ [47]).isPrefixOf path.str ||
    decide ((47 :: excluded ++ [47]) <:+: (47 :: path.str ++ [47]))

def includes (path : PosixPath) : Bool :=
  covers path && !excludedSegments.any (excludedBy path) &&
    (!decide (path.name ∈ excludedNames) && !excludedSuffixes.any (·.isSuffixOf path.name))

theorem covers_of_includes {path : PosixPath} (h : includes path = true) : covers path = true := by
  simp only [includes, Bool.and_eq_true] at h
  exact h.1.1

theorem isRelativeTo_relative {p root : Path} : p.relative.isRelativeTo root.relative = true ↔
    root <+: p := by
  simp [PosixPath.isRelativeTo, Path.relative]

theorem covers_relative {p : Path} (h : covers p.relative = true) : ∃ root ∈ roots, root <+: p := by
  simp only [covers, Bool.and_eq_true, List.any_eq_true, Bool.or_eq_true, decide_eq_true_eq] at h
  obtain ⟨-, root, hroot, heq | hrel⟩ := h
  · have hp : p = root := congrArg PosixPath.parts heq
    exact ⟨root, hroot, hp ▸ List.prefix_rfl⟩
  · exact ⟨root, hroot, isRelativeTo_relative.1 hrel⟩

theorem relative_of_covers {path : PosixPath} (h : covers path = true) :
    path = Path.relative path.parts := by
  simp only [covers, Bool.and_eq_true, Bool.not_eq_true', PosixPath.isAbsolute,
    decide_eq_false_iff_not, not_not] at h
  exact congrArg (fun root => { root := root, parts := path.parts : PosixPath }) h.1.1

theorem root_unique {p root root' : Path} (h : root ∈ roots) (h' : root' ∈ roots) (hp : root <+: p)
    (hp' : root' <+: p) :
    root = root' := by
  have hnested : ∀ r ∈ roots, ∀ r' ∈ roots, r <+: r' → r = r' := by decide
  rcases List.prefix_or_prefix_of_prefix hp hp' with hle | hle
  · exact hnested root h root' h' hle
  · exact (hnested root' h' root h hle).symm

theorem root_ne_nil {root : Path} (h : root ∈ roots) : root ≠ [] := by
  have hall : ∀ r ∈ roots, r ≠ [] := by decide
  exact hall root h

end PersistencePolicy

/-- The depth a target reaches stays at least zero: `depth` components lie above it. -/
def staysInside : Nat → List Str → Bool
  | _, [] => true
  | depth, part :: parts =>
    if part = dotDot then
      match depth with
      | 0 => false
      | depth + 1 => staysInside depth parts
    else staysInside (depth + 1) parts

def safeSymlinkTarget (path : PosixPath) (target : Str) : Bool :=
  !(PosixPath.parse target).isAbsolute && staysInside path.parent.parts.length
    (PosixPath.parse target).parts

end KiroCrew
