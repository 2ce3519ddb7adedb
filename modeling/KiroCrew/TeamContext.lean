import KiroCrew.Lib.Str
import KiroCrew.Lib.Machine

/-!
# Team steering files

`TeamContextSync._install` between one write and the next: the steering directory, the manifest of
the files it owns and the run in progress with its local variables. A run can be cut at any point.
Which names a run may replace or remove is decided by the manifest, and that is written last: a run
that is cut after its first new file leaves a file behind that no later run takes for its own.
Without such cuts, and where no temporary name is taken, no other file is touched and a run that
completes leaves what the repository has (`converges_of_orderly`).
-/

namespace KiroCrew.Team

abbrev Name := Str
abbrev Content := List UInt8

/-- Where a symbolic link leads. -/
inductive Target
  | nothing
  | file (content : Content)
  | directory
deriving DecidableEq, Repr

inductive Node
  | file (content : Content)
  | directory
  | link (target : Target)
deriving DecidableEq, Repr

/-! ## The repository -/

inductive SourceKind
  | file (content : Content)
  | symlink
  /-- A directory, or anything else. -/
  | other
deriving DecidableEq, Repr

structure SourceEntry where
  name : Name
  kind : SourceKind
deriving DecidableEq, Repr

/-- A revision, with the entries of its `steering` directory if it has one. -/
structure Revision where
  id : Str
  steering : List SourceEntry
  nodup : (steering.map SourceEntry.name).Nodup

def maxFiles : Nat := 200
def maxFileBytes : Nat := 256 * 1024
def teamPrefix : Str := Str.ofString "team--"

def isAlphanumeric (c : Nat) : Bool :=
  decide (48 ≤ c ∧ c ≤ 57) || decide (65 ≤ c ∧ c ≤ 90) || decide (97 ≤ c ∧ c ≤ 122)

/-- `_NAME_PATTERN.fullmatch`: a stem of at most 100 characters and `.md` -/
def isSteeringName (name : Name) : Bool :=
  let stem := name.take (name.length - 3)
  decide (name.drop (name.length - 3) = Str.ofString ".md") && stem.head?.any isAlphanumeric &&
    decide (stem.length ≤ 100) &&
    stem.all fun c => isAlphanumeric c || decide (c = 46 ∨ c = 95 ∨ c = 45)

/-- One entry of the loop that collects `wanted`, with the names it skips. -/
def collectOne (found : List (Name × Content) × List Name) (e : SourceEntry) :
    List (Name × Content) × List Name :=
  if maxFiles ≤ found.1.length then (found.1, found.2 ++ [e.name])
  else
    match e.kind with
    | .file content =>
      if isSteeringName e.name ∧ content.length ≤ maxFileBytes then
        (found.1 ++ [(teamPrefix ++ e.name, content)], found.2)
      else (found.1, found.2 ++ [e.name])
    | .symlink | .other => (found.1, found.2 ++ [e.name])

def Revision.collect (r : Revision) : List (Name × Content) × List Name :=
  (r.steering.insertionSort fun e e' => e.name ≤ e'.name).foldl collectOne ([], [])

/-! ## A run -/

/-- `installed.json` -/
structure Manifest where
  installed : List Name
  revision : Str
deriving DecidableEq, Repr

def isTeamName (name : Name) : Bool := teamPrefix.isPrefixOf name && decide (47 ∉ name)

/-- `_read_manifest`, of no manifest too -/
def readManifest : Option Manifest → List Name
  | none => []
  | some m => m.installed.filter isTeamName

/-- What a run does next. -/
inductive Stage
  /-- It looks at the next wanted file. -/
  | scan
  /-- It opens the temporary file for the next wanted one, writes it, sets its mode and renames
  it. -/
  | create | fill | chmod | rename
  /-- It removes these. -/
  | remove (names : List Name)
  /-- It replaces the manifest. -/
  | publish
deriving DecidableEq, Repr

/-- The local variables of `_install`, and its result. -/
structure Sync where
  wanted : List (Name × Content)
  todo : List (Name × Content)
  owned : List Name
  revision : Str
  stage : Stage := .scan
  installed : List Name := []
  removed : List Name := []
  skipped : List Name := []
deriving DecidableEq, Repr

/-- The steering directory and the manifest, the run in progress, and what the last run wanted if it
has just completed. -/
structure Home where
  dir : Name → Option Node
  manifest : Option Manifest := none
  sync : Option Sync := none
  settled : Option (List (Name × Content)) := none

/-- `.{name}.tmp` -/
def temporary (name : Name) : Name := 46 :: name ++ Str.ofString ".tmp"

/-- What is there after the file has been opened and written; a link is followed. `none` is the
`IsADirectoryError`. -/
def written (content : Content) : Option Node → Option Node
  | none | some (.file _) => some (.file content)
  | some (.link .nothing) | some (.link (.file _)) => some (.link (.file content))
  | some .directory | some (.link .directory) => none

namespace Home

def put (h : Home) (name : Name) (node : Option Node) : Home :=
  { h with dir := Function.update h.dir name node }

/-- The run goes on with these local variables. -/
def go (h : Home) (s : Sync) : Home := { h with sync := some s }

/-- The run is over before it completes. -/
def stop (h : Home) : Home := { h with sync := none }

/-- An `OSError` stops the run. -/
def writing (h : Home) (name : Name) (content : Content) (s : Sync) : Home :=
  match written content (h.dir name) with
  | none => h.stop
  | some node => (h.put name (some node)).go s

/-- The run up to its next write. -/
def advance (h : Home) (s : Sync) : Home :=
  match s.stage, s.todo with
  | .scan, [] =>
    h.go { s with
      stage := .remove ((s.owned.filter (· ∉ s.installed)).dedup.insertionSort (· ≤ ·)) }
  | .scan, (name, content) :: rest =>
    match h.dir name with
    | none => h.go { s with stage := .create }
    | some node =>
      if name ∉ s.owned then h.go { s with todo := rest, skipped := s.skipped ++ [name] }
      else
        match node with
        | .link _ => (h.put name none).go { s with stage := .create }
        | .directory => h.stop
        | .file content' =>
          if content' = content then h.go { s with todo := rest,
                                                   installed := s.installed ++ [name] }
          else h.go { s with stage := .create }
  | .create, (name, _) :: _ => h.writing (temporary name) [] { s with stage := .fill }
  | .fill, (name, content) :: _ => h.writing (temporary name) content { s with stage := .chmod }
  | .chmod, _ => h.go { s with stage := .rename }
  | .rename, (name, _) :: rest =>
    if h.dir name = some .directory then h.stop
    else ((h.put name (h.dir (temporary name))).put (temporary name) none).go
      { s with stage := .scan, todo := rest, installed := s.installed ++ [name] }
  | .remove (name :: names), _ =>
    (match h.dir name with
      | some (.file _) => h.put name none
      | _ => h).go { s with stage := .remove names, removed := s.removed ++ [name] }
  | .remove [], _ => h.go { s with stage := .publish }
  | .publish, _ =>
    { h with
      manifest := some ⟨s.installed.insertionSort (· ≤ ·), s.revision⟩
      sync := none
      settled := some s.wanted }
  | .create, [] | .fill, [] | .rename, [] => h

/-- The run is cut, in the middle of a write after so many bytes. -/
def cut (h : Home) (s : Sync) (torn : Nat) : Home :=
  match s.stage, s.todo with
  | .fill, (name, content) :: _ => (h.writing (temporary name) (content.take torn) s).stop
  | _, _ => h.stop

end Home

inductive Event
  /-- A sync that fetched this revision. -/
  | start (r : Revision)
  | advance
  | cut (torn : Nat)

def step (h : Home) : Event → Option Home
  | .start r =>
    if h.sync = none then
      some { h with
        sync := some { wanted := r.collect.1
                       todo := r.collect.1
                       owned := readManifest h.manifest
                       revision := r.id
                       skipped := r.collect.2 }
        settled := none }
    else none
  | .advance => h.sync.map h.advance
  | .cut torn => h.sync.map fun s => h.cut s torn

/-! ## What is promised -/

def init (dir₀ : Name → Option Node) : Home := { dir := dir₀ }

/-- What was there before the first run is there as it was. -/
def Kept (dir₀ : Name → Option Node) (h : Home) : Prop :=
  ∀ n node, dir₀ n = some node → h.dir n = some node

/-- The directory has the wanted files, and no others but those of the start. -/
structure Converged (dir₀ : Name → Option Node) (wanted : List (Name × Content)) (h : Home) :
    Prop where
  holds : ∀ x ∈ wanted, h.dir x.1 = some (.file x.2) ∨ (dir₀ x.1).isSome
  gone : ∀ n, (h.dir n).isSome → (dir₀ n).isSome ∨ n ∈ wanted.map Prod.fst

namespace Sync

variable {s : Sync}

/-- No temporary file is in place. -/
def Whole (s : Sync) : Prop := s.stage ≠ .fill ∧ s.stage ≠ .chmod ∧ s.stage ≠ .rename

/-- The manifest has every file that the run has installed so far. -/
def Listed (s : Sync) : Prop := ∀ n ∈ s.installed, n ∈ s.owned

/-- The temporary name that the run opens next is free. -/
def Opens (s : Sync) (h : Home) : Prop :=
  match s.stage, s.todo with
  | .create, x :: _ => h.dir (temporary x.1) = none ∨ written [] (h.dir (temporary x.1)) =
      none ∧ s.Listed
  | _, _ => True

instance (s : Sync) : Decidable s.Whole := inferInstanceAs (Decidable (_ ∧ _))
instance (s : Sync) : Decidable s.Listed :=
  inferInstanceAs (Decidable (∀ n ∈ s.installed, n ∈ s.owned))
instance (s : Sync) (h : Home) : Decidable (s.Opens h) := by
  unfold Opens
  split <;> infer_instance

end Sync

/-- A run is cut only where it has left nothing that the manifest does not have, and opens only
temporary files that are free. -/
def Orderly (h : Home) : Event → Prop
  | .start _ => True
  | .advance => ∀ s ∈ h.sync, s.Opens h
  | .cut _ => ∀ s ∈ h.sync, s.Whole ∧ s.Listed

instance (h : Home) (e : Event) : Decidable (Orderly h e) := by
  cases e <;> unfold Orderly <;> infer_instance

/-! ## Names -/

theorem isTeamName_append {m : Name} (h : isSteeringName m = true) :
    isTeamName (teamPrefix ++ m) = true := by
  simp only [isSteeringName, Bool.and_eq_true, decide_eq_true_eq, List.all_eq_true,
    Bool.or_eq_true] at h
  obtain ⟨⟨⟨hmd, -⟩, -⟩, hstem⟩ := h
  rw [isTeamName, Bool.and_eq_true, decide_eq_true_eq]
  refine ⟨List.isPrefixOf_iff_prefix.2 (List.prefix_append _ _), fun hmem => ?_⟩
  rcases List.mem_append.1 hmem with hmem | hmem
  · exact absurd hmem (by decide)
  · rw [← List.take_append_drop (m.length - 3) m, hmd] at hmem
    rcases List.mem_append.1 hmem with hmem | hmem
    · exact absurd (hstem 47 hmem) (by decide)
    · exact absurd hmem (by decide)

theorem ne_temporary {n : Name} (h : isTeamName n = true) (m : Name) : n ≠ temporary m := by
  rintro rfl
  rw [isTeamName, Bool.and_eq_true, List.isPrefixOf_iff_prefix] at h
  obtain ⟨t, ht⟩ := h.1
  rw [temporary] at ht
  exact absurd (List.cons.inj ht).1 (by decide)

theorem mem_readManifest {m : Option Manifest} {n : Name} :
    n ∈ readManifest m ↔ (∃ l ∈ m, n ∈ l.installed) ∧ isTeamName n = true := by
  cases m with
  | none => simp [readManifest]
  | some l => simp [readManifest]

theorem collectOne_fst (found : List (Name × Content) × List Name) (e : SourceEntry) :
    (collectOne found e).1 = found.1 ∨
      ∃ content, isSteeringName e.name = true ∧ (collectOne found e).1 = found.1 ++
      [(teamPrefix ++ e.name, content)] := by
  unfold collectOne
  split_ifs with hmax
  · exact .inl rfl
  · rcases e.kind with content | _ | _
    · dsimp only
      split_ifs with hname
      · exact .inr ⟨content, hname.1, rfl⟩
      · exact .inl rfl
    · exact .inl rfl
    · exact .inl rfl

theorem foldl_collectOne_named (l : List SourceEntry) (found : List (Name × Content) × List Name)
    (h : ∀ x ∈ found.1, isTeamName x.1 = true) : ∀ x ∈ (l.foldl collectOne found).1,
    isTeamName x.1 = true := by
  induction l generalizing found with
  | nil => exact h
  | cons e l ih =>
    refine ih _ fun x hx => ?_
    rcases collectOne_fst found e with hfound | ⟨content, hname, hfound⟩
    · exact h x (hfound ▸ hx)
    · rw [hfound] at hx
      rcases List.mem_append.1 hx with hx | hx
      · exact h x hx
      · rw [List.mem_singleton.1 hx]
        exact isTeamName_append hname

theorem foldl_collectOne_sublist (l : List SourceEntry)
    (found : List (Name × Content) × List Name) :
    ((l.foldl collectOne found).1.map Prod.fst).Sublist (found.1.map Prod.fst ++ l.map fun e =>
    teamPrefix ++ e.name) := by
  induction l generalizing found with
  | nil => simp
  | cons e l ih =>
    refine (ih _).trans ?_
    rcases collectOne_fst found e with hfound | ⟨content, -, hfound⟩
    · rw [hfound]
      exact List.Sublist.append_left (List.sublist_cons_self _ _) _
    · rw [hfound]
      simp

theorem Revision.collect_named (r : Revision) : ∀ x ∈ r.collect.1, isTeamName x.1 = true :=
  foldl_collectOne_named _ _ fun _ hx => absurd hx List.not_mem_nil

theorem Revision.collect_nodup (r : Revision) : (r.collect.1.map Prod.fst).Nodup := by
  refine (foldl_collectOne_sublist _ _).nodup ?_
  have hperm :=
    (List.perm_insertionSort (fun e e' : SourceEntry => e.name ≤ e'.name) r.steering).map
      SourceEntry.name
  have hinj : Function.Injective fun n : Name => teamPrefix ++ n := fun _ _ h =>
    List.append_cancel_left h
  have hmap := ((hperm.nodup_iff).2 r.nodup).map hinj
  rwa [List.map_map] at hmap

/-! ## What holds between two writes -/

/-- The names in the directory that the run answers for. -/
def Sync.held (s : Sync) : List Name :=
  match s.stage, s.todo with
  | .scan, _ | .create, _ => s.owned ++ s.installed
  | .fill, x :: _ | .chmod, x :: _ | .rename, x :: _ => temporary x.1 :: (s.owned ++ s.installed)
  | .remove names, _ => names ++ s.installed
  | _, _ => s.installed

/-- Where the run stands: what it found out about the file in hand, or which names are left to
remove. -/
def Sync.Stands (dir₀ : Name → Option Node) (h : Home) (s : Sync) : Prop :=
  match s.stage, s.todo with
  | .scan, _ => True
  | .create, x :: _ => dir₀ x.1 = none
  | .fill, x :: _ => dir₀ x.1 = none ∧ dir₀ (temporary x.1) = none ∧
      ∃ content, h.dir (temporary x.1) = some (.file content)
  | .chmod, x :: _ | .rename, x :: _ => dir₀ x.1 = none ∧ dir₀ (temporary x.1) = none ∧
      h.dir (temporary x.1) = some (.file x.2)
  | .remove names, [] => names.Nodup ∧ ∀ n ∈ names, n ∈ s.owned ∧ n ∉ s.installed
  | .publish, [] => True
  | _, _ => False

variable {dir₀ : Name → Option Node} {h h' : Home} {s s' : Sync} {n : Name}
    {node : Option Node} {e : Event}

/-- The files of the start are there, what else is there is a plain file, and the manifest has none
of the start. -/
structure Files (dir₀ : Name → Option Node) (h : Home) : Prop where
  kept : Kept dir₀ h
  plain : ∀ n node, dir₀ n = none → h.dir n = some node → ∃ content, node = .file content
  mine : ∀ n ∈ readManifest h.manifest, dir₀ n = none

structure Working (dir₀ : Name → Option Node) (h : Home) (s : Sync) : Prop where
  owned : s.owned = readManifest h.manifest
  named : ∀ x ∈ s.wanted, isTeamName x.1 = true
  nodup : (s.wanted.map Prod.fst).Nodup
  todo : s.todo <:+ s.wanted
  done : ∀ x ∈ s.wanted, x ∉ s.todo → x.1 ∈ s.installed ∧ h.dir x.1 = some (.file x.2) ∨
    (dir₀ x.1).isSome
  installed : ∀ n ∈ s.installed, dir₀ n = none ∧ ∃ x ∈ s.wanted, x ∉ s.todo ∧ x.1 = n
  present : ∀ n, (h.dir n).isSome → (dir₀ n).isSome ∨ n ∈ s.held
  stands : s.Stands dir₀ h

structure Inv (dir₀ : Name → Option Node) (h : Home) : Prop where
  files : Files dir₀ h
  idle : h.sync = none → ∀ n, (h.dir n).isSome → (dir₀ n).isSome ∨ n ∈ readManifest h.manifest
  working : ∀ s ∈ h.sync, Working dir₀ h s
  settled : ∀ wanted ∈ h.settled, h.sync = none ∧ Converged dir₀ wanted h

@[simp] theorem Home.put_dir_self : (h.put n node).dir n = node := by
  simp [Home.put]

theorem Home.put_dir_of_ne {m : Name} (hne : m ≠ n) : (h.put n node).dir m = h.dir m := by
  simp [Home.put, hne]

theorem Files.put (hf : Files dir₀ h) (hn : dir₀ n = none)
    (hnode : ∀ node' ∈ node, ∃ content, node' = .file content) :
    Files dir₀ (h.put n node) := by
  refine ⟨fun m node' hm => ?_, fun m node' hm hdir => ?_, hf.mine⟩
  · have hne : m ≠ n := by
      rintro rfl
      rw [hn] at hm
      cases hm
    rw [Home.put_dir_of_ne hne]
    exact hf.kept m node' hm
  · by_cases hmn : m = n
    · subst hmn
      exact hnode node' (Home.put_dir_self.symm.trans hdir)
    · exact hf.plain m node' hm ((Home.put_dir_of_ne hmn).symm.trans hdir)

theorem Files.go (hf : Files dir₀ h) : Files dir₀ (h.go s) := ⟨hf.kept, hf.plain, hf.mine⟩

theorem Files.stop (hf : Files dir₀ h) : Files dir₀ h.stop := ⟨hf.kept, hf.plain, hf.mine⟩

theorem Files.go_inv (hf : Files dir₀ h) (hset : h.settled = none) (hw : Working dir₀ h s) :
    Inv dir₀ (h.go s) where
  files := hf.go
  idle := fun hsync => (by cases hsync)
  working := by
    rintro _ ⟨⟩
    exact ⟨hw.owned, hw.named, hw.nodup, hw.todo, hw.done, hw.installed, hw.present, hw.stands⟩
  settled := fun wanted hwanted => absurd (hset.symm.trans hwanted) (by simp)

/-- What the run answers for is in the manifest, where it may be cut. -/
theorem Working.held_subset (hw : Working dir₀ h s) (hwhole : s.Whole) (hlisted : s.Listed) :
    s.held ⊆ s.owned := by
  obtain ⟨hfill, hchmod, hrename⟩ := hwhole
  have hstands := hw.stands
  intro n hn
  unfold Sync.held at hn
  unfold Sync.Stands at hstands
  split at hn
  · exact (List.mem_append.1 hn).elim id (hlisted n)
  · exact (List.mem_append.1 hn).elim id (hlisted n)
  · exact absurd ‹_› hfill
  · exact absurd ‹_› hchmod
  · exact absurd ‹_› hrename
  · next names hstage =>
    rw [hstage] at hstands
    rcases List.mem_append.1 hn with hn | hn
    · cases htodo : s.todo with
      | nil =>
        rw [htodo] at hstands
        exact (hstands.2 n hn).1
      | cons x rest =>
        rw [htodo] at hstands
        cases hstands
    · exact hlisted n hn
  · exact hlisted n hn

theorem Working.stop (hf : Files dir₀ h) (hset : h.settled = none) (hw : Working dir₀ h s)
    (hwhole : s.Whole) (hlisted : s.Listed) :
    Inv dir₀ h.stop where
  files := hf.stop
  idle := fun _ n hn => (hw.present n hn).imp_right fun hheld =>
    hw.owned ▸ hw.held_subset hwhole hlisted hheld
  working := fun s hs => (by cases hs)
  settled := fun wanted hwanted => absurd (hset.symm.trans hwanted) (by simp)

/-! ## One write -/

section Writes

variable {x : Name × Content} {rest : List (Name × Content)}

theorem Working.eq_of_fst (hw : Working dir₀ h s) {y z : Name × Content} (hy : y ∈ s.wanted)
    (hz : z ∈ s.wanted) (hyz : y.1 = z.1) :
    y = z :=
  List.inj_on_of_nodup_map hw.nodup hy hz hyz

theorem Working.head_mem (hw : Working dir₀ h s) (htodo : s.todo = x :: rest) : x ∈ s.wanted :=
  hw.todo.subset (htodo ▸ List.mem_cons_self)

theorem Working.head_notMem (hw : Working dir₀ h s) (htodo : s.todo = x :: rest) : x ∉ rest := by
  have hnodup : s.todo.Nodup := (List.Nodup.of_map Prod.fst hw.nodup).sublist hw.todo.sublist
  rw [htodo] at hnodup
  exact (List.nodup_cons.1 hnodup).1

theorem Working.ne_head (hw : Working dir₀ h s) (htodo : s.todo = x :: rest) {y : Name × Content}
    (hy : y ∈ s.wanted)
    (hdone : y ∉ s.todo) : y.1 ≠ x.1 := by
  intro hyx
  rw [hw.eq_of_fst hy (hw.head_mem htodo) hyx, htodo] at hdone
  exact hdone List.mem_cons_self

theorem Working.head_notInstalled (hw : Working dir₀ h s) (htodo : s.todo = x :: rest) :
    x.1 ∉ s.installed := by
  intro hmem
  obtain ⟨-, y, hy, hdone, hyx⟩ := hw.installed _ hmem
  exact hw.ne_head htodo hy hdone hyx

/-- The run is done with the file in hand, which it installed or found to be foreign. -/
theorem Working.next (hw : Working dir₀ h s) (htodo : s.todo = x :: rest)
    {installed skipped : List Name}
    (hpresent : ∀ n, (h'.dir n).isSome → (dir₀ n).isSome ∨ n ∈ s.owned ++ installed)
    (hdir : ∀ n ∈ s.installed, h'.dir n = h.dir n) (hmanifest : h'.manifest = h.manifest)
    (hinstalled : installed = s.installed ∧ (dir₀ x.1).isSome ∨
      installed = s.installed ++ [x.1] ∧ dir₀ x.1 = none ∧ h'.dir x.1 = some (.file x.2)) :
    Working dir₀ h' { s with stage := .scan, todo := rest, installed := installed,
                             skipped := skipped } := by
  have hsub : s.installed ⊆ installed := by
    rcases hinstalled with ⟨rfl, -⟩ | ⟨rfl, -⟩
    · exact List.Subset.refl _
    · exact List.subset_append_left _ _
  refine ⟨hmanifest ▸ hw.owned, hw.named, hw.nodup, ?_, fun y hy hdone => ?_, fun n hn =>
    ?_, hpresent, trivial⟩
  · exact (htodo ▸ List.suffix_cons x rest : rest <:+ s.todo).trans hw.todo
  · by_cases hyx : y = x
    · subst hyx
      rcases hinstalled with ⟨-, hforeign⟩ | ⟨rfl, -, hfile⟩
      · exact .inr hforeign
      · exact .inl ⟨List.mem_append_right _ (List.mem_singleton_self _), hfile⟩
    · have hold : y ∉ s.todo := by
        rw [htodo]
        exact fun hmem => (List.mem_cons.1 hmem).elim hyx hdone
      exact (hw.done y hy hold).imp_left fun hin => ⟨hsub hin.1, (hdir y.1 hin.1).trans hin.2⟩
  · have hold (hn : n ∈ s.installed) : dir₀ n = none ∧ ∃ y ∈ s.wanted, y ∉ rest ∧ y.1 = n := by
      obtain ⟨hnone, y, hy, hdone, hyn⟩ := hw.installed n hn
      exact ⟨hnone, y, hy, fun hmem => hdone (htodo ▸ List.mem_cons_of_mem x hmem), hyn⟩
    rcases hinstalled with ⟨rfl, -⟩ | ⟨rfl, hnone, -⟩
    · exact hold hn
    · rcases List.mem_append.1 hn with hn | hn
      · exact hold hn
      · rw [List.mem_singleton.1 hn]
        exact ⟨hnone, x, hw.head_mem htodo, hw.head_notMem htodo, rfl⟩

theorem Working.step {stage : Stage} {removed : List Name} (hw : Working dir₀ h s)
    (hmanifest : h'.manifest = h.manifest)
    (hdir : ∀ n ∈ s.installed, h'.dir n = h.dir n)
    (hpresent : ∀ n, (h'.dir n).isSome → (dir₀ n).isSome ∨
      n ∈ { s with stage := stage, removed := removed }.held)
    (hstands : { s with stage := stage, removed := removed }.Stands dir₀ h') :
    Working dir₀ h' { s with stage := stage, removed := removed } where
  owned := hmanifest ▸ hw.owned
  named := hw.named
  nodup := hw.nodup
  todo := hw.todo
  done := fun y hy hdone => (hw.done y hy hdone).imp_left fun hin =>
    ⟨hin.1, (hdir y.1 hin.1).trans hin.2⟩
  installed := hw.installed
  present := hpresent
  stands := hstands

theorem Working.installed_named (hw : Working dir₀ h s) (hn : n ∈ s.installed) :
    isTeamName n = true := by
  obtain ⟨-, y, hy, -, rfl⟩ := hw.installed n hn
  exact hw.named y hy

/-- Nobody but the runs made a file under an owned name. -/
theorem Working.owned_none (hf : Files dir₀ h) (hw : Working dir₀ h s) (hn : n ∈ s.owned) :
    dir₀ n = none :=
  hf.mine n (hw.owned ▸ hn)

theorem Files.eq_none (hf : Files dir₀ h) (hn : h.dir n = none) : dir₀ n = none := by
  cases hdir : dir₀ n with
  | none => rfl
  | some node => exact absurd ((hf.kept n node hdir).symm.trans hn) (by simp)

theorem scan_nil_inv (hf : Files dir₀ h) (hset : h.settled = none) (hw : Working dir₀ h s)
    (hstage : s.stage = .scan)
    (htodo : s.todo = []) :
    Inv dir₀ (h.go { s with
      stage := .remove ((s.owned.filter (· ∉ s.installed)).dedup.insertionSort (· ≤ ·)) }) := by
  have hmem {n : Name} : n ∈ (s.owned.filter (· ∉ s.installed)).dedup.insertionSort (· ≤ ·) ↔
      n ∈ s.owned ∧ n ∉ s.installed := by
    simp
  refine hf.go_inv hset (hw.step rfl (fun _ _ => rfl) (fun n hn => ?_) ?_)
  · refine (hw.present n hn).imp_right fun hheld => ?_
    simp only [Sync.held, hstage, List.mem_append] at hheld
    simp only [Sync.held, List.mem_append, hmem]
    by_cases hin : n ∈ s.installed
    · exact .inr hin
    · exact .inl ⟨hheld.resolve_right hin, hin⟩
  · simp only [Sync.Stands, htodo]
    exact ⟨(List.perm_insertionSort _ _).nodup_iff.2 (List.nodup_dedup _), fun n hn => hmem.1 hn⟩

theorem scan_create_inv (hf : Files dir₀ h) (hset : h.settled = none) (hw : Working dir₀ h s)
    (hstage : s.stage = .scan)
    (htodo : s.todo = x :: rest) (hnone : dir₀ x.1 = none) :
    Inv dir₀ (h.go { s with stage := .create }) := by
  refine hf.go_inv hset (hw.step rfl (fun _ _ => rfl) (fun n hn => ?_) ?_)
  · refine (hw.present n hn).imp_right fun hheld => ?_
    simp only [Sync.held, hstage] at hheld
    exact hheld
  · simp only [Sync.Stands, htodo]
    exact hnone

/-- The temporary file, once its name is known to be the run's. -/
theorem writing_inv {content : Content} {stage : Stage} (hf : Files dir₀ h)
    (hset : h.settled = none) (hw : Working dir₀ h s)
    (htodo : s.todo = x :: rest) (hx : dir₀ x.1 = none) (hnone : dir₀ (temporary x.1) = none)
    (hheld : s.held ⊆ temporary x.1 :: (s.owned ++ s.installed)) (hstage : stage = .fill ∨
      stage = .chmod ∧ content = x.2) :
    Inv dir₀ (h.writing (temporary x.1) content { s with stage := stage }) := by
  have hwritten : written content (h.dir (temporary x.1)) = some (.file content) := by
    cases hdir : h.dir (temporary x.1) with
    | none => rfl
    | some node =>
      obtain ⟨content', rfl⟩ := hf.plain _ _ hnone hdir
      rfl
  have hput {n : Name} (hn : ((h.put (temporary x.1) (some (.file content))).dir n).isSome) :
      (dir₀ n).isSome ∨ n ∈ temporary x.1 :: (s.owned ++ s.installed) := by
    by_cases hne : n = temporary x.1
    · exact .inr (hne ▸ List.mem_cons_self)
    · exact (hw.present n ((Home.put_dir_of_ne hne) ▸ hn)).imp_right fun hn => hheld hn
  rw [Home.writing, hwritten]
  refine Files.go_inv (hf.put hnone ?_) hset (hw.step rfl (fun n hn => ?_) (fun n hn => ?_) ?_)
  · rintro _ ⟨⟩
    exact ⟨content, rfl⟩
  · exact Home.put_dir_of_ne (ne_temporary (hw.installed_named hn) x.1)
  · rcases hstage with rfl | ⟨rfl, -⟩
    · simpa only [Sync.held, htodo] using hput hn
    · simpa only [Sync.held, htodo] using hput hn
  · rcases hstage with rfl | ⟨rfl, rfl⟩
    · simp only [Sync.Stands, htodo]
      exact ⟨hx, hnone, content, Home.put_dir_self⟩
    · simp only [Sync.Stands, htodo]
      exact ⟨hx, hnone, Home.put_dir_self⟩

theorem create_inv (hf : Files dir₀ h) (hset : h.settled = none) (hw : Working dir₀ h s)
    (hstage : s.stage = .create)
    (htodo : s.todo = x :: rest) (hopens : s.Opens h) :
    Inv dir₀ (h.writing (temporary x.1) [] { s with stage := .fill }) := by
  simp only [Sync.Opens, hstage, htodo] at hopens
  have hstands := hw.stands
  simp only [Sync.Stands, hstage, htodo] at hstands
  rcases hopens with hfree | ⟨htaken, hlisted⟩
  · refine writing_inv hf hset hw htodo hstands (hf.eq_none hfree) (fun n hn => ?_) (.inl rfl)
    simp only [Sync.held, hstage] at hn
    exact List.mem_cons_of_mem _ hn
  · rw [Home.writing, htaken]
    exact hw.stop hf hset ⟨by simp [hstage], by simp [hstage], by simp [hstage]⟩ hlisted

theorem fill_inv (hf : Files dir₀ h) (hset : h.settled = none) (hw : Working dir₀ h s)
    (hstage : s.stage = .fill)
    (htodo : s.todo = x :: rest) :
    Inv dir₀ (h.writing (temporary x.1) x.2 { s with stage := .chmod }) := by
  have hstands := hw.stands
  simp only [Sync.Stands, hstage, htodo] at hstands
  refine writing_inv hf hset hw htodo hstands.1 hstands.2.1 (fun n hn => ?_) (.inr ⟨rfl, rfl⟩)
  simpa only [Sync.held, hstage, htodo] using hn

theorem chmod_inv (hf : Files dir₀ h) (hset : h.settled = none) (hw : Working dir₀ h s)
    (hstage : s.stage = .chmod)
    (htodo : s.todo = x :: rest) : Inv dir₀ (h.go { s with stage := .rename }) := by
  have hstands := hw.stands
  simp only [Sync.Stands, hstage, htodo] at hstands
  refine hf.go_inv hset (hw.step rfl (fun _ _ => rfl) (fun n hn => ?_) ?_)
  · refine (hw.present n hn).imp_right fun hheld => ?_
    simp only [Sync.held, hstage, htodo] at hheld ⊢
    exact hheld
  · simp only [Sync.Stands, htodo]
    exact hstands

theorem skip_inv (hf : Files dir₀ h) (hset : h.settled = none) (hw : Working dir₀ h s)
    (hstage : s.stage = .scan)
    (htodo : s.todo = x :: rest) (hpresent : (h.dir x.1).isSome) (howned : x.1 ∉ s.owned) :
    Inv dir₀ (h.go { s with stage := .scan, todo := rest, skipped := s.skipped ++ [x.1] }) := by
  have hheld : s.held = s.owned ++ s.installed := by simp only [Sync.held, hstage]
  have hforeign : (dir₀ x.1).isSome := by
    refine (hw.present x.1 hpresent).resolve_right fun hmem => ?_
    rw [hheld] at hmem
    exact (List.mem_append.1 hmem).elim howned (hw.head_notInstalled htodo)
  exact hf.go_inv hset (hw.next htodo (fun n hn => hheld ▸ hw.present n hn) (fun _ _ => rfl) rfl
    (.inl ⟨rfl, hforeign⟩))

theorem same_inv (hf : Files dir₀ h) (hset : h.settled = none) (hw : Working dir₀ h s)
    (hstage : s.stage = .scan)
    (htodo : s.todo = x :: rest) (hfile : h.dir x.1 = some (.file x.2)) (howned : x.1 ∈ s.owned) :
    Inv dir₀ (h.go { s with stage := .scan, todo := rest, installed := s.installed ++ [x.1] }) := by
  have hpresent (n : Name) (hn : (h.dir n).isSome) : (dir₀ n).isSome ∨
      n ∈ s.owned ++ (s.installed ++ [x.1]) := by
    refine (hw.present n hn).imp_right fun hmem => ?_
    simp only [Sync.held, hstage] at hmem
    rw [← List.append_assoc]
    exact List.mem_append_left _ hmem
  exact hf.go_inv hset (hw.next htodo hpresent (fun _ _ => rfl) rfl
    (.inr ⟨rfl, hw.owned_none hf howned, hfile⟩))

theorem rename_inv (hf : Files dir₀ h) (hset : h.settled = none) (hw : Working dir₀ h s)
    (hstage : s.stage = .rename)
    (htodo : s.todo = x :: rest) :
    Inv dir₀ (((h.put x.1 (h.dir (temporary x.1))).put (temporary x.1) none).go
      { s with stage := .scan, todo := rest, installed := s.installed ++ [x.1] }) := by
  have hstands := hw.stands
  simp only [Sync.Stands, hstage, htodo] at hstands
  obtain ⟨hx, hnone, hfile⟩ := hstands
  rw [hfile]
  have hne : x.1 ≠ temporary x.1 := ne_temporary (hw.named x (hw.head_mem htodo)) x.1
  have hdir {n : Name} (ht : n ≠ temporary x.1) (hn : n ≠ x.1) :
      ((h.put x.1 (some (.file x.2))).put (temporary x.1) none).dir n = h.dir n := by
    rw [Home.put_dir_of_ne ht, Home.put_dir_of_ne hn]
  have hhead : ((h.put x.1 (some (.file x.2))).put (temporary x.1) none).dir x.1 =
      some (.file x.2) := by
    rw [Home.put_dir_of_ne hne, Home.put_dir_self]
  have hpresent (n : Name)
    (hn : (((h.put x.1 (some (.file x.2))).put (temporary x.1) none).dir n).isSome) :
      (dir₀ n).isSome ∨ n ∈ s.owned ++ (s.installed ++ [x.1]) := by
    have ht : n ≠ temporary x.1 := by
      rintro rfl
      exact absurd hn (by simp)
    by_cases hnx : n = x.1
    · exact .inr (List.mem_append_right _
        (List.mem_append_right _ (hnx ▸ List.mem_singleton_self _)))
    · refine (hw.present n ((hdir ht hnx) ▸ hn)).imp_right fun hmem => ?_
      simp only [Sync.held, hstage, htodo] at hmem
      rw [← List.append_assoc]
      exact List.mem_append_left _ ((List.mem_cons.1 hmem).resolve_left ht)
  have hfiles : Files dir₀ ((h.put x.1 (some (.file x.2))).put (temporary x.1) none) := by
    refine (hf.put hx ?_).put hnone ?_
    · rintro _ ⟨⟩
      exact ⟨x.2, rfl⟩
    · rintro _ ⟨⟩
  refine hfiles.go_inv hset (hw.next htodo hpresent (fun n hn => ?_) rfl (.inr ⟨rfl, hx, hhead⟩))
  exact hdir (ne_temporary (hw.installed_named hn) x.1) fun hnx =>
    hw.head_notInstalled htodo (hnx ▸ hn)

theorem remove_inv {names : List Name} (hf : Files dir₀ h) (hset : h.settled = none)
    (hw : Working dir₀ h s)
    (hstage : s.stage = .remove (n :: names)) (htodo : s.todo = []) :
    Inv dir₀ ((match h.dir n with
      | some (.file _) => h.put n none
      | _ => h).go { s with stage := .remove names, removed := s.removed ++ [n] }) := by
  have hstands := hw.stands
  simp only [Sync.Stands, hstage, htodo] at hstands
  obtain ⟨hnodup, hnames⟩ := hstands
  have hnone : dir₀ n = none := hw.owned_none hf (hnames n List.mem_cons_self).1
  have hremoved : (match h.dir n with
      | some (.file _) => h.put n none
      | _ => h) = h.put n none := by
    cases hdir : h.dir n with
    | none =>
      show h = { h with dir := _ }
      rw [← hdir, Function.update_eq_self]
    | some node =>
      obtain ⟨content, rfl⟩ := hf.plain n node hnone hdir
      rfl
  rw [hremoved]
  refine Files.go_inv (hf.put hnone ?_) hset (hw.step rfl (fun m hm => ?_) (fun m hm => ?_) ?_)
  · rintro _ ⟨⟩
  · refine Home.put_dir_of_ne ?_
    rintro rfl
    exact (hnames m List.mem_cons_self).2 hm
  · have hne : m ≠ n := by
      rintro rfl
      exact absurd hm (by simp)
    refine (hw.present m ((Home.put_dir_of_ne hne) ▸ hm)).imp_right fun hmem => ?_
    simp only [Sync.held, hstage, List.cons_append] at hmem ⊢
    exact (List.mem_cons.1 hmem).resolve_left hne
  · simp only [Sync.Stands, htodo]
    exact ⟨(List.nodup_cons.1 hnodup).2, fun m hm => hnames m (List.mem_cons_of_mem n hm)⟩

theorem removed_inv (hf : Files dir₀ h) (hset : h.settled = none) (hw : Working dir₀ h s)
    (hstage : s.stage = .remove [])
    (htodo : s.todo = []) : Inv dir₀ (h.go { s with stage := .publish }) := by
  refine hf.go_inv hset (hw.step rfl (fun _ _ => rfl) (fun n hn => ?_) ?_)
  · refine (hw.present n hn).imp_right fun hheld => ?_
    simpa only [Sync.held, hstage, List.nil_append] using hheld
  · simp only [Sync.Stands, htodo]

/-- With the new manifest the run has done what it was to do. -/
theorem publish_inv (hf : Files dir₀ h) (hw : Working dir₀ h s) (hstage : s.stage = .publish)
    (htodo : s.todo = []) :
    Inv dir₀ { h with
        manifest := some ⟨s.installed.insertionSort (· ≤ ·), s.revision⟩
        sync := none
        settled := some s.wanted } := by
  have hpresent {n : Name} (hn : (h.dir n).isSome) : (dir₀ n).isSome ∨ n ∈ s.installed := by
    simpa only [Sync.held, hstage] using hw.present n hn
  have hread {n : Name} : n ∈ readManifest (some ⟨s.installed.insertionSort (· ≤ ·), s.revision⟩) ↔
      n ∈ s.installed := by
    rw [mem_readManifest]
    constructor
    · rintro ⟨⟨_, ⟨⟩, hn⟩, -⟩
      simpa using hn
    · intro hn
      exact ⟨⟨_, rfl, by simpa using hn⟩, hw.installed_named hn⟩
  refine ⟨⟨hf.kept, hf.plain, fun n hn => (hw.installed n (hread.1 hn)).1⟩, fun _ n hn =>
    (hpresent hn).imp_right hread.2,
    fun _ hs => (by cases hs), ?_⟩
  rintro _ ⟨⟩
  refine ⟨rfl, fun y hy => ?_, fun n hn => ?_⟩
  · exact (hw.done y hy (htodo ▸ List.not_mem_nil)).imp_left And.right
  · refine (hpresent hn).imp_right fun hmem => ?_
    obtain ⟨-, y, hy, -, rfl⟩ := hw.installed n hmem
    exact List.mem_map_of_mem hy

end Writes

theorem advance_inv (hf : Files dir₀ h) (hset : h.settled = none) (hw : Working dir₀ h s)
    (hopens : s.Opens h) :
    Inv dir₀ (h.advance s) := by
  obtain ⟨wanted, todo, owned, revision, stage, installed, removed, skipped⟩ := s
  have hstands := hw.stands
  rcases stage with _ | _ | _ | _ | _ | (_ | ⟨name, names⟩) | _
  · rcases todo with _ | ⟨⟨name, content⟩, rest⟩
    · exact scan_nil_inv hf hset hw rfl rfl
    · show Inv dir₀ (match h.dir name with | none => _ | some node => _)
      cases hdir : h.dir name with
      | none => exact scan_create_inv hf hset hw rfl rfl (hf.eq_none hdir)
      | some node =>
        show Inv dir₀ (ite _ _ _)
        by_cases howned : name ∈ owned
        · -- Only runs made files under the names that the manifest has, so this is a plain one.
          have hnone : dir₀ name = none := hw.owned_none hf howned
          obtain ⟨content', rfl⟩ := hf.plain name node hnone hdir
          rw [if_neg (not_not.2 howned)]
          show Inv dir₀ (ite _ _ _)
          split_ifs with hsame
          · subst hsame
            exact same_inv hf hset hw rfl rfl hdir howned
          · exact scan_create_inv hf hset hw rfl rfl hnone
        · rw [if_pos howned]
          exact skip_inv hf hset hw rfl rfl (by simp [hdir]) howned
  · rcases todo with _ | ⟨x, rest⟩
    · cases hstands
    · exact create_inv hf hset hw rfl rfl hopens
  · rcases todo with _ | ⟨x, rest⟩
    · cases hstands
    · exact fill_inv hf hset hw rfl rfl
  · rcases todo with _ | ⟨x, rest⟩
    · cases hstands
    · exact chmod_inv hf hset hw rfl rfl
  · rcases todo with _ | ⟨x, rest⟩
    · cases hstands
    · show Inv dir₀ (ite _ _ _)
      rw [if_neg]
      · exact rename_inv hf hset hw rfl rfl
      · intro hdirectory
        obtain ⟨content, hcontent⟩ := hf.plain _ _ hstands.1 hdirectory
        cases hcontent
  · rcases todo with _ | ⟨x, rest⟩
    · exact removed_inv hf hset hw rfl rfl
    · cases hstands
  · rcases todo with _ | ⟨x, rest⟩
    · exact remove_inv hf hset hw rfl rfl
    · cases hstands
  · rcases todo with _ | ⟨x, rest⟩
    · exact publish_inv hf hw rfl rfl
    · cases hstands

theorem start_inv {r : Revision} (hi : Inv dir₀ h) (hsync : h.sync = none) :
    Inv dir₀ { h with
      sync := some { wanted := r.collect.1
                     todo := r.collect.1
                     owned := readManifest h.manifest
                     revision := r.id
                     skipped := r.collect.2 }
      settled := none } where
  files := ⟨hi.files.kept, hi.files.plain, hi.files.mine⟩
  idle := fun hsync' => (by cases hsync')
  working := by
    rintro _ ⟨⟩
    refine ⟨rfl, r.collect_named, r.collect_nodup, List.suffix_refl _, fun y hy hdone =>
      absurd hy hdone,
      fun n hn => absurd hn List.not_mem_nil, fun n hn => ?_, trivial⟩
    exact (hi.idle hsync n hn).imp_right fun hmem => List.mem_append_left _ hmem
  settled := fun _ hwanted => (by cases hwanted)

theorem cut_inv {torn : Nat} (hf : Files dir₀ h) (hset : h.settled = none) (hw : Working dir₀ h s)
    (hwhole : s.Whole)
    (hlisted : s.Listed) : Inv dir₀ (h.cut s torn) := by
  have hcut : h.cut s torn = h.stop := by
    unfold Home.cut
    split
    · exact absurd ‹_› hwhole.1
    · rfl
  rw [hcut]
  exact hw.stop hf hset hwhole hlisted

theorem Inv.step (hi : Inv dir₀ h) (ho : Orderly h e) (he : step h e = some h') : Inv dir₀ h' := by
  have hset {s : Sync} (hs : h.sync = some s) : h.settled = none := by
    cases hsettled : h.settled with
    | none => rfl
    | some wanted =>
      rw [(hi.settled wanted hsettled).1] at hs
      cases hs
  rcases e with r | _ | torn
  · simp only [Team.step, Option.ite_none_right_eq_some, Option.some.injEq] at he
    obtain ⟨hsync, rfl⟩ := he
    exact start_inv hi hsync
  · obtain ⟨s, hs, rfl⟩ := Option.map_eq_some_iff.1 he
    exact advance_inv hi.files (hset hs) (hi.working s hs) (ho s hs)
  · obtain ⟨s, hs, rfl⟩ := Option.map_eq_some_iff.1 he
    exact cut_inv hi.files (hset hs) (hi.working s hs) (ho s hs).1 (ho s hs).2

theorem init_inv : Inv dir₀ (init dir₀) where
  files :=
    ⟨fun _ _ hn => hn, fun n node hn hnode => absurd (hn.symm.trans hnode) (by simp), fun n hn =>
      absurd hn List.not_mem_nil⟩
  idle := fun _ n hn => .inl hn
  working := fun _ hs => (by cases hs)
  settled := fun _ hwanted => (by cases hwanted)

/-- As long as no run is cut with a file in place that the manifest does not have, and none opens a
temporary file that is there already, nothing of the start is touched, and a run that completes
leaves what it wants and no file of an earlier one. -/
theorem converges_of_orderly (h : Machine.Reaches step Orderly (init dir₀) h') :
    Kept dir₀ h' ∧ ∀ wanted, h'.settled = some wanted → Converged dir₀ wanted h' := by
  have hi : Inv dir₀ h' := h.invariant (fun _ _ _ hi ho he => hi.step ho he) init_inv
  exact ⟨hi.files.kept, fun wanted hwanted => (hi.settled wanted hwanted).2⟩

def withNotes : Revision where
  id := Str.ofString "c0ffee"
  steering := [⟨Str.ofString "notes.md", .file [35]⟩]
  nodup := by decide

def withoutSteering : Revision where
  id := Str.ofString "decade"
  steering := []
  nodup := by decide

/-- One file is written, up to the rename. -/
def writing : List Event := [.start withNotes, .advance, .advance, .advance, .advance, .advance]

/-- The run goes on, and a run of a revision without steering follows. -/
def settling : List Event :=
  [.advance, .advance, .advance, .start withoutSteering, .advance, .advance, .advance, .advance]

theorem converges_of_orderly_notes : ∃ h, Machine.runAlong step Orderly (init fun _ => none)
    (writing ++ settling) = some h ∧
    Kept (fun _ => none) h ∧ Converged (fun _ => none) [] h := by
  have hsome : (Machine.runAlong step Orderly (init fun _ => none)
    (writing ++ settling)).isSome := by decide
  obtain ⟨hkept, hconverged⟩ := converges_of_orderly (Machine.Reaches.of_isSome hsome)
  exact ⟨_, (Option.some_get hsome).symm, hkept, hconverged [] rfl⟩

/-- A run that is cut after the rename of its first file leaves it to nobody: the next one, which
does not want it, does not remove it. -/
theorem cut_run_leaves_file : ¬ ∀ dir₀ h, Machine.Reaches step Machine.Any (init dir₀) h →
    Kept dir₀ h ∧ ∀ wanted, h.settled = some wanted → Converged dir₀ wanted h := by
  intro hclaim
  have hsome : (Machine.runAlong step Machine.Any (init fun _ => none)
      (writing ++ [.cut 0, .start withoutSteering, .advance, .advance, .advance])).isSome := by
          decide
  obtain ⟨-, hconverged⟩ := hclaim _ _ (Machine.Reaches.of_isSome hsome)
  rcases (hconverged [] rfl).gone (teamPrefix ++ Str.ofString "notes.md") rfl with h | h
  · cases h
  · cases h

end KiroCrew.Team
