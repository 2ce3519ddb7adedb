import KiroCrew.Layout

/-!
# Installing a staged tree

`RestoreEngine._install` moves every top-level entry of the workspace but `.agentcore` away and
every staged one in. `install_node`: after it the workspace outside `.agentcore` is what the stage
held. The moves are renames within one file system; a call that fails ends the run (`none`), and
what `_install` then undoes is not modelled.
-/

namespace KiroCrew

namespace Restore

def agentcore : Str := Str.ofString ".agentcore"
def stageName : Str := Str.ofString "restore-stage"
def backupName : Str := Str.ofString "restore-backup"
def persistenceJson : Str := Str.ofString "persistence.json"
def journalName : Str := Str.ofString "dirty-journal"

def restoreStage : Path := [agentcore, stageName]
def restoreBackup : Path := [agentcore, backupName]
def stateDestination : Path := [agentcore, persistenceJson]
def dirtyJournal : Path := [agentcore, journalName]

/-- The text of the state file. -/
def stateText (committed : CommitRecord) (runtimeVersion : Str) : Str :=
  Json.dumps (.obj
    [(Str.ofString "generation", .int committed.generation),
      (Str.ofString "manifestDigest", .str committed.manifestDigest.text),
      (Str.ofString "runtimeVersion", .str runtimeVersion),
      (Str.ofString "schemaVersion", .int 1)]) ++ [10]

def writeState (committed : CommitRecord) (runtimeVersion : Str) (root : Path) (fs : FileSystem) :
    Option FileSystem := do
  let fs ← fs.mkdirParents (root ++ stateDestination).dropLast
  let fs ← fs.openWrite (root ++ stateDestination)
  let fs ← fs.write (root ++ stateDestination)
    ((stateText committed runtimeVersion).map UInt8.ofNat)
  fs.chmod (root ++ stateDestination) 0o600

/-- `backup.mkdir(parents=True)` -/
def makeBackup (fs : FileSystem) : Option FileSystem := do
  let fs ← fs.mkdirParents restoreBackup.dropLast
  fs.mkdir restoreBackup

def backUpState (fs : FileSystem) : Option FileSystem :=
  if fs.exists? stateDestination then fs.rename stateDestination
    (restoreBackup ++ [persistenceJson]) else some fs

/-- The two loops: `names` are moved from one directory into another. -/
def moveEntries (source destination : Path) (fs : FileSystem) (names : List Str) :
    Option FileSystem :=
  names.foldlM (fun fs name => if name = agentcore then some fs else fs.rename (source ++ [name])
    (destination ++ [name])) fs

def install (fs : FileSystem) : Option FileSystem := do
  let fs ← makeBackup fs
  let fs ← backUpState fs
  let fs ← moveEntries [] restoreBackup fs (fs.iterdir [])
  let fs ← moveEntries restoreStage [] fs (fs.iterdir restoreStage)
  let fs ← fs.mkdirParents stateDestination.dropLast
  let fs ← fs.rename (restoreStage ++ stateDestination) stateDestination
  let fs ← fs.removeTree dirtyJournal
  fs.removeTree restoreBackup

/-- The part of an install that moves entries. -/
def swap (fs : FileSystem) : Option FileSystem := do
  let fs ← makeBackup fs
  let fs ← backUpState fs
  let fs ← moveEntries [] restoreBackup fs (fs.iterdir [])
  let fs ← moveEntries restoreStage [] fs (fs.iterdir restoreStage)
  let fs ← fs.mkdirParents stateDestination.dropLast
  fs.rename (restoreStage ++ stateDestination) stateDestination

theorem install_eq_some {fs fs' : FileSystem} : install fs = some fs' ↔ ∃ fs₁ fs₂,
    swap fs = some fs₁ ∧ fs₁.removeTree dirtyJournal = some fs₂ ∧
      fs₂.removeTree restoreBackup = some fs' := by
  have heq : install fs = (swap fs).bind fun fs =>
      (fs.removeTree dirtyJournal).bind fun fs => fs.removeTree restoreBackup := by
    simp only [install, swap, Option.bind_eq_bind, Option.bind_assoc]
  simp only [heq, Option.bind_eq_some_iff]
  exact ⟨fun ⟨fs₁, hswap, fs₂, h⟩ => ⟨fs₁, fs₂, hswap, h⟩,
    fun ⟨fs₁, fs₂, hswap, h⟩ => ⟨fs₁, hswap, fs₂, h⟩⟩

/-- The workspace and in it an empty stage and no backup. -/
def makeStage (workspace : FileSystem) : Option FileSystem := do
  let fs ← workspace.mkdirParents []
  let fs ← fs.removeTree restoreStage
  let fs ← fs.removeTree restoreBackup
  fs.mkdirParents restoreStage

/-- `_restore_generation`, of a manifest already read and decrypted. -/
def restoreGeneration (sha : Sha256) (fetch : Digest → Option Bytes)
    (sandboxId runtimeVersion : Str) (committed : CommitRecord)
    (plaintext : Str) (workspace : FileSystem) : Option FileSystem :=
  match ManifestDecoder.decode plaintext sandboxId committed.generation with
  | .error _ => none
  | .ok manifest => do
    let fs ← makeStage workspace
    let fs ← materialize sha fetch restoreStage fs manifest.entries
    let fs ← writeState committed runtimeVersion restoreStage fs
    let fs ← install fs
    fs.removeTree restoreStage

/-! ## What the moves leave alone -/

@[simp] theorem backup_ne_stage : backupName ≠ stageName := by decide
@[simp] theorem persistence_ne_stage : persistenceJson ≠ stageName := by decide
@[simp] theorem journal_ne_stage : journalName ≠ stageName := by decide

/-- The entries of the workspace and of the stage but those under `.agentcore` are the same. -/
structure Kept (fs fs' : FileSystem) : Prop where
  outside : ∀ name rest, name ≠ agentcore → fs'.node (name :: rest) = fs.node (name :: rest)
  staged : ∀ name rest, name ≠ agentcore → fs'.node (restoreStage ++ name :: rest) =
    fs.node (restoreStage ++ name :: rest)

variable {fs fs' fs'' : FileSystem} {p : Path} {x : Str} {names : List Str}

theorem Kept.trans (h : Kept fs fs') (h' : Kept fs' fs'') : Kept fs fs'' where
  outside := fun name rest hname => (h'.outside name rest hname).trans (h.outside name rest hname)
  staged := fun name rest hname => (h'.staged name rest hname).trans (h.staged name rest hname)

theorem kept_mkdirParents (h : fs.mkdirParents [agentcore] = some fs') : Kept fs fs' where
  outside := fun name rest hname => FileSystem.mkdirParents_same h (by simp [hname])
  staged := fun name rest hname => FileSystem.mkdirParents_same h (by simp [restoreStage])

theorem kept_removeTree (hx : x ≠ stageName) (h : fs.removeTree [agentcore, x] = some fs') :
    Kept fs fs' where
  outside := fun name rest hname =>
    FileSystem.removeTree_same h (by simp [List.cons_prefix_cons, hname.symm]) (by simp [hname])
  staged := fun name rest hname =>
    FileSystem.removeTree_same h (by simp [restoreStage, List.cons_prefix_cons, hx])
      (by simp [restoreStage])

theorem makeBackup_kept (h : makeBackup fs = some fs') : Kept fs fs' := by
  simp only [makeBackup, Option.bind_eq_bind, Option.bind_eq_some_iff] at h
  obtain ⟨fs₁, hparents, hmkdir⟩ := h
  obtain ⟨hfree, rfl⟩ := FileSystem.mkdir_eq_some.1 hmkdir
  refine (kept_mkdirParents hparents).trans ⟨fun name rest hname => ?_, fun name rest hname => ?_⟩
  · exact (FileSystem.creates hfree).same _ (by simp [restoreBackup, hname])
      (by simp [restoreBackup, hname])
  · exact (FileSystem.creates hfree).same _ (by simp [restoreBackup, restoreStage])
      (by simp [restoreBackup, restoreStage])

theorem backUpState_kept (h : backUpState fs = some fs') : Kept fs fs' := by
  unfold backUpState at h
  split at h
  · constructor
    · intro name rest hname
      exact FileSystem.rename_same h (by simp [stateDestination, List.cons_prefix_cons, hname.symm])
        (by simp [restoreBackup, List.cons_prefix_cons, hname.symm])
          (by simp [stateDestination, hname])
        (by simp [restoreBackup, hname])
    · intro name rest hname
      exact FileSystem.rename_same h
        (by simp [stateDestination, restoreStage, List.cons_prefix_cons])
        (by simp [restoreBackup, restoreStage, List.cons_prefix_cons])
          (by simp [stateDestination, restoreStage])
        (by simp [restoreBackup, restoreStage])
  · obtain rfl := Option.some.inj h
    exact ⟨fun _ _ _ => rfl, fun _ _ _ => rfl⟩

theorem stateRename_kept (h : fs.rename (restoreStage ++ stateDestination) stateDestination =
    some fs') : Kept fs fs' where
  outside := fun name rest hname =>
    FileSystem.rename_same h (by simp [restoreStage, List.cons_prefix_cons, hname.symm])
      (by simp [stateDestination, List.cons_prefix_cons, hname.symm])
        (by simp [restoreStage, stateDestination, hname])
      (by simp [stateDestination, hname])
  staged := fun name rest hname =>
    FileSystem.rename_same h (by simp [stateDestination, List.cons_prefix_cons, hname.symm])
      (by simp [stateDestination, restoreStage, List.cons_prefix_cons])
        (by simp [restoreStage, stateDestination, hname])
      (by simp [stateDestination, restoreStage])

/-! ## The two loops -/

theorem moveEntries_cons {source destination : Path}
    (h : moveEntries source destination fs (x :: names) = some fs') :
    ∃ fs₁, (if x = agentcore then some fs else fs.rename (source ++ [x]) (destination ++ [x])) =
      some fs₁ ∧
      moveEntries source destination fs₁ names = some fs' := by
  simpa only [moveEntries, List.foldlM_cons, Option.bind_eq_bind, Option.bind_eq_some_iff] using h

theorem moveOut_node (h : moveEntries [] restoreBackup fs names = some fs') {name : Str}
    (rest : Path) (hname : name ≠ agentcore) :
    fs'.node (name :: rest) = (if name ∈ names then none else fs.node (name :: rest)) ∧
      fs'.node (restoreStage ++ name :: rest) = fs.node (restoreStage ++ name :: rest) := by
  induction names generalizing fs with
  | nil =>
    obtain rfl := Option.some.inj h
    simp
  | cons x names ih =>
    obtain ⟨fs₁, hstep, hrest⟩ := moveEntries_cons h
    obtain ⟨hout, hstaged⟩ := ih hrest
    split at hstep
    · next hx =>
      obtain rfl := Option.some.inj hstep
      refine ⟨?_, hstaged⟩
      rw [hout]
      simp [hx, hname]
    · next hx =>
      constructor
      · have hnode : fs₁.node (name :: rest) = if x = name then none
            else fs.node (name :: rest) := by
          rw [FileSystem.rename_node hstep (by simp) (by simp [restoreBackup, hname])]
          simp [restoreBackup, List.cons_prefix_cons, hname.symm]
        rw [hout, hnode]
        by_cases heq : name = x
        · simp [heq]
        · simp [heq, Ne.symm heq]
      · rw [hstaged]
        refine FileSystem.rename_same hstep ?_ ?_ (by simp [restoreStage])
          (by simp [restoreStage, restoreBackup])
        · simp [restoreStage, List.cons_prefix_cons, hx]
        · simp [restoreStage, restoreBackup, List.cons_prefix_cons]

theorem moveIn_node (h : moveEntries restoreStage [] fs names = some fs') (hnodup : names.Nodup)
    {name : Str} (rest : Path)
    (hname : name ≠ agentcore) :
    fs'.node (name :: rest) = if name ∈ names then fs.node (restoreStage ++ name :: rest)
        else fs.node (name :: rest) := by
  induction names generalizing fs with
  | nil =>
    obtain rfl := Option.some.inj h
    simp
  | cons x names ih =>
    obtain ⟨fs₁, hstep, hrest⟩ := moveEntries_cons h
    obtain ⟨hfresh, hnodup⟩ := List.nodup_cons.1 hnodup
    rw [ih hrest hnodup]
    split at hstep
    · next hx =>
      obtain rfl := Option.some.inj hstep
      simp [hx, hname]
    · next hx =>
      by_cases heq : name = x
      · subst heq
        have hmoved := FileSystem.rename_moved (r := rest) hstep (by simp [restoreStage, hname])
        simpa [hfresh] using hmoved
      · rw [FileSystem.rename_same hstep, FileSystem.rename_same hstep]
        · simp [heq]
        all_goals simp [restoreStage, List.cons_prefix_cons, hname, hname.symm, Ne.symm heq, hx]

/-! ## The swap -/

/-- Below `d`, nothing lies under a name that is not there. -/
def Rooted (fs : FileSystem) (d : Path) : Prop :=
  ∀ name rest, name ≠ agentcore → fs.node (d ++ name :: rest) ≠ none → fs.node (d ++ [name]) ≠ none

theorem swap_node (h : swap fs = some fs') (hroot : Rooted fs []) (hstage : Rooted fs restoreStage)
    {name : Str} (rest : Path) (hname : name ≠ agentcore) :
    fs'.node (name :: rest) = fs.node (restoreStage ++ name :: rest) := by
  simp only [swap, Option.bind_eq_bind, Option.bind_eq_some_iff] at h
  obtain ⟨fs₁, hbackup, fs₂, hstate, fs₃, hout, fs₄, hin, fs₅, hparent, hrename⟩ := h
  have hbefore : Kept fs fs₂ := (makeBackup_kept hbackup).trans (backUpState_kept hstate)
  have hafter : Kept fs₄ fs' := (kept_mkdirParents hparent).trans (stateRename_kept hrename)
  obtain ⟨hgone, hstaged⟩ := moveOut_node hout rest hname
  obtain ⟨-, htop⟩ := moveOut_node hout [] hname
  -- the old entry is gone, whether it was listed or was not there
  have hempty : fs₃.node (name :: rest) = none := by
    rw [hgone]
    split
    · rfl
    · next hlisted =>
      rw [FileSystem.mem_iterdir, not_not, List.nil_append, hbefore.outside name
        [] hname] at hlisted
      rw [hbefore.outside name rest hname]
      by_contra hnode
      exact hroot name rest hname hnode hlisted
  rw [hafter.outside name rest hname, moveIn_node hin FileSystem.nodup_iterdir rest hname]
  split
  · rw [hstaged, hbefore.staged name rest hname]
  · next hlisted =>
    rw [FileSystem.mem_iterdir, not_not, htop, hbefore.staged name [] hname] at hlisted
    rw [hempty]
    by_contra hnode
    exact hstage name rest hname (Ne.symm hnode) hlisted

theorem install_node (h : install fs = some fs') (hroot : Rooted fs [])
    (hstage : Rooted fs restoreStage) {name : Str} (rest : Path) (hname : name ≠ agentcore) :
    fs'.node (name :: rest) = fs.node (restoreStage ++ name :: rest) := by
  obtain ⟨fs₁, fs₂, hswap, hjournal, hremove⟩ := install_eq_some.1 h
  have hafter : Kept fs₁ fs' :=
    (kept_removeTree journal_ne_stage hjournal).trans (kept_removeTree backup_ne_stage hremove)
  rw [hafter.outside name rest hname, swap_node hswap hroot hstage rest hname]

/-! ## Without failures -/

/-- The rule for the loops: what every move keeps holds at the end. -/
theorem moveEntries_rule {source destination : Path} {I : FileSystem → Prop}
    (hI : ∀ fs fs' x, x ∈ names → x ≠ agentcore → fs.rename (source ++ [x]) (destination ++ [x]) =
    some fs' → I fs → I fs')
    (h : moveEntries source destination fs names = some fs') (hfs : I fs) : I fs' := by
  induction names generalizing fs with
  | nil =>
    obtain rfl := Option.some.inj h
    exact hfs
  | cons x names ih =>
    obtain ⟨fs₁, hstep, hrest⟩ := moveEntries_cons h
    refine ih (fun fs fs' y hy => hI fs fs' y (List.mem_cons_of_mem _ hy)) hrest ?_
    split at hstep
    · obtain rfl := Option.some.inj hstep
      exact hfs
    · next hx => exact hI _ _ x List.mem_cons_self hx hstep hfs

/-- Neither of two directories lies in an entry of the other that is moved. -/
structure Apart (source destination : Path) : Prop where
  out : ∀ x y, x ≠ agentcore → ¬ source ++ [x] <+: destination ++ [y]
  back : ∀ x y, x ≠ agentcore → ¬ destination ++ [x] <+: source ++ [y]
  source_ne : ∀ y, source ++ [y] ≠ destination
  destination_ne : ∀ y, destination ++ [y] ≠ source

theorem apart_out : Apart [] restoreBackup where
  out := fun x y hx => by simp [restoreBackup, List.cons_prefix_cons, hx]
  back := fun x y hx => by simp [restoreBackup, List.cons_prefix_cons]
  source_ne := fun y => by simp [restoreBackup]
  destination_ne := fun y => by simp

theorem apart_in : Apart restoreStage [] where
  out := fun x y hx => by simp [restoreStage, List.cons_prefix_cons]
  back := fun x y hx => by simp [restoreStage, List.cons_prefix_cons, hx]
  source_ne := fun y => by simp
  destination_ne := fun y => by simp [restoreStage]

theorem moveEntries_isSome {source destination : Path} (names : List Str)
    (hapart : Apart source destination)
    (hdestination : fs.isDirectory destination = true) (hnodup : names.Nodup)
    (hnames : ∀ x ∈ names, x ≠ agentcore → fs.node (source ++ [x]) ≠ none ∧
      fs.Vacant (source ++ [x]) (destination ++ [x])) :
    ∃ fs', moveEntries source destination fs names = some fs' := by
  induction names generalizing fs with
  | nil => exact ⟨fs, rfl⟩
  | cons x names ih =>
    obtain ⟨hfresh, hnodup⟩ := List.nodup_cons.1 hnodup
    have hrest : ∀ y ∈ names, y ≠ agentcore → fs.node (source ++ [y]) ≠ none ∧
        fs.Vacant (source ++ [y]) (destination ++ [y]) :=
      fun y hy => hnames y (List.mem_cons_of_mem _ hy)
    by_cases hx : x = agentcore
    · obtain ⟨fs', hrun⟩ := ih hdestination hnodup hrest
      exact ⟨fs', by simpa [moveEntries, hx] using hrun⟩
    · obtain ⟨hnode, hvacant⟩ := hnames x List.mem_cons_self hx
      obtain ⟨fs₁, hrename⟩ := hvacant.rename_isSome (by simp) (by simp) hnode
        (by simpa using hdestination) (hapart.out x x hx)
      have hdestination₁ : fs₁.isDirectory destination = true := by
        rw [FileSystem.rename_isDirectory hrename (fun hle => ?_) fun hle => ?_, hdestination]
        · exact hapart.out x x hx (hle.trans (List.prefix_append _ _))
        · exact absurd hle (FileSystem.append_not_prefix_self (by simp))
      obtain ⟨fs', hrun⟩ := ih hdestination₁ hnodup fun y hy hyne => by
        have hxy : x ≠ y := fun heq => hfresh (heq ▸ hy)
        have hsource : fs₁.node (source ++ [y]) = fs.node (source ++ [y]) :=
          FileSystem.rename_same hrename (by simp [List.cons_prefix_cons, hxy])
            (hapart.back x y hx) (by simp)
            (by simpa using hapart.source_ne y)
        have hdest : fs₁.node (destination ++ [y]) = fs.node (destination ++ [y]) :=
          FileSystem.rename_same hrename (hapart.out x y hx) (by simp [List.cons_prefix_cons, hxy])
            (by simpa using hapart.destination_ne y) (by simp)
        obtain ⟨hnode, hvacant⟩ := hrest y hy hyne
        refine ⟨hsource ▸ hnode, ?_⟩
        rw [FileSystem.Vacant, hdest, FileSystem.isDirectory_congr hsource,
          FileSystem.isDirectory_congr hdest]
        exact hvacant
      refine ⟨fs', ?_⟩
      simpa [moveEntries, hx, hrename] using hrun

/-- The directories of an install, the state file to install, and no directory in its place. -/
structure Installable (fs : FileSystem) : Prop where
  root : fs.isDirectory [] = true
  agent : fs.isDirectory [agentcore] = true
  state : ∃ mode mtimeNs data, fs.node (restoreStage ++ stateDestination) =
    some (.file mode mtimeNs data)
  destination : fs.isDirectory stateDestination = false
  noSpecial : fs.NoSpecial

theorem Installable.rename {source destination : Path} (h : Installable fs)
    (hrun : fs.rename source destination = some fs')
    (hsource : ∀ q ∈ [[agentcore], stateDestination, restoreStage ++ stateDestination],
    ¬ source <+: q)
    (hdestination : ∀ q ∈ [[agentcore], stateDestination, restoreStage ++ stateDestination],
      ¬ destination <+: q)
    (hparents : ∀ q ∈ [source.dropLast, destination.dropLast], restoreStage ++ stateDestination ≠
        q) : Installable fs' := by
  have hbelow : ∀ q ∈ [[agentcore], stateDestination], fs'.isDirectory q = fs.isDirectory q := by
    simp only [List.mem_cons, List.not_mem_nil, or_false, forall_eq_or_imp, forall_eq]
      at hsource hdestination ⊢
    exact ⟨FileSystem.rename_isDirectory hrun hsource.1 hdestination.1,
      FileSystem.rename_isDirectory hrun hsource.2.1 hdestination.2.1⟩
  have hne := (FileSystem.rename_eq_some.1 hrun).1
  refine ⟨?_, ?_, ?_, ?_, h.noSpecial.rename hrun⟩
  · rw [FileSystem.rename_isDirectory hrun (by simpa using hne.1) (by simpa using hne.2.1), h.root]
  · rw [hbelow _ (by simp), h.agent]
  · rw [FileSystem.rename_same hrun (hsource _ (by simp)) (hdestination _ (by simp))
      (hparents _ (by simp)) (hparents _ (by simp))]
    exact h.state
  · rw [hbelow _ (by simp), h.destination]

theorem Installable.moveEntries {source destination : Path} (h : Installable fs)
    (hrun : moveEntries source destination fs names = some fs')
    (hsource : ∀ x, x ≠ agentcore →
    ∀ q ∈ [[agentcore], stateDestination, restoreStage ++ stateDestination], ¬ source ++ [x] <+: q)
    (hdestination : ∀ x, x ≠ agentcore →
      ∀ q ∈ [[agentcore], stateDestination, restoreStage ++ stateDestination],
      ¬ destination ++ [x] <+: q)
    (hparents : ∀ q ∈ [source, destination], restoreStage ++ stateDestination ≠ q) :
        Installable fs' := by
  refine moveEntries_rule (I := Installable) (fun fs fs' x _ hx hrename hfs => ?_) hrun h
  exact hfs.rename hrename (hsource x hx) (hdestination x hx) (by simpa using hparents)

theorem writeState_isSome (committed : CommitRecord) (runtimeVersion : Str)
    (hbase : fs.isDirectory restoreStage = true)
    (hnone : ∀ r, fs.node (restoreStage ++ agentcore :: r) = none) :
    ∃ fs', writeState committed runtimeVersion restoreStage fs = some fs' ∧
      (∃ mtimeNs, fs'.node (restoreStage ++ stateDestination) =
        some (.file 0o600 mtimeNs ((stateText committed runtimeVersion).map UInt8.ofNat))) ∧
      (∀ q, fs.isDirectory q = true → fs'.isDirectory q = true) ∧
          (fs.NoSpecial → fs'.NoSpecial) := by
  have hway : ∀ r, r <+: [agentcore] → r = [] ∨ r = [agentcore] := by
    intro r hr
    rw [List.prefix_cons_iff] at hr
    simpa using hr
  obtain ⟨fs₁, hparents, hmade⟩ := FileSystem.mkdirParents_made (r := [agentcore]) hbase
    (fun r hr => by
      rcases hway r hr with rfl | rfl
      · exact Or.inr (by simpa using hbase)
      · exact Or.inl (hnone []))
    (fun r₁ r₂ h₁ h₂ hdir => by
      rcases hway r₂ h₂ with rfl | rfl
      · rwa [List.prefix_nil.1 h₁]
      · exact absurd (hnone []) (FileSystem.node_ne_none_of_isDirectory hdir))
  have hnone₁ : fs₁.node (restoreStage ++ stateDestination) = none := by
    rw [hmade.same _ fun r hr heq => ?_]
    · exact hnone [persistenceJson]
    · obtain rfl := List.append_cancel_left heq
      simpa [stateDestination] using hr.length_le
  have hfree : fs₁.free (restoreStage ++ stateDestination) = true :=
    FileSystem.free_iff.2 ⟨by simp [restoreStage], hmade.dirs [agentcore] List.prefix_rfl, hnone₁⟩
  obtain ⟨fs₂, hfs₂⟩ : ∃ fs₂, fs₂ = fs₁.create (restoreStage ++ stateDestination)
    (.file fs₁.fileMode fs₁.now []) := ⟨_, rfl⟩
  have hcreates : FileSystem.Creates fs₁ fs₂ _ _ := hfs₂ ▸ FileSystem.creates hfree
  have hopen : fs₁.openWrite (restoreStage ++ stateDestination) = some fs₂ := by
    simp [FileSystem.openWrite, hnone₁, hfree, hfs₂]
  have hfile : ∀ {mode mtimeNs data}, Node.file mode mtimeNs data ≠ .special := by
    rintro _ _ _ ⟨⟩
  have hspecial₂ : fs.NoSpecial → fs₂.NoSpecial := fun hspecial =>
    hfs₂ ▸ (hspecial.mkdirParents hparents).touch.put hfile
  let data := (stateText committed runtimeVersion).map UInt8.ofNat
  have hwrite : fs₂.write (restoreStage ++ stateDestination) data =
      some (fs₂.put (restoreStage ++ stateDestination) (.file fs₁.fileMode fs₂.now data)) := by
    simp [FileSystem.write, hcreates.node]
  have hchmod : (fs₂.put (restoreStage ++ stateDestination) (.file fs₁.fileMode fs₂.now data)).chmod
    (restoreStage ++ stateDestination)
      0o600 = some ((fs₂.put (restoreStage ++ stateDestination)
        (.file fs₁.fileMode fs₂.now data)).put
        (restoreStage ++ stateDestination) (.file 0o600 fs₂.now data)) := by
    simp [FileSystem.chmod]
  have hway' : (restoreStage ++ stateDestination).dropLast = restoreStage ++ [agentcore] := rfl
  refine ⟨(fs₂.put (restoreStage ++ stateDestination) (.file fs₁.fileMode fs₂.now data)).put
    (restoreStage ++ stateDestination)
    (.file 0o600 fs₂.now data), ?_, ⟨fs₂.now, by simp [data]⟩, fun q hq =>
      ?_, fun hspecial => ?_⟩
  · simp only [writeState, hway', hparents, hopen, Option.bind_eq_bind, Option.bind_some]
    exact Option.bind_eq_some_iff.2 ⟨_, hwrite, hchmod⟩
  · have hq₁ : fs₁.isDirectory q = true := by
      by_cases hr : ∃ r, r <+: [agentcore] ∧ q = restoreStage ++ r
      · obtain ⟨r, hr, rfl⟩ := hr
        exact hmade.dirs r hr
      · rw [FileSystem.isDirectory_congr (hmade.same q fun r hr' heq => hr ⟨r, hr', heq⟩), hq]
    have hne : q ≠ restoreStage ++ stateDestination := by
      rintro rfl
      exact FileSystem.node_ne_none_of_isDirectory hq₁ hnone₁
    rw [← hq₁, ← hcreates.isDirectory (hmade.dirs [agentcore] List.prefix_rfl) hne]
    exact FileSystem.isDirectory_congr (by simp [hne])
  · exact ((hspecial₂ hspecial).put hfile).put hfile

/-- The entries that may be moved away: none replaces a directory in the backup, or is one that
replaces a file. -/
def Movable (fs : FileSystem) : Prop :=
  fs.isDirectory restoreBackup = true ∧ ∀ x, x ≠ agentcore → fs.Vacant [x] (restoreBackup ++ [x])

theorem makeBackup_isSome (h : Installable fs)
    (hbackup : ∀ r, fs.node (restoreBackup ++ r) = none) :
    ∃ fs', makeBackup fs = some fs' ∧ Installable fs' ∧ fs'.isDirectory restoreBackup = true ∧
      (∀ x, fs'.node (restoreBackup ++ [x]) = none) ∧ fs'.node stateDestination =
      fs.node stateDestination ∧
      ∀ x, x ≠ agentcore → fs'.node [x] = fs.node [x] := by
  have hfree : fs.free restoreBackup = true :=
    FileSystem.free_iff.2 ⟨by simp [restoreBackup], h.agent, by simpa using hbackup []⟩
  have hcreates := FileSystem.creates (n := .directory fs.dirMode fs.now) hfree
  have hparents : fs.mkdirParents restoreBackup.dropLast = some fs :=
    FileSystem.mkdirParents_of_isDirectory h.agent
  refine ⟨_, Option.bind_eq_some_iff.2 ⟨fs, hparents, FileSystem.mkdir_eq_some.2 ⟨hfree, rfl⟩⟩,
    ⟨?_, ?_, ?_, ?_, ?_⟩, ?_,
    fun x => ?_, ?_, fun x hx => ?_⟩
  · rw [hcreates.isDirectory h.agent (by simp [restoreBackup]), h.root]
  · rw [hcreates.isDirectory h.agent (by simp [restoreBackup]), h.agent]
  · rw [hcreates.same _ (by decide) (by decide)]
    exact h.state
  · rw [hcreates.isDirectory h.agent (by decide), h.destination]
  · exact h.noSpecial.touch.put (n := .directory _ _) nofun
  · exact FileSystem.isDirectory_iff.2 ⟨_, _, hcreates.node⟩
  · rw [hcreates.same _ (by simp) (by simp [restoreBackup])]
    exact hbackup [x]
  · exact hcreates.same _ (by decide) (by decide)
  · exact hcreates.same _ (by simp [restoreBackup]) (by simpa [restoreBackup] using hx)

theorem backUpState_isSome (h : Installable fs) (hbackup : fs.isDirectory restoreBackup = true)
    (hempty : ∀ x, fs.node (restoreBackup ++ [x]) = none)
    (hcollision : fs.node stateDestination ≠ none → fs.isDirectory [persistenceJson] = false) :
    ∃ fs', backUpState fs = some fs' ∧ Installable fs' ∧ Movable fs' := by
  by_cases hexists : fs.exists? stateDestination = true
  · have hnode : fs.node stateDestination ≠ none := by
      intro hnone
      simp [FileSystem.exists?, hnone] at hexists
    have hvacant : fs.Vacant stateDestination (restoreBackup ++ [persistenceJson]) :=
      Or.inl (hempty _)
    obtain ⟨fs', hrun⟩ := hvacant.rename_isSome (by decide) (by decide) hnode hbackup (by decide)
    have hinstallable : Installable fs' := by
      refine ⟨?_, ?_, ?_, ?_, h.noSpecial.rename hrun⟩
      · rw [FileSystem.rename_isDirectory hrun (by decide) (by decide), h.root]
      · rw [FileSystem.rename_isDirectory hrun (by decide) (by decide), h.agent]
      · rw [FileSystem.rename_same hrun (by decide) (by decide) (by decide) (by decide)]
        exact h.state
      · have hgone : fs'.node stateDestination = none := by
          rw [FileSystem.rename_node hrun (by decide) (by decide), if_neg (by decide),
            if_pos List.prefix_rfl]
        simp [FileSystem.isDirectory, hgone]
    refine ⟨fs', by rw [backUpState, if_pos hexists, hrun], hinstallable, ?_, fun x hx => ?_⟩
    · rw [FileSystem.rename_isDirectory hrun (by decide) (by decide), hbackup]
    · by_cases hpersistence : x = persistenceJson
      · subst hpersistence
        refine Or.inr ⟨?_, ?_⟩
        · have hmoved := FileSystem.rename_moved (r := []) hrun (by decide)
          rw [List.append_nil, List.append_nil] at hmoved
          rw [FileSystem.isDirectory, hmoved]
          exact h.destination
        · rw [FileSystem.rename_isDirectory hrun (by decide) (by decide), hcollision hnode]
      · refine Or.inl ?_
        rw [FileSystem.rename_same hrun, hempty x]
        · simp [stateDestination, restoreBackup, List.cons_prefix_cons, show persistenceJson ≠
            backupName by decide]
        · simp [List.cons_prefix_cons, Ne.symm hpersistence]
        · simp [stateDestination, restoreBackup]
        · simp
  · refine ⟨fs, by rw [backUpState, if_neg hexists], h, hbackup, fun x _ => Or.inl (hempty x)⟩

theorem swap_isSome (h : Installable fs) (hbackup : ∀ r, fs.node (restoreBackup ++ r) = none)
    (hcollision : fs.node stateDestination ≠ none → fs.isDirectory [persistenceJson] = false) :
    ∃ fs', swap fs = some fs' ∧ fs'.NoSpecial := by
  obtain ⟨fs₁, hmake, h₁, hdir₁, hempty₁, hstate₁, hsame₁⟩ := makeBackup_isSome h hbackup
  obtain ⟨fs₂, hback, h₂, hmovable⟩ := backUpState_isSome h₁ hdir₁ hempty₁ (by
    rwa [hstate₁, FileSystem.isDirectory_congr (hsame₁ _ (by decide))])
  obtain ⟨fs₃, hout⟩ :=
    moveEntries_isSome (fs₂.iterdir []) apart_out hmovable.1 FileSystem.nodup_iterdir
    fun x hx hname => ⟨FileSystem.mem_iterdir.1 hx, hmovable.2 x hname⟩
  have h₃ : Installable fs₃ := by
    refine h₂.moveEntries hout (fun x hx => ?_) (fun x hx => ?_) (by decide)
    · simp [stateDestination, restoreStage, List.cons_prefix_cons, hx]
    · simp [stateDestination, restoreStage, restoreBackup, List.cons_prefix_cons, show backupName ≠
        persistenceJson by decide]
  have hempty₃ : ∀ x, x ≠ agentcore → fs₃.node [x] = none := by
    intro x hx
    rw [(moveOut_node hout [] hx).1]
    split
    · rfl
    · next hlisted => simpa using mt FileSystem.mem_iterdir.2 hlisted
  obtain ⟨fs₄, hin⟩ :=
    moveEntries_isSome (fs₃.iterdir restoreStage) apart_in h₃.root FileSystem.nodup_iterdir
    fun x hx hname => ⟨FileSystem.mem_iterdir.1 hx, Or.inl (hempty₃ x hname)⟩
  have h₄ : Installable fs₄ := by
    refine h₃.moveEntries hin (fun x hx => ?_) (fun x hx => ?_) (by decide)
    · simp [stateDestination, restoreStage, List.cons_prefix_cons, hx, show stageName ≠
        persistenceJson by decide]
    · simp [stateDestination, restoreStage, List.cons_prefix_cons, hx]
  obtain ⟨mode, mtimeNs, data, hfile⟩ := h₄.state
  have hvacant : fs₄.Vacant (restoreStage ++ stateDestination) stateDestination :=
    Or.inr ⟨h₄.destination, by simp [FileSystem.isDirectory, hfile, Node.isDirectory]⟩
  obtain ⟨fs₆, hrename⟩ :=
    hvacant.rename_isSome (by decide) (by decide) (by simp [hfile]) h₄.agent (by decide)
  refine ⟨fs₆, ?_, h₄.noSpecial.rename hrename⟩
  have hparents : fs₄.mkdirParents stateDestination.dropLast = some fs₄ :=
    FileSystem.mkdirParents_of_isDirectory h₄.agent
  simp only [swap, hmake, hback, hout, hin, hparents, Option.bind_eq_bind, Option.bind_some]
  exact hrename

theorem install_isSome (h : Installable fs) (hbackup : ∀ r, fs.node (restoreBackup ++ r) = none)
    (hcollision : fs.node stateDestination ≠ none → fs.isDirectory [persistenceJson] = false) :
    ∃ fs', install fs = some fs' ∧ fs'.NoSpecial := by
  obtain ⟨fs₁, hswap, h₁⟩ := swap_isSome h hbackup hcollision
  obtain ⟨fs₂, hjournal⟩ := h₁.removeTree_isSome (p := dirtyJournal)
  have h₂ := h₁.removeTree hjournal
  obtain ⟨fs₃, hremove⟩ := h₂.removeTree_isSome (p := restoreBackup)
  exact ⟨fs₃, install_eq_some.2 ⟨fs₁, fs₂, hswap, hjournal, hremove⟩, h₂.removeTree hremove⟩

/-! ## What the moves do in `.agentcore` -/

theorem swap_closed (h : swap fs = some fs') (hclosed : fs.Closed) : fs'.Closed := by
  simp only [swap, Option.bind_eq_bind, Option.bind_eq_some_iff] at h
  obtain ⟨fs₁, hbackup, fs₂, hstate, fs₃, hout, fs₄, hin, fs₅, hparent, hrename⟩ := h
  have hmoves : ∀ {source destination names} {fs fs' : FileSystem},
      moveEntries source destination fs names = some fs' → fs.Closed → fs'.Closed :=
    fun hrun hfs => moveEntries_rule (fun _ _ _ _ _ hmove h => h.rename hmove) hrun hfs
  have h₁ : fs₁.Closed := by
    simp only [makeBackup, Option.bind_eq_bind, Option.bind_eq_some_iff] at hbackup
    obtain ⟨fs₀, hparents, hmkdir⟩ := hbackup
    obtain ⟨hfree, rfl⟩ := FileSystem.mkdir_eq_some.1 hmkdir
    exact (hclosed.mkdirParents hparents).create hfree
  have h₂ : fs₂.Closed := by
    unfold backUpState at hstate
    split at hstate
    · exact h₁.rename hstate
    · obtain rfl := Option.some.inj hstate
      exact h₁
  exact ((hmoves hin (hmoves hout h₂)).mkdirParents hparent).rename hrename

/-- The moves come upon nothing at or below `q`. -/
structure Untouched (q : Path) : Prop where
  agent : [agentcore] <+: q
  above : q ≠ [agentcore]
  backup : ¬ restoreBackup <+: q
  state : ¬ stateDestination <+: q
  stage : q ≠ restoreStage
  staged : ∀ x, x ≠ agentcore → ¬ restoreStage ++ [x] <+: q
  parent : q ≠ (restoreStage ++ stateDestination).dropLast

/-- Up to the last rename. -/
theorem swap_untouched {q : Path} (hq : Untouched q) (h : swap fs = some fs') :
    ∃ fs₅ : FileSystem, fs₅.node q = fs.node q ∧
      fs₅.rename (restoreStage ++ stateDestination) stateDestination = some fs' := by
  simp only [swap, Option.bind_eq_bind, Option.bind_eq_some_iff] at h
  obtain ⟨fs₁, hbackup, fs₂, hstate, fs₃, hout, fs₄, hin, fs₅, hparent, hrename⟩ := h
  have hnil : q ≠ [] := by
    rintro rfl
    simpa using hq.agent.length_le
  have hroot : ∀ x, x ≠ agentcore → ¬ [x] <+: q := by
    intro x hx hle
    obtain ⟨r, rfl⟩ := hq.agent
    simp [List.cons_prefix_cons, hx] at hle
  have hagent : ¬ q <+: [agentcore] := by
    intro hle
    exact hq.above (hle.eq_of_length_le hq.agent.length_le)
  have h₁ : fs₁.node q = fs.node q := by
    simp only [makeBackup, Option.bind_eq_bind, Option.bind_eq_some_iff] at hbackup
    obtain ⟨fs₀, hparents, hmkdir⟩ := hbackup
    obtain ⟨hfree, rfl⟩ := FileSystem.mkdir_eq_some.1 hmkdir
    rw [(FileSystem.creates hfree).same q (fun heq => hq.backup (heq ▸ List.prefix_rfl))
      (by simpa [restoreBackup] using hq.above)]
    exact FileSystem.mkdirParents_same hparents hagent
  have h₂ : fs₂.node q = fs₁.node q := by
    unfold backUpState at hstate
    split at hstate
    · exact FileSystem.rename_same hstate hq.state
        (fun hle => hq.backup ((List.prefix_append _ _).trans hle))
        (by simpa [stateDestination] using hq.above)
        (fun heq => hq.backup (by simp [heq]))
    · obtain rfl := Option.some.inj hstate
      rfl
  have h₃ : fs₃.node q = fs₂.node q := by
    refine moveEntries_rule (I := fun fs => fs.node q = fs₂.node q)
      (fun fs fs' x _ hx hmove hfs => ?_) hout rfl
    rw [← hfs]
    exact FileSystem.rename_same hmove (hroot x hx)
      (fun hle => hq.backup ((List.prefix_append _ _).trans hle)) (by simpa using hnil)
      (fun heq => hq.backup (by simp [heq]))
  have h₄ : fs₄.node q = fs₃.node q := by
    refine moveEntries_rule (I := fun fs => fs.node q = fs₃.node q)
      (fun fs fs' x _ hx hmove hfs => ?_) hin rfl
    rw [← hfs]
    exact FileSystem.rename_same hmove (hq.staged x hx) (hroot x hx)
      (by simpa using hq.stage) (by simpa using hnil)
  refine ⟨fs₅, ?_, hrename⟩
  rw [FileSystem.mkdirParents_same hparent hagent, h₄, h₃, h₂, h₁]

/-- The new state file is the staged one. -/
theorem swap_state (h : swap fs = some fs') :
    fs'.node stateDestination = fs.node (restoreStage ++ stateDestination) := by
  have hstaged : Untouched (restoreStage ++ stateDestination) :=
    ⟨by decide, by decide, by decide, by decide, by decide,
      fun x hx => by simp [restoreStage, stateDestination, List.cons_prefix_cons, hx], by decide⟩
  obtain ⟨fs₅, hnode, hrename⟩ := swap_untouched hstaged h
  have hmoved := FileSystem.rename_moved (r := []) hrename (by decide)
  rw [List.append_nil, List.append_nil] at hmoved
  rw [hmoved, hnode]

/-- What else lies in `.agentcore` stays. -/
theorem swap_private {name : Str} (rest : Path)
    (hname : name ∉ [stageName, backupName, persistenceJson]) (h : swap fs = some fs') :
    fs'.node (agentcore :: name :: rest) = fs.node (agentcore :: name :: rest) := by
  simp only [List.mem_cons, List.not_mem_nil, or_false, not_or] at hname
  obtain ⟨hstage, hbackup, hstate⟩ := hname
  have huntouched : Untouched (agentcore :: name :: rest) := by
    refine ⟨by simp [List.cons_prefix_cons], by simp, ?_, ?_, ?_, fun x _ => ?_, ?_⟩
    · simp [restoreBackup, List.cons_prefix_cons, Ne.symm hbackup]
    · simp [stateDestination, List.cons_prefix_cons, Ne.symm hstate]
    · simp [restoreStage, hstage]
    · simp [restoreStage, List.cons_prefix_cons, Ne.symm hstage]
    · simp [restoreStage, stateDestination, hstage]
  obtain ⟨fs₅, hnode, hrename⟩ := swap_untouched huntouched h
  rw [FileSystem.rename_same hrename, hnode]
  · simp [restoreStage, List.cons_prefix_cons, Ne.symm hstage]
  · exact huntouched.state
  · exact huntouched.parent
  · simp [stateDestination]

end Restore

end KiroCrew
