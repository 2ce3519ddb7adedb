import KiroCrew.Undo
import KiroCrew.WriteOut

/-!
# One attempt on one file system

`_restore_generation` from a workspace in order (`Orderly`), for a manifest that can be read: if its
entries can be written out (`Fits`) the attempt returns and has installed them (`attempt_valid`),
and if not it raises and leaves the workspace in order (`attempt_invalid`), something the loop of
`restore` does not expect exactly when Python refuses something before a damage shows.
-/

namespace KiroCrew

namespace RestoreEngine

open Restore (agentcore stageName backupName persistenceJson journalName restoreStage restoreBackup
  stateDestination dirtyJournal Materialized)

/-- The report can be written: `.agentcore` is a directory if it is there, and the reports are
files. -/
structure Reportable (fs : FileSystem) : Prop where
  closed : fs.Closed
  root : fs.node [] = none ∨ fs.isDirectory [] = true
  agent : fs.node [agentcore] = none ∨ fs.isDirectory [agentcore] = true
  temporary : fs.node reportTemporary = none ∨
    ∃ mode mtimeNs data, fs.node reportTemporary = some (.file mode mtimeNs data)
  report : fs.isDirectory reportPath = false

/-- A workspace in order: no special files, the state file is a file if it is there, and no
directory `persistence.json` lies beside it. -/
structure Orderly (fs : FileSystem) : Prop extends Reportable fs where
  noSpecial : fs.NoSpecial
  state : fs.node stateDestination = none ∨
    ∃ mode mtimeNs data, fs.node stateDestination = some (.file mode mtimeNs data)
  collision : fs.node stateDestination ≠ none → fs.isDirectory [persistenceJson] = false

/-- Outside of `.agentcore` all is as it was. -/
def Unmoved (fs fs' : FileSystem) : Prop :=
  ∀ name rest, name ≠ agentcore → fs'.node (name :: rest) = fs.node (name :: rest)

/-- The workspace holds what the entries describe, the directories above that, and nothing else
outside of `.agentcore`; the state file names the generation. -/
structure Installed {W : Type} (engine : RestoreEngine W) (committed : CommittedGeneration)
    (entries : List ManifestEntry) (fs : FileSystem) : Prop where
  placed : ∀ e ∈ entries, fs.node e.parts = engine.nodeOf e
  above : ∀ e ∈ entries, ∀ r, r <+: e.parts → r ≠ e.parts → fs.isDirectory r = true
  only : ∀ name rest, name ≠ agentcore → fs.node (name :: rest) ≠ none →
    ∃ e ∈ entries, name :: rest <+: e.parts
  state : ∃ mode mtimeNs, fs.node stateDestination =
    some (.file mode mtimeNs (engine.stateText committed))

/-- A workspace with an empty stage. -/
structure Prepared (fs₀ fs : FileSystem) : Prop where
  closed : fs.Closed
  noSpecial : fs.NoSpecial
  stage : fs.isDirectory restoreStage = true
  empty : ∀ r, r ≠ [] → fs.node (restoreStage ++ r) = none
  backup : ∀ r, fs.node (restoreBackup ++ r) = none
  same : ∀ q, ¬ q <+: restoreStage → ¬ restoreStage <+: q → ¬ restoreBackup <+: q →
    fs.node q = fs₀.node q

variable {engine : RestoreEngine FileSystem} {committed : CommittedGeneration} {root p q : Path}
  {entries : List ManifestEntry} {fs fs' fs₀ : FileSystem} {names : List Str}

open Act FileSystem

/-- Above a node of a closed file system there are directories. -/
theorem agent_of_stage (hclosed : fs.Closed) (hstage : fs.isDirectory restoreStage = true) :
    fs.isDirectory [agentcore] = true :=
  hclosed [agentcore] stageName (node_ne_none_of_isDirectory hstage)

theorem root_of_agent (hclosed : fs.Closed) (hagent : fs.isDirectory [agentcore] = true) :
    fs.isDirectory [] = true :=
  hclosed.above (r := [agentcore]) (by simp) (node_ne_none_of_isDirectory hagent)

theorem Reportable.mkdirParents_root (h : Reportable fs) :
    ∃ fs', fs.mkdirParents [] = some fs' := by
  rcases h.root with hnone | hdir
  · refine ⟨fs.put [] (.directory fs.dirMode fs.now), ?_⟩
    simp [FileSystem.mkdirParents, mkdirParentsRev, FileSystem.isDirectory, hnone]
  · exact ⟨fs, mkdirParents_of_isDirectory hdir⟩

theorem Reportable.mkdirParents_agent (h : Reportable fs) :
    ∃ fs', fs.mkdirParents [agentcore] = some fs' := by
  rcases h.agent with hnone | hdir
  · have hdir : ¬ fs.isDirectory [agentcore] = true := by simp [FileSystem.isDirectory, hnone]
    obtain ⟨fs₁, hroot⟩ := h.mkdirParents_root
    have hsame : fs₁.node [agentcore] = fs.node [agentcore] := mkdirParents_same hroot (by simp)
    have hfree : fs₁.free [agentcore] = true :=
      free_iff.2 ⟨by simp, mkdirParents_isDirectory hroot, hsame.trans hnone⟩
    show ∃ fs', fs.mkdirParents ([] ++ [agentcore]) = some fs'
    rw [mkdirParents_concat, List.nil_append, if_neg hdir, hroot, Option.bind_some]
    exact ⟨_, mkdir_eq_some.2 ⟨hfree, rfl⟩⟩
  · exact ⟨fs, mkdirParents_of_isDirectory hdir⟩

section Runs

variable (hos : engine.os = disk .none)

include hos

/-! ## The stage -/

theorem removeTree_run (hne : p ≠ []) (hclosed : fs.Closed) (hspecial : fs.NoSpecial) : ∃ fs',
    engine.os.removeTree p fs = (fs', .ok ()) ∧ fs'.Closed ∧ fs'.NoSpecial ∧
      Removes fs fs' (fun q => p <+: q) p.dropLast := by
  rw [hos]
  obtain ⟨fs', hrun, hremoves⟩ := removeTree_removes hne hclosed hspecial
  exact ⟨fs', hrun, hremoves.closed hclosed fun q name hq => hq.trans (List.prefix_append _ _),
    hremoves.noSpecial hspecial, hremoves⟩

theorem makeStage_run (h : Orderly fs) : ∃ fs', engine.makeStage fs = (fs', .ok ()) ∧
    Prepared fs fs' := by
  obtain ⟨fs₁, hroot⟩ := h.toReportable.mkdirParents_root
  have hclosed₁ := h.closed.mkdirParents hroot
  obtain ⟨fs₂, hstage, hclosed₂, hspecial₂, hremoved₂⟩ := removeTree_run hos (p := restoreStage)
    (by simp [restoreStage]) hclosed₁ (h.noSpecial.mkdirParents hroot)
  obtain ⟨fs₃, hbackup, hclosed₃, hspecial₃, hremoved₃⟩ := removeTree_run hos (p := restoreBackup)
    (by simp [restoreBackup]) hclosed₂ hspecial₂
  have hsame₃ : ∀ q, q ≠ [] → q ≠ [agentcore] → ¬ restoreStage <+: q → ¬ restoreBackup <+: q →
      fs₃.node q = fs.node q := by
    intro q hnil hagent hq hq'
    rw [hremoved₃.node_of_ne hq' (by simpa [restoreBackup] using hagent),
      hremoved₂.node_of_ne hq (by simpa [restoreStage] using hagent)]
    exact mkdirParents_same hroot (by simpa using hnil)
  have hroot₃ : fs₃.isDirectory [] = true := by
    rw [hremoved₃.isDirectory (by simp [restoreBackup]), hremoved₂.isDirectory
      (by simp [restoreStage])]
    exact mkdirParents_isDirectory hroot
  have hagent₃ : fs₃.node [agentcore] = none ∨ fs₃.isDirectory [agentcore] = true := by
    have hsame₁ : fs₁.node [agentcore] = fs.node [agentcore] := mkdirParents_same hroot (by simp)
    rcases h.agent with hnone | hdir
    · left
      by_contra hnode
      have hnode₁ := (hremoved₂.node_ne_none (hremoved₃.node_ne_none hnode).2).2
      exact hnode₁ (hsame₁.trans hnone)
    · right
      rw [hremoved₃.isDirectory (by simp [restoreBackup]),
        hremoved₂.isDirectory (by simp [restoreStage]), isDirectory_congr hsame₁, hdir]
  have hstage₃ : fs₃.node restoreStage = none := by
    by_contra hnode
    exact (hremoved₂.node_ne_none (hremoved₃.node_ne_none hnode).2).1 List.prefix_rfl
  obtain ⟨fs₄, hmkdir, hmade⟩ := mkdirParents_made (r := restoreStage) hroot₃
    (fun r hr => by
      simp only [restoreStage, List.prefix_cons_iff, List.prefix_nil] at hr
      rcases hr with rfl | ⟨r, rfl, rfl | ⟨r, rfl, rfl⟩⟩
      · exact Or.inr hroot₃
      · exact hagent₃
      · exact Or.inl hstage₃)
    (fun r₁ r₂ h₁ _ hdir => by
      rcases eq_or_ne r₁ r₂ with rfl | hne
      · exact hdir
      · obtain ⟨s, rfl⟩ := h₁
        have hs : s ≠ [] := by
          rintro rfl
          exact hne (List.append_nil _).symm
        exact hclosed₃.above hs (by simpa using node_ne_none_of_isDirectory hdir))
  have hclosed₄ := hclosed₃.mkdirParents hmkdir
  have hkept : ∀ q, ¬ q <+: restoreStage → fs₄.node q = fs₃.node q :=
    fun q hq => mkdirParents_same hmkdir hq
  refine ⟨fs₄, ?_, hclosed₄, hspecial₃.mkdirParents hmkdir, mkdirParents_isDirectory hmkdir,
    fun r hr => ?_, fun r => ?_, fun q hq hq' hq'' => ?_⟩
  · unfold makeStage
    have hroot' : engine.os.mkdirParents [] fs = (fs₁, .ok ()) := by
      rw [hos]
      exact mkdirParents_of_some h.closed hroot
    have hmkdir' : engine.os.mkdirParents restoreStage fs₃ = (fs₄, .ok ()) := by
      rw [hos]
      exact mkdirParents_of_some hclosed₃ hmkdir
    exact (bind_of_ok hroot').trans ((bind_of_ok hstage).trans ((bind_of_ok hbackup).trans hmkdir'))
  · rw [hkept _ (append_not_prefix_self hr)]
    by_contra hnode
    exact node_ne_none_of_isDirectory (hclosed₃.above hr hnode) hstage₃
  · rw [hkept _ (by simp [restoreStage, restoreBackup, List.cons_prefix_cons])]
    exact hremoved₃.absent _ (List.prefix_append _ _)
  · rw [hkept q hq]
    refine hsame₃ q (fun heq => hq (by simp [heq])) (fun heq => hq ?_) hq' hq''
    simp [heq, restoreStage, List.cons_prefix_cons]

/-! ## The state file -/

theorem writeState_run (hclosed : fs.Closed)
    (h : Restore.writeState ⟨committed.generation, committed.manifestDigest, ⟨0⟩⟩
    engine.runtimeVersion
      root fs = some fs') : engine.writeState root committed fs = (fs', .ok ()) := by
  simp only [Restore.writeState, Option.bind_eq_bind, Option.bind_eq_some_iff] at h
  obtain ⟨fs₁, hparents, fs₂, hopen, fs₃, hwrite, hchmod⟩ := h
  have hdata : (Restore.stateText ⟨committed.generation, committed.manifestDigest, ⟨0⟩⟩
    engine.runtimeVersion).map UInt8.ofNat = engine.stateText committed := rfl
  rw [hdata] at hwrite
  unfold writeState writePrivate
  rw [hos]
  exact (bind_of_ok (mkdirParents_of_some hclosed hparents)).trans
    ((bind_of_ok (does_of_some (c := .openWrite _) hopen)).trans
      ((bind_of_ok (does_of_some (c := .write _ _) hwrite)).trans
        (does_of_some (c := .chmod _ _) hchmod)))

theorem writePrivate_keeps {d : Path} {data : Bytes} (hp : d <+: p) (hne : p ≠ d) :
    Act.Keeps (Within d fs₀) (engine.writePrivate p data) := by
  unfold writePrivate
  rw [hos]
  exact (Within.does (c := .openWrite p) (fun _ _ => openWrite_edits) hp hne).bind fun _ =>
    (Within.does (c := .write p data) (fun _ _ => write_edits) hp hne).bind fun _ =>
      Within.does (c := .chmod p 0o600) (fun _ _ => chmod_edits) hp hne

theorem writeState_keeps (committed : CommittedGeneration) :
    Act.Keeps (Within root fs₀) (engine.writeState root committed) := by
  unfold writeState
  refine Act.Keeps.bind ?_ fun _ => writePrivate_keeps hos (List.prefix_append _ _)
    (by simp [stateDestination])
  rw [hos]
  exact Within.mkdirParents
    (Restore.prefix_dropLast (List.prefix_append _ _) (by simp [stateDestination]))

/-! ## The moves -/

omit hos in
theorem lift_of_ok {α : Type} {x : Effect FileSystem α} {a : α} {moves : Moves}
    (h : x fs = (fs', .ok a)) : lift x (fs, moves) = ((fs', moves), .ok a) := by
  unfold lift
  rw [h]

theorem replacePath_run (h : fs.rename p q = some fs') :
    engine.os.replacePath p q fs = (fs', .ok ()) := by
  rw [hos]
  exact replacePath_of_some h

theorem listing_run (h : fs.isDirectory p = true) :
    engine.listing p fs = (fs, .ok (fs.iterdir p)) := by
  have hlist : (engine.os.iterdir p).mapError Raised.os fs = (fs, .ok (fs.iterdir p)) := by
    rw [hos]
    simp [Act.mapError, disk, h]
  have hsorted : (fs.iterdir p).insertionSort (· ≤ ·) = fs.iterdir p :=
    (List.pairwise_insertionSort _ _).insertionSort_eq
  unfold listing
  rw [bind_of_ok hlist, hsorted]
  rfl

/-- The loops move what `moveEntries` moves. -/
theorem moveAll_run {source destination : Path} (remember : Str → Moves → Moves) (moves : Moves)
    (h : Restore.moveEntries source destination fs names = some fs') : ∃ moves',
      engine.moveAll source destination remember names (fs, moves) = ((fs', moves'), .ok ()) := by
  induction names generalizing fs moves with
  | nil =>
    obtain rfl := Option.some.inj h
    exact ⟨moves, rfl⟩
  | cons name names ih =>
    obtain ⟨fs₁, hmove, hrest⟩ := Restore.moveEntries_cons h
    unfold moveAll at ih ⊢
    rw [each_cons]
    split at hmove
    · next hagent =>
      obtain rfl := Option.some.inj hmove
      obtain ⟨moves', hrun⟩ := @ih _ moves hrest
      refine ⟨moves', (bind_of_ok (a := ()) ?_).trans hrun⟩
      rw [if_pos hagent]
      rfl
    · next hagent =>
      obtain ⟨moves', hrun⟩ := @ih _ (remember name moves) hrest
      refine ⟨moves', (bind_of_ok (a := ()) ?_).trans hrun⟩
      rw [if_neg hagent]
      exact bind_of_ok (lift_of_ok (replacePath_run hos hmove))

theorem swap_run (hclosed : fs.Closed) (hstage : fs.isDirectory restoreStage = true)
    (h : Restore.swap fs = some fs') :
    (engine.os.mkdirNew restoreBackup >>= fun _ => engine.swap) fs = (fs', .ok ()) := by
  simp only [Restore.swap, Option.bind_eq_bind, Option.bind_eq_some_iff] at h
  obtain ⟨fs₁, hbackup, fs₂, hstate, fs₃, hout, fs₄, hin, fs₅, hparents, hrename⟩ := h
  have hagent := agent_of_stage hclosed hstage
  have hroot := root_of_agent hclosed hagent
  have hmkdir : fs.mkdir restoreBackup = some fs₁ := by
    simp only [Restore.makeBackup, Option.bind_eq_bind, Option.bind_eq_some_iff] at hbackup
    obtain ⟨fs₀, hmade, hmkdir⟩ := hbackup
    have hmade' : fs.mkdirParents [agentcore] = some fs₀ := hmade
    rw [mkdirParents_of_isDirectory hagent] at hmade'
    obtain rfl := Option.some.inj hmade'
    exact hmkdir
  have hnew : engine.os.mkdirNew restoreBackup fs = (fs₁, .ok ()) := by
    unfold Os.mkdirNew Act.attempt
    rw [hos, does_of_some (c := .mkdir restoreBackup)
      ((makeDir_ne (by simp [restoreBackup])).trans hmkdir)]
  have hclosed₁ := (mkdir_edits hmkdir).closed hclosed
  have hroot₁ := (mkdir_edits hmkdir).isDirectory hroot
  have hstage₁ := (mkdir_edits hmkdir).isDirectory hstage
  have hstate₁ : ∃ moves, Act.when (engine.os.exists? stateDestination fs₁)
        (lift (engine.os.replacePath stateDestination (restoreBackup ++ [persistenceJson])) >>=
          fun _ => note fun moves => { moves with stateBackedUp := true }) (fs₁, {}) =
      ((fs₂, moves), .ok ()) ∧ fs₂.isDirectory [] = true ∧ fs₂.isDirectory restoreStage = true := by
    have hexists : engine.os.exists? stateDestination fs₁ = fs₁.exists? stateDestination := by
      rw [hos]
      rfl
    unfold Restore.backUpState at hstate
    rw [hexists]
    split at hstate
    · next hthere =>
      rw [hthere]
      refine ⟨_, bind_of_ok (lift_of_ok (replacePath_run hos hstate)), ?_, ?_⟩
      · rw [rename_isDirectory hstate (by simp [stateDestination]) (by simp [restoreBackup]),
          hroot₁]
      · rw [rename_isDirectory hstate (by decide) (by decide), hstage₁]
    · next hthere =>
      obtain rfl := Option.some.inj hstate
      rw [Bool.not_eq_true] at hthere
      rw [hthere]
      exact ⟨{}, rfl, hroot₁, hstage₁⟩
  obtain ⟨moves₂, hrun₂, hroot₂, hstage₂⟩ := hstate₁
  have hmoved₃ : fs₃.isDirectory restoreStage = true := by
    refine Restore.moveEntries_rule (I := fun fs => fs.isDirectory restoreStage = true)
      (fun fs fs' x _ hx hmove hfs => ?_) hout hstage₂
    rw [rename_isDirectory hmove, hfs]
    · simp [restoreStage, List.cons_prefix_cons, hx]
    · simp [restoreStage, restoreBackup, List.cons_prefix_cons]
  have hagent₄ : engine.os.mkdirParents stateDestination.dropLast fs₄ = (fs₅, .ok ()) := by
    have hclosed₄ : fs₄.Closed := by
      have hmoves : ∀ {source destination names} {fs fs' : FileSystem},
          Restore.moveEntries source destination fs names = some fs' → fs.Closed → fs'.Closed :=
        fun hrun hfs => Restore.moveEntries_rule (fun _ _ _ _ _ hmove h => h.rename hmove) hrun hfs
      refine hmoves hin (hmoves hout ?_)
      unfold Restore.backUpState at hstate
      split at hstate
      · exact hclosed₁.rename hstate
      · exact Option.some.inj hstate ▸ hclosed₁
    rw [hos]
    exact mkdirParents_of_some hclosed₄ hparents
  obtain ⟨moves₃, hrun₃⟩ := moveAll_run hos
    (fun name moves => { moves with moved := moves.moved ++ [name] }) moves₂ hout
  obtain ⟨moves₄, hrun₄⟩ := moveAll_run hos
    (fun name moves => { moves with installed := moves.installed ++ [name] }) moves₃ hin
  have hforward : engine.forward (fs₁, {}) = ((fs', moves₄), .ok ()) := by
    unfold forward
    exact (bind_of_ok (lift_of_ok look_apply)).trans ((bind_of_ok hrun₂).trans
      ((bind_of_ok (lift_of_ok (listing_run hos hroot₂))).trans ((bind_of_ok hrun₃).trans
        ((bind_of_ok (lift_of_ok (listing_run hos hmoved₃))).trans ((bind_of_ok hrun₄).trans
          ((bind_of_ok (lift_of_ok hagent₄)).trans (lift_of_ok (replacePath_run hos hrename))))))))
  rw [bind_of_ok hnew]
  unfold swap
  rw [hforward]

/-! ## A generation that is valid -/

/-- The stage holds the entries and the state file. -/
structure Filled (engine : RestoreEngine FileSystem) (committed : CommittedGeneration)
    (entries : List ManifestEntry) (fs₀ fs : FileSystem) : Prop where
  closed : fs.Closed
  noSpecial : fs.NoSpecial
  stage : fs.isDirectory restoreStage = true
  outside : ∀ q, ¬ restoreStage <+: q → fs.node q = fs₀.node q
  staged : ∃ fs₁, Materialized restoreStage fs₀ (entries.map engine.located) fs₁ ∧
    ∀ name rest, name ≠ agentcore →
      fs.node (restoreStage ++ name :: rest) = fs₁.node (restoreStage ++ name :: rest)
  state : ∃ mtimeNs, fs.node (restoreStage ++ stateDestination) =
    some (.file 0o600 mtimeNs (engine.stateText committed))

theorem fill_run (committed : CommittedGeneration) (h : Prepared fs₀ fs) (hshaped : Shaped entries)
    (hfits : engine.Fits entries) :
    ∃ fs', (engine.materialize restoreStage entries >>= fun _ =>
      engine.writeState restoreStage committed) fs = (fs', .ok ()) ∧
        Filled engine committed entries fs fs' := by
  have hencodable : restoreStage.all isEncodable = true := by decide
  have hin : Within restoreStage fs fs := ⟨h.closed, h.noSpecial, h.stage, fun _ _ => rfl⟩
  obtain ⟨fs₁, hrun, hmaterialized⟩ := materialize_fits hos hencodable hin h.empty hshaped hfits
  have hin₁ := materialize_keeps hos hshaped fs hin
  rw [hrun] at hin₁
  have hprivate : ∀ r, fs₁.node (restoreStage ++ agentcore :: r) = none := by
    intro r
    by_contra hnode
    obtain ⟨x, hx, hle⟩ := hmaterialized.only _ (by simp) hnode
    obtain ⟨e, he, rfl⟩ := List.mem_map.1 hx
    exact hshaped.apart e he ((List.prefix_append [agentcore] r).trans hle)
  obtain ⟨fs₂, hstate, hfile, -⟩ := Restore.writeState_isSome
    ⟨committed.generation, committed.manifestDigest, ⟨0⟩⟩ engine.runtimeVersion
      hmaterialized.base hprivate
  have hrun' : engine.writeState restoreStage committed fs₁ = (fs₂, .ok ()) :=
    writeState_run hos hin₁.closed hstate
  have hin₂ := writeState_keeps hos committed fs₁ hin₁
  rw [hrun'] at hin₂
  refine ⟨fs₂, (bind_of_ok hrun).trans hrun', hin₂.closed, hin₂.noSpecial, hin₂.base, hin₂.outside,
    ⟨fs₁, hmaterialized, fun name rest hname => ?_⟩, hfile⟩
  exact Restore.writeState_same hstate (by simp [stateDestination, List.cons_prefix_cons, hname])

/-- What an install leaves of a filled stage. -/
structure Swapped (engine : RestoreEngine FileSystem) (committed : CommittedGeneration)
    (fs₀ fs : FileSystem) : Prop where
  closed : fs.Closed
  noSpecial : fs.NoSpecial
  outside : ∀ name rest, name ≠ agentcore →
    fs.node (name :: rest) = fs₀.node (restoreStage ++ name :: rest)
  state : ∃ mode mtimeNs, fs.node stateDestination =
    some (.file mode mtimeNs (engine.stateText committed))
  reports : ∀ name, name ∉ [stageName, backupName, persistenceJson, journalName] →
    fs.node [agentcore, name] = fs₀.node [agentcore, name]

theorem install_run (h : Filled engine committed entries fs₀ fs)
    (hbackup : ∀ r, fs₀.node (restoreBackup ++ r) = none)
    (hstate : fs₀.isDirectory stateDestination = false)
    (hcollision : fs₀.node stateDestination ≠ none → fs₀.isDirectory [persistenceJson] = false) :
    ∃ fs', engine.install fs = (fs', .ok ()) ∧ Swapped engine committed fs fs' := by
  obtain ⟨mtimeNs, hfile⟩ := h.state
  have hagent := agent_of_stage h.closed h.stage
  have hstate' : fs.node stateDestination = fs₀.node stateDestination := h.outside _ (by decide)
  have hroot := root_of_agent h.closed hagent
  have hinstallable : Restore.Installable fs :=
    ⟨hroot, hagent, ⟨_, _, _, hfile⟩, by rw [isDirectory_congr hstate', hstate], h.noSpecial⟩
  have hrooted : ∀ d, Restore.Rooted fs d := by
    intro d name rest _ hnode
    rcases eq_or_ne rest [] with rfl | hrest
    · exact hnode
    · have hbelow : d ++ name :: rest = d ++ [name] ++ rest := by simp
      exact node_ne_none_of_isDirectory (h.closed.above hrest (hbelow ▸ hnode))
  obtain ⟨fs₁, hswap, hspecial₁⟩ := Restore.swap_isSome hinstallable
    (fun r => by
      rw [h.outside _ (by simp [restoreStage, restoreBackup, List.cons_prefix_cons,
        Ne.symm Restore.backup_ne_stage])]
      exact hbackup r)
    (fun hnode => by
      rw [isDirectory_congr (h.outside _ (by decide))]
      exact hcollision (hstate' ▸ hnode))
  have hclosed₁ := Restore.swap_closed hswap h.closed
  obtain ⟨fs₂, hjournal, hclosed₂, hspecial₂, hremoved₂⟩ := removeTree_run hos (p := dirtyJournal)
    (by simp [dirtyJournal]) hclosed₁ hspecial₁
  obtain ⟨fs₃, hremove, hclosed₃, hspecial₃, hremoved₃⟩ := removeTree_run hos (p := restoreBackup)
    (by simp [restoreBackup]) hclosed₂ hspecial₂
  have hsame : ∀ q, ¬ dirtyJournal <+: q → ¬ restoreBackup <+: q → q ≠ [agentcore] →
      fs₃.node q = fs₁.node q := by
    intro q hq hq' hne
    rw [hremoved₃.node_of_ne hq' (by simpa [restoreBackup] using hne),
      hremoved₂.node_of_ne hq (by simpa [dirtyJournal] using hne)]
  have hswap' := swap_run hos h.closed h.stage hswap
  refine ⟨fs₃, ?_, hclosed₃, hspecial₃, fun name rest hname => ?_, ?_, fun name hname => ?_⟩
  · unfold install
    obtain ⟨fs₀', u, hnew, hmoves⟩ := bind_ok hswap'
    exact (bind_of_ok hnew).trans ((bind_of_ok hmoves).trans ((bind_of_ok hjournal).trans hremove))
  · rw [hsame _ (by simp [dirtyJournal, List.cons_prefix_cons, hname.symm])
      (by simp [restoreBackup, List.cons_prefix_cons, hname.symm]) (by simp [hname])]
    exact Restore.swap_node hswap (hrooted _) (hrooted _) rest hname
  · refine ⟨0o600, mtimeNs, ?_⟩
    rw [hsame _ (by decide) (by decide) (by decide), Restore.swap_state hswap, hfile]
  · simp only [List.mem_cons, List.not_mem_nil, or_false, not_or] at hname
    obtain ⟨hstage, hbackup', hpersistence, hjournal'⟩ := hname
    rw [hsame _ (by simp [dirtyJournal, Ne.symm hjournal'])
      (by simp [restoreBackup, Ne.symm hbackup'])
      (by simp)]
    exact Restore.swap_private [] (by simp [hstage, hbackup', hpersistence]) hswap

omit hos in
theorem Prepared.outside (h : Prepared fs₀ fs) : Unmoved fs₀ fs := fun name rest hname =>
  h.same _ (by simp [restoreStage, List.cons_prefix_cons, hname])
    (by simp [restoreStage, List.cons_prefix_cons, hname.symm])
    (by simp [restoreBackup, List.cons_prefix_cons, hname.symm])

omit hos in
theorem Shaped.outside {e : ManifestEntry} (h : Shaped entries) (he : e ∈ entries) :
    ∃ name rest, e.parts = name :: rest ∧ name ≠ agentcore := by
  have hne := h.nonempty e he
  have hapart := h.apart e he
  cases hparts : e.parts with
  | nil => exact absurd hparts hne
  | cons name rest =>
    rw [hparts] at hapart
    exact ⟨name, rest, rfl, fun heq => hapart (by simp [List.cons_prefix_cons, heq])⟩

omit hos in
/-- The workspace outside of `.agentcore` is what was written out. -/
theorem installed_of_swapped {fs₁ : FileSystem} (hshaped : Shaped entries)
    (hfits : engine.Fits entries)
    (hmaterialized : Materialized restoreStage fs₀ (entries.map engine.located) fs₁)
    (hroot : fs.isDirectory [] = true)
    (hnode : ∀ name rest, name ≠ agentcore →
      fs.node (name :: rest) = fs₁.node (restoreStage ++ name :: rest))
    (hstate : ∃ mode mtimeNs, fs.node stateDestination =
      some (.file mode mtimeNs (engine.stateText committed))) :
    Installed engine committed entries fs where
  placed := fun e he => by
    obtain ⟨name, rest, hparts, hname⟩ := hshaped.outside he
    have hplaced := hmaterialized.placed _ (List.mem_map_of_mem he)
    obtain ⟨n, hn⟩ := Option.isSome_iff_exists.1 (hfits e he).1.whole
    rw [hparts, hnode name rest hname, ← hparts, hn]
    simpa [located, hn] using hplaced
  above := fun e he r hr hne => by
    obtain ⟨name, rest, hparts, hname⟩ := hshaped.outside he
    have habove := hmaterialized.above _ (List.mem_map_of_mem he) r hr hne
    cases r with
    | nil => exact hroot
    | cons name' rest' =>
      have hhead : name' = name := by
        rw [hparts] at hr
        exact (List.cons_prefix_cons.1 hr).1
      subst hhead
      rw [FileSystem.isDirectory, hnode name' rest' hname]
      exact habove
  only := fun name rest hname hsome => by
    rw [hnode name rest hname] at hsome
    obtain ⟨x, hx, hle⟩ := hmaterialized.only _ (by simp) hsome
    obtain ⟨e, he, rfl⟩ := List.mem_map.1 hx
    exact ⟨e, he, hle⟩
  state := hstate

/-- The attempt on a generation whose manifest can be read and written out. -/
theorem attempt_valid {manifest : PersistenceManifest} (h : Orderly fs)
    (hread : engine.readGeneration committed = .ok manifest) (hshaped : Shaped manifest.entries)
    (hfits : engine.Fits manifest.entries) : ∃ fs',
      engine.restoreGeneration committed fs = (fs', .ok ()) ∧
        Installed engine committed manifest.entries fs' ∧ Reportable fs' := by
  obtain ⟨fs₁, hstage, hprepared⟩ := makeStage_run hos h
  obtain ⟨fs₂, hfill, hfilled⟩ := fill_run hos committed hprepared hshaped hfits
  have hstate₁ : fs₁.node stateDestination = fs.node stateDestination :=
    hprepared.same _ (by decide) (by decide) (by decide)
  obtain ⟨fs₃, hinstall, hswapped⟩ := install_run hos hfilled hprepared.backup
    (by
      rw [isDirectory_congr hstate₁]
      rcases h.state with hnone | ⟨mode, mtimeNs, data, hfile⟩
      · simp [FileSystem.isDirectory, hnone]
      · simp [FileSystem.isDirectory, hfile, Node.isDirectory])
    (fun hnode => by
      rw [isDirectory_congr (hprepared.outside persistenceJson [] (by decide))]
      exact h.collision (hstate₁ ▸ hnode))
  obtain ⟨fs₄, hremove, hclosed₄, -, hremoved⟩ := removeTree_run hos (p := restoreStage)
    (by simp [restoreStage]) hswapped.closed hswapped.noSpecial
  have hsame : ∀ q, ¬ restoreStage <+: q → q ≠ [agentcore] → fs₄.node q = fs₃.node q :=
    fun q hq hne => hremoved.node_of_ne hq (by simpa [restoreStage] using hne)
  have hstate : ∃ mode mtimeNs,
      fs₄.node stateDestination = some (.file mode mtimeNs (engine.stateText committed)) := by
    rw [hsame _ (by decide) (by decide)]
    exact hswapped.state
  have hagent : fs₄.isDirectory [agentcore] = true := by
    obtain ⟨mode, mtimeNs, hfile⟩ := hstate
    refine hclosed₄ [agentcore] persistenceJson ?_
    show fs₄.node stateDestination ≠ none
    simp [hfile]
  have hroot := root_of_agent hclosed₄ hagent
  have hreports : ∀ name, name ∉ [stageName, backupName, persistenceJson, journalName] →
      fs₄.node [agentcore, name] = fs.node [agentcore, name] := by
    intro name hname
    have hname' := hname
    simp only [List.mem_cons, List.not_mem_nil, or_false, not_or] at hname'
    have hstage' : ¬ restoreStage <+: [agentcore, name] := by
      simpa [restoreStage] using Ne.symm hname'.1
    have hbackup' : ¬ restoreBackup <+: [agentcore, name] := by
      simpa [restoreBackup] using Ne.symm hname'.2.1
    rw [hsame _ hstage' (by simp), hswapped.reports name hname, hfilled.outside _ hstage']
    refine hprepared.same _ (fun hle => hstage' ?_) hstage' hbackup'
    rw [hle.eq_of_length rfl]
  obtain ⟨fsm, hmaterialized, hstaged⟩ := hfilled.staged
  refine ⟨fs₄, ?_, installed_of_swapped hshaped hfits hmaterialized hroot
    (fun name rest hname => ?_) hstate,
    hclosed₄, Or.inr hroot, Or.inr hagent, ?_, ?_⟩
  · rw [restoreGeneration_eq hread]
    refine (bind_of_ok hstage).trans ?_
    have hrun : engine.fillAndInstall committed manifest.entries fs₁ = (fs₃, .ok ()) := by
      obtain ⟨fs', u, hmaterialize, hwrite⟩ := bind_ok hfill
      exact (bind_of_ok hmaterialize).trans ((bind_of_ok hwrite).trans hinstall)
    unfold Act.always
    rw [hrun, hremove]
  · rw [hsame _ (by simp [restoreStage, List.cons_prefix_cons, hname.symm]) (by simp [hname]),
      hswapped.outside name rest hname, hstaged name rest hname]
  · have hsame' : fs₄.node reportTemporary = fs.node reportTemporary := hreports _ (by decide)
    rw [hsame']
    exact h.temporary
  · have hsame' : fs₄.node reportPath = fs.node reportPath := hreports _ (by decide)
    rw [isDirectory_congr hsame']
    exact h.report

/-! ## A generation that is not valid -/

/-- The attempt on a generation whose manifest can be read but not written out. -/
theorem attempt_invalid {manifest : PersistenceManifest} (h : Orderly fs)
    (hread : engine.readGeneration committed = .ok manifest) (hshaped : Shaped manifest.entries)
    (hfits : ¬ engine.Fits manifest.entries) : ∃ fs' r,
      engine.restoreGeneration committed fs = (fs', .error r) ∧ Orderly fs' ∧ Unmoved fs fs' ∧
        (r.caught = false ↔ engine.StumblesWriting manifest.entries) := by
  obtain ⟨fs₁, hstage, hprepared⟩ := makeStage_run hos h
  have hencodable : restoreStage.all isEncodable = true := by decide
  have hin : Within restoreStage fs₁ fs₁ :=
    ⟨hprepared.closed, hprepared.noSpecial, hprepared.stage, fun _ _ => rfl⟩
  have hstop : ∃ fs₂ r, engine.materialize restoreStage manifest.entries fs₁ = (fs₂, .error r) ∧
      (r.caught = false ↔ engine.StumblesWriting manifest.entries) := by
    by_cases hstumbles : engine.StumblesWriting manifest.entries
    · obtain ⟨fs₂, r, hrun, hr⟩ :=
        materialize_stumbles hos hencodable hin hprepared.empty hshaped hstumbles
      exact ⟨fs₂, r, hrun, iff_of_true hr hstumbles⟩
    · obtain ⟨fs₂, r, hrun, hr⟩ :=
        materialize_damaged hos hencodable hin hprepared.empty hshaped hfits hstumbles
      exact ⟨fs₂, r, hrun, iff_of_false (by simp [hr]) hstumbles⟩
  obtain ⟨fs₂, r, hrun, hr⟩ := hstop
  have hin₂ := materialize_keeps hos hshaped fs₁ hin
  rw [hrun] at hin₂
  obtain ⟨fs₃, hremove, hclosed₃, hspecial₃, hremoved⟩ := removeTree_run hos (p := restoreStage)
    (by simp [restoreStage]) hin₂.closed hin₂.noSpecial
  have hagent : fs₃.isDirectory [agentcore] = true := by
    rw [hremoved.isDirectory (by decide), isDirectory_congr (hin₂.outside _ (by decide))]
    exact agent_of_stage hprepared.closed hprepared.stage
  have hsame : ∀ q, ¬ q <+: restoreStage → ¬ restoreStage <+: q → ¬ restoreBackup <+: q →
      fs₃.node q = fs.node q := by
    intro q hq hq' hq''
    have hne : q ≠ [agentcore] := by
      rintro rfl
      exact hq (by decide)
    rw [hremoved.node_of_ne hq' (by simpa [restoreStage] using hne), hin₂.outside q hq',
      hprepared.same q hq hq' hq'']
  have hstate : fs₃.node stateDestination = fs.node stateDestination :=
    hsame _ (by decide) (by decide) (by decide)
  have hunmoved : Unmoved fs fs₃ := fun name rest hname =>
    hsame _ (by simp [restoreStage, List.cons_prefix_cons, hname])
      (by simp [restoreStage, List.cons_prefix_cons, hname.symm])
      (by simp [restoreBackup, List.cons_prefix_cons, hname.symm])
  have hroot := root_of_agent hclosed₃ hagent
  refine ⟨fs₃, r, ?_, ⟨⟨hclosed₃, Or.inr hroot, Or.inr hagent, ?_, ?_⟩, hspecial₃, ?_, ?_⟩,
    hunmoved, hr⟩
  · rw [restoreGeneration_eq hread]
    refine (bind_of_ok hstage).trans ?_
    have hfill : engine.fillAndInstall committed manifest.entries fs₁ = (fs₂, .error r) :=
      bind_of_error hrun
    unfold Act.always
    rw [hfill, hremove]
  · rw [hsame reportTemporary (by decide) (by decide) (by decide)]
    exact h.temporary
  · rw [isDirectory_congr (hsame reportPath (by decide) (by decide) (by decide))]
    exact h.report
  · rw [hstate]
    exact h.state
  · rw [hstate, isDirectory_congr (hunmoved persistenceJson [] (by decide))]
    exact h.collision

/-! ## The report -/

theorem writePrivate_run (data : Bytes) (hne : p ≠ []) (hparent : fs.isDirectory p.dropLast = true)
    (hp : fs.node p = none ∨ ∃ mode mtimeNs data, fs.node p = some (.file mode mtimeNs data)) :
    ∃ fs' mtimeNs, engine.writePrivate p data fs = (fs', .ok ()) ∧
      fs'.node p = some (.file 0o600 mtimeNs data) ∧
      (∀ q, q ≠ p → q ≠ p.dropLast → fs'.node q = fs.node q) ∧
      ∀ q, fs.isDirectory q = true → fs'.isDirectory q = true := by
  have hopen : ∃ fs₁ mode mtimeNs, fs.openWrite p = some fs₁ ∧
      fs₁.node p = some (.file mode mtimeNs []) := by
    rcases hp with hnone | ⟨mode, mtimeNs, data, hfile⟩
    · have hfree : fs.free p = true := free_iff.2 ⟨hne, hparent, hnone⟩
      exact ⟨_, _, _, by rw [openWrite, hnone]; exact if_pos hfree, (creates hfree).node⟩
    · exact ⟨_, mode, fs.now, by rw [openWrite, hfile], by simp⟩
  obtain ⟨fs₁, mode, mtimeNs, hopen, hfile⟩ := hopen
  have hwrite : fs₁.write p data = some (fs₁.put p (.file mode fs₁.now data)) := by
    simp [FileSystem.write, hfile]
  have hchmod : (fs₁.put p (.file mode fs₁.now data)).chmod p 0o600 =
      some ((fs₁.put p (.file mode fs₁.now data)).put p (.file 0o600 fs₁.now data)) := by
    simp [FileSystem.chmod]
  refine ⟨(fs₁.put p (.file mode fs₁.now data)).put p (.file 0o600 fs₁.now data), fs₁.now, ?_, ?_,
    fun q hq hq' => ?_, fun q hq => ?_⟩
  · unfold writePrivate
    rw [hos]
    exact (bind_of_ok (does_of_some (c := .openWrite p) hopen)).trans
      ((bind_of_ok (does_of_some (c := .write p data) hwrite)).trans
        (does_of_some (c := .chmod p 0o600) hchmod))
  · simp
  · simp only [node_put, if_neg hq]
    exact openWrite_same hopen hq hq'
  · exact (chmod_edits hchmod).isDirectory
      ((write_edits hwrite).isDirectory ((openWrite_edits hopen).isDirectory hq))

/-- What a report leaves: the file itself, and nothing else but the times of its directories. -/
structure Reported (report : RestoreReport) (fs fs' : FileSystem) : Prop where
  outside : Unmoved fs fs'
  root : fs.isDirectory [] = true → fs'.isDirectory [] = true
  state : fs'.node stateDestination = fs.node stateDestination
  written : ∃ mode mtimeNs, fs'.node reportPath =
    some (.file mode mtimeNs ((Json.dumps report.asDict ++ [10]).map UInt8.ofNat))

theorem writeReport_run (h : Reportable fs) (report : RestoreReport) : ∃ fs',
    engine.writeReport report fs = (fs', .ok ()) ∧ Reported report fs fs' := by
  obtain ⟨fs₁, hparents⟩ := h.mkdirParents_agent
  have hagent₁ := mkdirParents_isDirectory hparents
  have hsame₁ : ∀ q, ¬ q <+: [agentcore] → fs₁.node q = fs.node q :=
    fun q hq => mkdirParents_same hparents hq
  obtain ⟨fs₂, mtimeNs, hwrite, hnode₂, hsame₂, hdirs₂⟩ :=
    writePrivate_run hos (p := reportTemporary)
    ((Json.dumps report.asDict ++ [10]).map UInt8.ofNat) (by simp [reportTemporary]) hagent₁
    (by
      rw [hsame₁ _ (by decide)]
      exact h.temporary)
  have hreport₂ : fs₂.isDirectory reportPath = false := by
    rw [isDirectory_congr (hsame₂ _ (by decide) (by decide)), isDirectory_congr
      (hsame₁ _ (by decide))]
    exact h.report
  have hagent₂ : fs₂.isDirectory [agentcore] = true := hdirs₂ _ hagent₁
  have hvacant : fs₂.Vacant reportTemporary reportPath :=
    Or.inr ⟨hreport₂, by simp [FileSystem.isDirectory, hnode₂, Node.isDirectory]⟩
  obtain ⟨fs₃, hrename⟩ := hvacant.rename_isSome (by decide) (by decide) (by simp [hnode₂]) hagent₂
    (by decide)
  have hkept : ∀ q, ¬ q <+: [agentcore] → ¬ reportTemporary <+: q → ¬ reportPath <+: q →
      fs₃.node q = fs.node q := by
    intro q hq htemporary hreport
    have hne : q ≠ [agentcore] := fun heq => hq (heq ▸ List.prefix_rfl)
    rw [rename_same hrename htemporary hreport (by simpa [reportTemporary] using hne)
      (by simpa [reportPath] using hne),
      hsame₂ q (fun heq => htemporary (heq ▸ List.prefix_rfl))
        (by simpa [reportTemporary] using hne),
      hsame₁ q hq]
  have hroot₁ := root_of_agent (h.closed.mkdirParents hparents) hagent₁
  refine ⟨fs₃, ?_, fun name rest hname => ?_, fun _ => ?_,
    hkept _ (by decide) (by decide) (by decide), ?_⟩
  · unfold writeReport
    have hparents' : engine.os.mkdirParents reportPath.dropLast fs = (fs₁, .ok ()) := by
      rw [hos]
      exact mkdirParents_of_some h.closed hparents
    refine (bind_of_ok hparents').trans ((bind_of_ok hwrite).trans ?_)
    rw [hos]
    exact does_of_some (c := .rename reportTemporary reportPath) hrename
  · exact hkept _ (by simp [hname]) (by simp [reportTemporary, List.cons_prefix_cons, hname.symm])
      (by simp [reportPath, List.cons_prefix_cons, hname.symm])
  · rw [rename_isDirectory hrename (by simp [reportTemporary]) (by simp [reportPath])]
    exact hdirs₂ _ hroot₁
  · have hmoved := rename_moved (r := []) hrename (by decide)
    rw [List.append_nil, List.append_nil, hnode₂] at hmoved
    exact ⟨_, _, hmoved⟩

end Runs

end RestoreEngine

end KiroCrew
