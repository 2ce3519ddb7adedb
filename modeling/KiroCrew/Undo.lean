import KiroCrew.Install

/-!
# Restore undoes build

`restore_undoes_build`: what a build recorded of a tree that did not change meanwhile is what
restore leaves of it, in any workspace, and nothing else that the policy includes is left outside
`.agentcore`. A link comes back with its target as pathlib prints it (`restoredNode`), so `./notes`
comes back as `notes` (`link_target_changed`). Every run that returns does this, and every run does
return when the previous workspace does not stand in the way (`Clean`).
-/

namespace KiroCrew

namespace Restore

open ManifestBuilder

/-- What a build recorded is there again, and no other path that the policy includes. -/
structure Restored (t : Tree) (fs : FileSystem) : Prop where
  recorded : ∀ p ∈ t.recorded, ∀ n, t.node p = some n → fs.node p = some (restoredNode n)
  others : ∀ p : Path, PersistencePolicy.includes p.relative = true → fs.node p ≠ none →
    p ∈ t.recorded

variable {t : Snapshot} {sha : Sha256} {fetch : Digest → Option Bytes}
    {fs fs' workspace workspace' : FileSystem}
  {committed : CommitRecord} {sandboxId runtimeVersion plaintext : Str}
  {layout : List (Path × Node)} {p : Path}

theorem outside_of_includes (h : PersistencePolicy.includes p.relative = true) :
    ∃ name rest, p = name :: rest ∧ name ≠ agentcore := by
  obtain ⟨root, hroot, rest, rfl⟩ :=
    PersistencePolicy.covers_relative (PersistencePolicy.covers_of_includes h)
  have hheads : ∀ r ∈ PersistencePolicy.roots, r ≠ [] ∧ r.head? ≠ some agentcore := by decide
  obtain ⟨hne, hhead⟩ := hheads root hroot
  cases root with
  | nil => exact absurd rfl hne
  | cons name root => exact ⟨name, root ++ rest, rfl, by simpa using hhead⟩

theorem writeState_same (h : writeState committed runtimeVersion restoreStage fs = some fs')
    {q : Path}
    (hq : ¬ q <+: restoreStage ++ stateDestination) : fs'.node q = fs.node q := by
  simp only [writeState, Option.bind_eq_bind, Option.bind_eq_some_iff] at h
  obtain ⟨fs₁, hparents, fs₂, hopen, fs₃, hwrite, hchmod⟩ := h
  have hne : q ≠ restoreStage ++ stateDestination := fun heq => hq (heq ▸ List.prefix_rfl)
  have hparent : ¬ q <+: (restoreStage ++ stateDestination).dropLast := fun hle =>
    hq (hle.trans (List.dropLast_prefix _))
  rw [FileSystem.chmod_same hchmod hne, FileSystem.write_same hwrite hne,
    FileSystem.openWrite_same hopen hne fun heq => hparent (heq ▸ List.prefix_rfl),
    FileSystem.mkdirParents_same hparents hparent]

theorem Materialized.node_of_prefix {stage r : Path} {x : Path × Node}
    (h : Materialized stage fs layout fs') (hx : x ∈ layout)
    (hr : r <+: x.1) : fs'.node (stage ++ r) ≠ none := by
  by_cases heq : r = x.1
  · rw [heq, h.placed x hx]
    simp
  · exact FileSystem.node_ne_none_of_isDirectory (h.above x hx r hr heq)

/-- A fresh stage, in a workspace that is otherwise as it was. -/
structure MadeStage (workspace fs : FileSystem) : Prop where
  stage : fs.isDirectory restoreStage = true
  empty : ∀ r, r ≠ [] → fs.node (restoreStage ++ r) = none
  outside : ∀ name rest, name ≠ agentcore → fs.node (name :: rest) = workspace.node (name :: rest)

theorem makeStage_made (hclosed : workspace.Closed) (h : makeStage workspace = some fs) :
    MadeStage workspace fs := by
  simp only [makeStage, Option.bind_eq_bind, Option.bind_eq_some_iff] at h
  obtain ⟨fs₁, hroot, fs₂, hstage, fs₃, hbackup, hmkdir⟩ := h
  have hsame₁ : ∀ q, q ≠ [] → fs₁.node q = workspace.node q := fun q hq =>
    FileSystem.mkdirParents_same hroot (by simpa using hq)
  refine ⟨FileSystem.mkdirParents_isDirectory hmkdir, fun r hr => ?_, fun name rest hname => ?_⟩
  · rw [FileSystem.mkdirParents_same hmkdir (FileSystem.append_not_prefix_self hr),
      FileSystem.removeTree_same hbackup
      (by simp [restoreStage, restoreBackup, List.cons_prefix_cons])
        (by simp [restoreStage, restoreBackup])]
    refine FileSystem.removeTree_below hstage (by simp [restoreStage]) fun hnode => ?_
    rw [hsame₁ _ (by simp [restoreStage])] at hnode ⊢
    exact FileSystem.node_ne_none_of_isDirectory (hclosed.above hr hnode)
  · rw [FileSystem.mkdirParents_same hmkdir (by simp [restoreStage, List.cons_prefix_cons, hname]),
      FileSystem.removeTree_same hbackup
      (by simp [restoreBackup, List.cons_prefix_cons, hname.symm])
        (by simp [restoreBackup, hname]),
      FileSystem.removeTree_same hstage (by simp [restoreStage, List.cons_prefix_cons, hname.symm])
        (by simp [restoreStage, hname]), hsame₁ _ (by simp)]

/-- A run leaves outside `.agentcore` what it wrote out. -/
theorem restoreGeneration_node {m : PersistenceManifest}
    (hdecode : ManifestDecoder.decode plaintext sandboxId committed.generation = .ok m)
    (hclosed : workspace.Closed)
    (hmaterialize : ∀ fs, fs.isDirectory restoreStage = true →
      (∀ r, r ≠ [] → fs.node (restoreStage ++ r) = none) →
      ∃ fs', materialize sha fetch restoreStage fs m.entries = some fs' ∧
      Materialized restoreStage fs layout fs')
    (h : restoreGeneration sha fetch sandboxId runtimeVersion committed plaintext workspace =
      some workspace') :
    ∃ fs fs', Materialized restoreStage fs layout fs' ∧
      ∀ name rest, name ≠ agentcore → workspace'.node (name :: rest) = fs'.node
        (restoreStage ++ name :: rest) := by
  simp only [restoreGeneration, hdecode, Option.bind_eq_bind, Option.bind_eq_some_iff] at h
  obtain ⟨fs₄, hstage, fs₅, hrun, fs₆, hstate, fs₇, hinstall, hremove⟩ := h
  have hmade := makeStage_made hclosed hstage
  obtain ⟨fs', hrun', hmaterialized⟩ := hmaterialize fs₄ hmade.stage hmade.empty
  obtain rfl := Option.some.inj (hrun.symm.trans hrun')
  have houtside : ∀ name rest, name ≠ agentcore → fs₆.node (name :: rest) = workspace.node
      (name :: rest) := by
    intro name rest hname
    rw [writeState_same hstate (by simp [restoreStage, List.cons_prefix_cons, hname]),
      hmaterialized.outside _ (by simp [restoreStage, List.cons_prefix_cons, hname.symm]),
      hmade.outside name rest hname]
  have hstaged : ∀ name rest, name ≠ agentcore →
      fs₆.node (restoreStage ++ name :: rest) = fs₅.node (restoreStage ++ name :: rest) := by
    intro name rest hname
    exact writeState_same hstate (by simp [stateDestination, List.cons_prefix_cons, hname])
  refine ⟨fs₄, fs₅, hmaterialized, fun name rest hname => ?_⟩
  rw [FileSystem.removeTree_same hremove (by simp [restoreStage, List.cons_prefix_cons, hname.symm])
    (by simp [restoreStage, hname]),
    install_node hinstall ?_ ?_ rest hname, hstaged name rest hname]
  · intro name rest hname hnode
    rw [List.nil_append, houtside name _ hname] at hnode ⊢
    by_cases hrest : rest = []
    · rwa [hrest] at hnode
    · exact FileSystem.node_ne_none_of_isDirectory (hclosed.above (p := [name]) hrest hnode)
  · intro name rest hname hnode
    rw [hstaged name _ hname] at hnode ⊢
    obtain ⟨x, hx, hle⟩ := hmaterialized.only _ (by simp) hnode
    exact hmaterialized.node_of_prefix hx ((List.prefix_append [name] rest).trans hle)

/-! ## Without failures -/

/-- A previous workspace that does not stand in the way: no special files, `.agentcore` a directory
if it is there, the state file no directory, and no directory `persistence.json` beside it. -/
structure Clean (fs : FileSystem) : Prop where
  root : fs.node [] = none ∨ fs.isDirectory [] = true
  agent : fs.node [agentcore] = none ∨ fs.isDirectory [agentcore] = true
  destination : fs.isDirectory stateDestination = false
  collision : fs.node stateDestination ≠ none → fs.isDirectory [persistenceJson] = false
  noSpecial : fs.NoSpecial

/-- What an install needs of the workspace. -/
structure StageReady (workspace fs : FileSystem) : Prop where
  root : fs.isDirectory [] = true
  agent : fs.isDirectory [agentcore] = true
  backup : ∀ r, fs.node (restoreBackup ++ r) = none
  destination : fs.node stateDestination = workspace.node stateDestination
  noSpecial : fs.NoSpecial

theorem makeStage_isSome (hclosed : workspace.Closed) (h : Clean workspace) :
    ∃ fs, makeStage workspace = some fs ∧ StageReady workspace fs := by
  obtain ⟨fs₁, hroot⟩ : ∃ fs₁, workspace.mkdirParents [] = some fs₁ := by
    rcases h.root with hnone | hdir
    · exact ⟨_, by simp [FileSystem.mkdirParents, FileSystem.mkdirParentsRev,
                     FileSystem.isDirectory, hnone]; rfl⟩
    · exact ⟨workspace, FileSystem.mkdirParents_of_isDirectory hdir⟩
  have hsame₁ : ∀ q, q ≠ [] → fs₁.node q = workspace.node q := fun q hq =>
    FileSystem.mkdirParents_same hroot (by simpa using hq)
  have hspecial₁ := h.noSpecial.mkdirParents hroot
  obtain ⟨fs₂, hstage⟩ := hspecial₁.removeTree_isSome (p := restoreStage)
  have hspecial₂ := hspecial₁.removeTree hstage
  obtain ⟨fs₃, hbackup⟩ := hspecial₂.removeTree_isSome (p := restoreBackup)
  have hspecial₃ := hspecial₂.removeTree hbackup
  have hroot₃ : fs₃.isDirectory [] = true := by
    rw [FileSystem.removeTree_isDirectory hbackup (by decide),
      FileSystem.removeTree_isDirectory hstage (by decide)]
    exact FileSystem.mkdirParents_isDirectory hroot
  have hagent₃ : fs₃.isDirectory [agentcore] = workspace.isDirectory [agentcore] := by
    rw [FileSystem.removeTree_isDirectory hbackup (by decide),
      FileSystem.removeTree_isDirectory hstage (by decide),
      FileSystem.isDirectory_congr (hsame₁ _ (by decide))]
  have hbackup₃ : ∀ r, fs₃.node (restoreBackup ++ r) = none := by
    refine fun r => FileSystem.removeTree_below hbackup (by decide) fun hnode => ?_
    have hsame₂ : ∀ r, fs₂.node (restoreBackup ++ r) = workspace.node (restoreBackup ++ r) := by
      intro r
      rw [FileSystem.removeTree_same hstage, hsame₁ _ (by simp [restoreBackup])]
      · simp [restoreStage, restoreBackup, List.cons_prefix_cons, Ne.symm backup_ne_stage]
      · simp [restoreStage, restoreBackup]
    by_cases hr : r = []
    · simpa [hr] using hnode
    · have htop := hsame₂ []
      rw [List.append_nil] at htop
      rw [htop]
      rw [hsame₂ r] at hnode
      exact FileSystem.node_ne_none_of_isDirectory (hclosed.above hr hnode)
  have hstage₃ : fs₃.node restoreStage = none := by
    refine FileSystem.removeTree_none hbackup ?_
    simpa using FileSystem.removeTree_below (r := []) hstage (by decide) (by simp)
  have hway : ∀ r, r <+: restoreStage → r = [] ∨ r = [agentcore] ∨ r = restoreStage := by
    intro r hr
    rw [restoreStage, List.prefix_cons_iff] at hr
    rcases hr with rfl | ⟨r, rfl, hr⟩
    · exact Or.inl rfl
    · rw [List.prefix_cons_iff] at hr
      simpa [restoreStage] using hr
  have hchain : ∀ r, r <+: restoreStage → fs₃.node ([] ++ r) = none ∨
      fs₃.isDirectory ([] ++ r) = true := by
    intro r hr
    rcases hway r hr with rfl | rfl | rfl
    · exact Or.inr hroot₃
    · rcases h.agent with hnone | hdir
      · refine Or.inl (FileSystem.removeTree_none hbackup (FileSystem.removeTree_none hstage ?_))
        rw [hsame₁ _ (by simp)]
        exact hnone
      · exact Or.inr (hagent₃.trans hdir)
    · exact Or.inl hstage₃
  obtain ⟨fs₄, hmkdir, hmade⟩ := FileSystem.mkdirParents_made hroot₃ hchain
    fun r₁ r₂ h₁ h₂ hdir => by
      rcases hway r₂ h₂ with rfl | rfl | rfl
      · rwa [List.prefix_nil.1 h₁]
      · rw [List.prefix_cons_iff] at h₁
        rcases h₁ with rfl | ⟨r, rfl, hr⟩
        · exact hroot₃
        · rwa [List.prefix_nil.1 hr]
      · exact absurd hstage₃ (FileSystem.node_ne_none_of_isDirectory hdir)
  have hrun : makeStage workspace = some fs₄ := by
    simp only [makeStage, hroot, hstage, hbackup, Option.bind_eq_bind, Option.bind_some]
    exact hmkdir
  have hkept : ∀ q, ¬ q <+: restoreStage → fs₄.node q = fs₃.node q := fun q hq =>
    FileSystem.mkdirParents_same hmkdir hq
  refine ⟨fs₄, hrun, hmade.dirs [] List.nil_prefix, hmade.dirs [agentcore] (by decide), fun r =>
    ?_, ?_,
    hspecial₃.mkdirParents hmkdir⟩
  · rw [hkept _ (by simp [restoreStage, restoreBackup, List.cons_prefix_cons])]
    exact hbackup₃ r
  · rw [hkept _ (by decide), FileSystem.removeTree_same hbackup (by decide) (by decide),
      FileSystem.removeTree_same hstage (by decide) (by decide), hsame₁ _ (by decide)]

theorem Materialized.noSpecial (h : Materialized restoreStage fs layout fs') (hfs : fs.NoSpecial)
    (hlayout : ∀ x ∈ layout, x.2 ≠ .special) : fs'.NoSpecial := by
  intro q hq
  by_cases hstage : restoreStage <+: q
  · obtain ⟨r, rfl⟩ := hstage
    by_cases hr : r = []
    · obtain ⟨mode, mtimeNs, hnode⟩ := FileSystem.isDirectory_iff.1 h.base
      rw [hr, List.append_nil, hnode] at hq
      simp at hq
    · obtain ⟨x, hx, hle⟩ := h.only r hr (by simp [hq])
      by_cases heq : r = x.1
      · rw [heq, h.placed x hx] at hq
        exact hlayout x hx (Option.some.inj hq)
      · obtain ⟨mode, mtimeNs, hnode⟩ := FileSystem.isDirectory_iff.1 (h.above x hx r hle heq)
        rw [hnode] at hq
        simp at hq
  · exact hfs q (h.outside q hstage ▸ hq)

theorem restoreGeneration_isSome {m : PersistenceManifest}
    (hdecode : ManifestDecoder.decode plaintext sandboxId committed.generation = .ok m)
    (hclosed : workspace.Closed)
    (hclean : Clean workspace)
    (hmaterialize : ∀ fs, fs.isDirectory restoreStage = true →
      (∀ r, r ≠ [] → fs.node (restoreStage ++ r) = none) →
      ∃ fs', materialize sha fetch restoreStage fs m.entries = some fs' ∧
      Materialized restoreStage fs layout fs')
    (hlayout : ∀ x ∈ layout, x.2 ≠ .special ∧ ¬ [agentcore] <+: x.1) :
    ∃ workspace', restoreGeneration sha fetch sandboxId runtimeVersion committed plaintext
        workspace = some workspace' := by
  obtain ⟨fs₄, hstage, hready⟩ := makeStage_isSome hclosed hclean
  have hmade := makeStage_made hclosed hstage
  obtain ⟨fs₅, hrun, hmaterialized⟩ := hmaterialize fs₄ hmade.stage hmade.empty
  have hspecial₅ := hmaterialized.noSpecial hready.noSpecial fun x hx => (hlayout x hx).1
  have hprivate : ∀ r, fs₅.node (restoreStage ++ agentcore :: r) = none := by
    intro r
    by_contra hnode
    obtain ⟨x, hx, hle⟩ := hmaterialized.only _ (by simp) hnode
    exact (hlayout x hx).2 ((List.prefix_append [agentcore] r).trans hle)
  obtain ⟨fs₆, hstate, ⟨mtimeNs, hfile⟩, hdirs, hspecial⟩ :=
    writeState_isSome committed runtimeVersion hmaterialized.base hprivate
  have hdirs₆ : ∀ q, ¬ restoreStage <+: q → fs₄.isDirectory q = true →
      fs₆.isDirectory q = true := fun q hq hdir =>
    hdirs q (by rwa [FileSystem.isDirectory_congr (hmaterialized.outside q hq)])
  have hsame₆ : ∀ q, ¬ restoreStage <+: q → ¬ q <+: restoreStage ++ stateDestination →
      fs₆.node q = fs₄.node q := by
    intro q hq hstate'
    rw [writeState_same hstate hstate', hmaterialized.outside q hq]
  have hdestination : fs₆.node stateDestination = workspace.node stateDestination := by
    rw [hsame₆ _ (by decide) (by decide), hready.destination]
  have hinstallable : Installable fs₆ := by
    refine ⟨hdirs₆ _ (by decide) hready.root, hdirs₆ _ (by decide) hready.agent,
      ⟨_, _, _, hfile⟩, ?_, hspecial hspecial₅⟩
    rw [FileSystem.isDirectory_congr hdestination, hclean.destination]
  obtain ⟨fs₇, hinstall, hspecial₇⟩ := install_isSome hinstallable
    (fun r => by
      rw [hsame₆ _ (by simp [restoreStage, restoreBackup, List.cons_prefix_cons,
                         Ne.symm backup_ne_stage])
        (by simp [restoreStage, restoreBackup, List.cons_prefix_cons])]
      exact hready.backup r)
    (fun hnode => by
      rw [hdestination] at hnode
      rw [FileSystem.isDirectory_congr (hsame₆ _ (by decide) (by decide)),
        FileSystem.isDirectory_congr (hmade.outside persistenceJson [] (by decide))]
      exact hclean.collision hnode)
  obtain ⟨fs₈, hremove⟩ := hspecial₇.removeTree_isSome (p := restoreStage)
  refine ⟨fs₈, ?_⟩
  simp only [restoreGeneration, hdecode, hstage, hrun, hstate, hinstall, Option.bind_eq_bind,
    Option.bind_some]
  exact hremove

/-! ## Build and restore -/

/-- A directory tree: what has something below it is a directory. -/
structure Workspace extends FileSystem where
  closed : toFileSystem.Closed

section Build

variable {b : ManifestBuilder} {now : Int} {sandbox : SandboxId} {created : IsoTime}
    {built : BuiltManifest}
  {m : PersistenceManifest} {ws : Workspace}

theorem materialize_decoded (hb : b.Reachable sha) (hfaithful : b.Faithful sha t)
    (hbuild : b.build sha t.visits now committed.generation sandbox.text created.text = some built)
    (hdecode : ManifestDecoder.decode built.manifest.toJson sandbox.text committed.generation =
      .ok m)
    (hfetched : t.Fetched sha b.chunkSize fetch) (hstage : fs.isDirectory restoreStage = true)
    (hempty : ∀ r, r ≠ [] → fs.node (restoreStage ++ r) = none) :
    ∃ fs', materialize sha fetch restoreStage fs m.entries = some fs' ∧
      Materialized restoreStage fs
        ((Restore.layout t.toTree built.manifest.entries).map restored) fs' := by
  obtain ⟨-, rfl⟩ := (decode_build hb hbuild).1 hdecode
  exact materialize_build hb hfaithful hbuild hfetched hstage hempty

theorem restored_of_run (hb : b.Reachable sha) (hfaithful : b.Faithful sha t)
    (hbuild : b.build sha t.visits now committed.generation sandbox.text created.text = some built)
    (hdecode : ManifestDecoder.decode built.manifest.toJson sandbox.text committed.generation =
      .ok m)
    (hfetched : t.Fetched sha b.chunkSize fetch)
    (h : restoreGeneration sha fetch sandbox.text runtimeVersion committed built.manifest.toJson
      ws.toFileSystem = some workspace') :
    Restored t.toTree workspace' := by
  obtain ⟨fs, fs', hmaterialized, hnode⟩ := restoreGeneration_node hdecode ws.closed
    (fun fs hstage hempty => materialize_decoded hb hfaithful hbuild hdecode hfetched hstage hempty)
      h
  constructor
  · intro p hp n hn
    obtain ⟨-, m, hm, hrecords⟩ := Tree.mem_recorded.1 hp
    simp only [Tree.records, Bool.and_eq_true] at hrecords
    obtain ⟨name, rest, rfl, hname⟩ := outside_of_includes hrecords.1
    rw [hnode name rest hname]
    exact hmaterialized.placed _ (List.mem_map_of_mem ((mem_layout hb hbuild).2 ⟨hp, hn⟩))
  · intro p hincludes hsome
    obtain ⟨name, rest, rfl, hname⟩ := outside_of_includes hincludes
    rw [hnode name rest hname] at hsome
    obtain ⟨x, hx, hle⟩ := hmaterialized.only _ (by simp) hsome
    obtain ⟨⟨q, n⟩, hlisted, rfl⟩ := List.mem_map.1 hx
    obtain ⟨hq, -⟩ := (mem_layout hb hbuild).1 hlisted
    by_cases heq : name :: rest = q
    · rwa [heq]
    · -- a directory above a recorded path that the policy includes was recorded itself
      obtain ⟨root, hroot, hrootle⟩ :=
        PersistencePolicy.covers_relative (PersistencePolicy.covers_of_includes hincludes)
      obtain ⟨hwalk, d, hd, hdir⟩ :=
        Tree.mem_walk_of_prefix (Tree.mem_recorded.1 hq).1 hroot hrootle hle heq
      refine Tree.mem_recorded.2 ⟨hwalk, d, hd, ?_⟩
      cases d <;> simp_all [Tree.records, Node.isDirectory]

theorem run_of_clean (runtimeVersion : Str) (hb : b.Reachable sha) (hfaithful : b.Faithful sha t)
    (hbuild : b.build sha t.visits now committed.generation sandbox.text created.text = some built)
    (hdecode : ManifestDecoder.decode built.manifest.toJson sandbox.text committed.generation =
      .ok m)
    (hfetched : t.Fetched sha b.chunkSize fetch) (hclean : Clean ws.toFileSystem) :
    ∃ workspace', restoreGeneration sha fetch sandbox.text runtimeVersion committed
      built.manifest.toJson ws.toFileSystem =
        some workspace' := by
  refine restoreGeneration_isSome hdecode ws.closed hclean
    (fun fs hstage hempty =>
      materialize_decoded hb hfaithful hbuild hdecode hfetched hstage hempty) fun x hx => ?_
  obtain ⟨⟨p, n⟩, hlisted, rfl⟩ := List.mem_map.1 hx
  obtain ⟨hp, hn⟩ := (mem_layout hb hbuild).1 hlisted
  obtain ⟨-, n, hn', hrecords⟩ := Tree.mem_recorded.1 hp
  obtain rfl := Option.some.inj (hn.symm.trans hn')
  simp only [Tree.records, Bool.and_eq_true] at hrecords
  obtain ⟨name, rest, rfl, hname⟩ := outside_of_includes hrecords.1
  refine ⟨?_, by simpa [List.cons_prefix_cons] using hname.symm⟩
  rcases n with - | - | - | -
  · rintro ⟨⟩
  · rintro ⟨⟩
  · rintro ⟨⟩
  · simp at hrecords

end Build

namespace Sample

open KiroCrew.Example

/-- A workspace with an old project. -/
def previous : Workspace where
  toFileSystem :=
    { node :=
      Dict.get? [([], .directory 0o755 0), (["projects"].map Str.ofString, .directory 0o755 0),
        (["projects", "old"].map Str.ofString, .file 0o644 0 [1])]
      names := [[], ["projects"].map Str.ofString, ["projects", "old"].map Str.ofString]
      complete := fun p hp => Dict.get?_isSome.1 (Option.isSome_iff_ne_none.2 hp)
      times := fun i => i
      dirMode := 0o755
      fileMode := 0o644
      resolves := fun _ => true }
  closed := fun p name hnode => by
    have hmem := Dict.get?_isSome.1 (Option.isSome_iff_ne_none.2 hnode)
    simp only [Dict.keys, List.map_cons, List.map_nil, List.mem_cons, List.not_mem_nil, or_false,
      List.append_eq_nil_iff,
      List.cons_ne_nil, and_false, false_or] at hmem
    rcases hmem with hmem | hmem
    · obtain rfl : p = [] := by simpa using congrArg List.dropLast hmem
      rfl
    · obtain rfl : p = ["projects"].map Str.ofString := by simpa using congrArg List.dropLast hmem
      rfl

def firstCommit : CommitRecord := ⟨1, manifestDigest, ⟨0⟩⟩

theorem previous_clean : Clean previous.toFileSystem where
  root := by decide
  agent := by decide
  destination := by decide
  collision := by decide
  noSpecial := fun p hp => by
    have hmem := Dict.mem_of_get? hp
    simp at hmem

/-- A link that names its own directory. -/
def linked : Snapshot where
  toTree := Tree.ofNodes
    [(["user"].map Str.ofString, .directory 0o755 0),
      (["user", "link"].map Str.ofString, .symlink 0o777 0 (Str.ofString "./notes"))]
    (by
      simp only [List.mem_cons, List.not_mem_nil, or_false]
      rintro x (rfl | rfl)
      · show ∀ name ∈ ["user"].map Str.ofString, isFileName name = true
        decide
      · show ∀ name ∈ ["user", "link"].map Str.ofString, isFileName name = true
        decide)
  ctimeNs := fun _ => 0
  inode := fun _ => 1

end Sample

/-- Restore leaves the recorded paths of the tree that was built, and no other path that the policy
includes. -/
theorem restore_undoes_build (sha : Sha256) {b : ManifestBuilder} (hb : b.Reachable sha)
    (t : Snapshot)
    (hfaithful : b.Faithful sha t) (now : Int) (sandbox : SandboxId) (created : IsoTime)
    (committed : CommitRecord)
    {built : BuiltManifest}
      (hbuild : b.build sha t.visits now committed.generation sandbox.text created.text =
      some built)
    {m : PersistenceManifest}
      (hdecode : ManifestDecoder.decode built.manifest.toJson sandbox.text committed.generation =
      .ok m)
    (fetch : Digest → Option Bytes) (hfetched : t.Fetched sha b.chunkSize fetch)
      (runtimeVersion : Str) (ws : Workspace) :
    (∀ workspace', restoreGeneration sha fetch sandbox.text runtimeVersion committed
      built.manifest.toJson ws.toFileSystem =
        some workspace' → Restored t.toTree workspace') ∧
      (Clean ws.toFileSystem → ∃ workspace',
        restoreGeneration sha fetch sandbox.text runtimeVersion committed built.manifest.toJson
        ws.toFileSystem = some workspace') :=
  ⟨fun _ h => restored_of_run hb hfaithful hbuild hdecode hfetched h,
    fun hclean => run_of_clean runtimeVersion hb hfaithful hbuild hdecode hfetched hclean⟩

open KiroCrew.Example Sample in
theorem restore_undoes_build_first : ∃ bm, built 0 = some bm ∧
    ∃ ws', restoreGeneration sha256 (fun _ => some []) sandbox.text
      (Str.ofString "1") firstCommit bm.manifest.toJson previous.toFileSystem = some ws' ∧
    Restored (tree 0).toTree ws' := by
  obtain ⟨bm, hbm⟩ := Option.isSome_iff_exists.1 (show (built 0).isSome = true by decide)
  have hdecode := (decode_build builder_reachable hbm).2 ⟨⟨by decide, by decide, by decide⟩, rfl⟩
  have hfetched : (tree 0).Fetched sha256 builder.chunkSize fun _ => some [] := by
    intro p hp node hnode data hdata
    have hmem := Dict.mem_of_get? hnode
    simp only [List.mem_cons, Prod.mk.injEq, List.not_mem_nil, or_false] at hmem
    have hnil : node.data = [] := by
      rcases hmem with ⟨-, rfl⟩ | ⟨-, rfl⟩ <;> rfl
    rw [hnil] at hdata
    simpa [readChunks, pieces, eq_comm] using hdata
  have h := restore_undoes_build sha256 builder_reachable (tree 0)
    (faithful_of_empty rfl) _ sandbox created firstCommit hbm
    hdecode (fun _ => some []) hfetched (Str.ofString "1") previous
  obtain ⟨ws', hws'⟩ := h.2 previous_clean
  exact ⟨bm, hbm, ws', hws', h.1 ws' hws'⟩

open KiroCrew.Example Sample in
/-- A link target that is not in normal form is not what the link had. -/
theorem link_target_changed : ¬ ∀ (sha : Sha256) (b : ManifestBuilder), b.Reachable sha →
    ∀ t : Snapshot, b.Faithful sha t →
    ∀ (now : Int) (sandbox : SandboxId) (created : IsoTime) (committed : CommitRecord) (bm :
    BuiltManifest),
    b.build sha t.visits now committed.generation sandbox.text created.text = some bm →
    ∀ m, ManifestDecoder.decode bm.manifest.toJson sandbox.text committed.generation = .ok m →
    ∀ fetch : Digest → Option Bytes, t.Fetched sha b.chunkSize fetch →
      ∀ (runtimeVersion : Str) (ws : Workspace) (ws' : FileSystem),
    restoreGeneration sha fetch sandbox.text runtimeVersion committed bm.manifest.toJson
      ws.toFileSystem = some ws' →
    ∀ p ∈ t.recorded, ∀ mode mtimeNs target, t.node p = some (.symlink mode mtimeNs target) →
      ∃ mode', ws'.node p = some (.symlink mode' mtimeNs target) := by
  intro h
  obtain ⟨bm, hbm⟩ := Option.isSome_iff_exists.1
    (show (builder.build sha256 linked.visits 0 firstCommit.generation sandbox.text
      created.text).isSome = true by decide +kernel)
  have hdecode := (decode_build builder_reachable hbm).2
    ⟨⟨by decide +kernel, by decide +kernel, by decide +kernel⟩, rfl⟩
  have hfetched : linked.Fetched sha256 builder.chunkSize fun _ => some [] := by
    intro p hp node hnode data hdata
    have hmem := Dict.mem_of_get? hnode
    simp only [List.mem_cons, Prod.mk.injEq, List.not_mem_nil, or_false] at hmem
    have hnil : node.data = [] := by
      rcases hmem with ⟨-, rfl⟩ | ⟨-, rfl⟩ <;> rfl
    rw [hnil] at hdata
    simpa [readChunks, pieces, eq_comm] using hdata
  obtain ⟨ws', hws'⟩ :=
    run_of_clean [] builder_reachable (faithful_of_empty rfl) hbm hdecode hfetched previous_clean
  have hmem : ["user", "link"].map Str.ofString ∈ linked.recorded := by decide +kernel
  have hnode : linked.node (["user", "link"].map Str.ofString) =
    some (.symlink 0o777 0 (Str.ofString "./notes")) := by decide +kernel
  obtain ⟨mode', hlink⟩ :=
    h _ _ builder_reachable _ (faithful_of_empty rfl) _ _ _ _ _ hbm _ hdecode _ hfetched _ _
      _ hws' _ hmem
    _ _ _ hnode
  have hrestored :=
    restored_of_run builder_reachable (faithful_of_empty rfl) hbm hdecode hfetched hws'
  have htarget := Option.some.inj (hlink.symm.trans (hrestored.recorded _ hmem _ hnode))
  have hnotes : (PosixPath.parse (Str.ofString "./notes")).str ≠ Str.ofString "./notes" := by
    decide +kernel
  exact hnotes (congrArg Node.target htarget).symm

end Restore

end KiroCrew
