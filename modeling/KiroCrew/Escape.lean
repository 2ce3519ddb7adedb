import KiroCrew.Links
import KiroCrew.Refusals

/-!
# Writing out stays in the stage

`safe_symlink_target` judges one link by the depth its target reaches in the text. `land` resolves a
path of a manifest through the links of the entries before it, taking everything else for a
directory; `composed` says that no entry's path, so resolved, goes up from the stage. Where it does
not, whatever `_materialize` creates, writes or gives a mode or a time lies in the stage
(`Contained`).
-/

namespace KiroCrew

open Restore (restoreStage)

/-- The targets of the links made so far, by their position in the stage. -/
abbrev Links := Path → Option Str

/-- Where a path of a manifest leads. -/
inductive Landing
  /-- Up from the stage. -/
  | outside
  /-- Through too many links. -/
  | refused
  | inside (r : Path)
deriving DecidableEq, Repr

namespace Links

section Definitions

variable (links : Links)

def landWith (followLast : Bool) (follow : Path → List Str → Landing) : Path → List Str → Landing
  | r, [] => .inside r
  | r, name :: names =>
    if name = dotDot then if r = [] then .outside else landWith followLast follow r.dropLast names
    else
      match links (r ++ [name]) with
      | none => landWith followLast follow (r ++ [name]) names
      | some target =>
        if names = [] ∧ followLast = false then .inside (r ++ [name])
          else follow r ((PosixPath.parse target).parts ++ names)

def land (followLast : Bool) : Nat → Path → List Str → Landing
  | 0 => links.landWith followLast fun _ _ => .refused
  | n + 1 => links.landWith followLast (land followLast n)

/-- The links after an entry that lands at `r`. -/
def after (e : ManifestEntry) (r : Path) : Links :=
  if e.type = .symlink then Function.update links r e.symlinkTarget else links

/-- Where the path of an entry leads; a link is made where it stands, not where one there leads. -/
def landing (e : ManifestEntry) : Landing :=
  links.land (e.type ≠ .symlink) FileSystem.maxSymlinks [] (PosixPath.parse e.path).parts

end Definitions

/-- No entry goes up from the stage, through the links of those before it. -/
def composed : Links → List ManifestEntry → Bool
  | _, [] => true
  | links, e :: es =>
    match links.landing e with
    | .outside => false
    | .refused => true
    | .inside r => composed (links.after e r) es

/-! ## Paths below a path -/

variable {links : Links} {followLast followLast' : Bool} {follow follow' : Path → List Str →
    Landing} {r : Path} {names more : List Str}

/-- What goes outside does so however the path continues. -/
theorem landWith_append (hmore : followLast = true → more ≠ [] ∨ followLast' = true)
    (hfollow : ∀ r names, follow r names = .outside → follow' r (names ++ more) = .outside)
    (h : links.landWith followLast follow r names = .outside) :
    links.landWith followLast' follow' r (names ++ more) = .outside := by
  induction names generalizing r with
  | nil => cases h
  | cons name names ih =>
    rw [List.cons_append]
    unfold landWith at h ⊢
    by_cases hname : name = dotDot
    · rw [if_pos hname] at h ⊢
      by_cases hr : r = []
      · rw [if_pos hr]
      · rw [if_neg hr] at h ⊢
        exact ih h
    · rw [if_neg hname] at h ⊢
      cases hlink : links (r ++ [name]) with
      | none =>
        rw [hlink] at h
        exact ih h
      | some target =>
        rw [hlink] at h
        simp only at h ⊢
        by_cases hlast : names = [] ∧ followLast = false
        · rw [if_pos hlast] at h
          cases h
        · rw [if_neg hlast] at h
          have hlast' : ¬ (names ++ more = [] ∧ followLast' = false) := by
            rintro ⟨hnil, hfalse⟩
            obtain ⟨hnames, hnil⟩ := List.append_eq_nil_iff.1 hnil
            cases hfollowLast : followLast with
            | false => exact hlast ⟨hnames, hfollowLast⟩
            | true =>
              rcases hmore hfollowLast with hne | htrue
              · exact hne hnil
              · rw [htrue] at hfalse
                cases hfalse
          rw [if_neg hlast', ← List.append_assoc]
          exact hfollow _ _ h

theorem land_append {budget : Nat} (hmore : followLast = true → more ≠ [] ∨ followLast' = true)
    (h : links.land followLast budget r names = .outside) :
    links.land followLast' budget r (names ++ more) = .outside := by
  induction budget generalizing r names with
  | zero => exact landWith_append hmore (fun _ _ hfollow => by cases hfollow) h
  | succ budget ih => exact landWith_append hmore (fun _ _ hfollow => ih hfollow) h

end Links

/-! ## Positions in the stage -/

namespace FileSystem

/-- The links below `base` are these, and they are relative. -/
structure Mirrors (fs : FileSystem) (base : Path) (links : Links) : Prop where
  shown : ∀ r n, fs.node (base ++ r) = some n → n.kind = .symlink → links r = some n.target
  there : ∀ r target, links r = some target → ∃ n, fs.node (base ++ r) = some n ∧
    n.kind = .symlink ∧ n.target = target
  relative : ∀ r target, links r = some target → (PosixPath.parse target).isAbsolute = false

variable {fs fs' : FileSystem} {base q r : Path} {links : Links} {followLast : Bool}
    {names : List Str}
  {follow : Path → List Str → Except Errno Path} {follow' : Path → List Str → Landing}

/-- What does not go up from the stage has its position there. -/
theorem Mirrors.locateWith (h : fs.Mirrors base links)
    (hfollow : ∀ r names, follow' r names ≠ .outside → follow (base ++ r) names = .ok q →
    ∃ r', follow' r names = .inside r' ∧ q = base ++ r')
    (hland : links.landWith followLast follow' r names ≠ .outside)
      (hq : fs.locateWith followLast follow (base ++ r) names = .ok q) :
    ∃ r', links.landWith followLast follow' r names = .inside r' ∧ q = base ++ r' := by
  induction names generalizing r with
  | nil => exact ⟨r, rfl, (Except.ok.inj hq).symm⟩
  | cons name names ih =>
    unfold Links.landWith at hland ⊢
    by_cases hname : name = dotDot
    · subst hname
      rw [if_pos rfl] at hland ⊢
      rw [locateWith_dotDot] at hq
      by_cases hr : r = []
      · rw [if_pos hr] at hland
        exact absurd rfl hland
      · rw [if_neg hr] at hland ⊢
        rw [List.dropLast_append_of_ne_nil hr] at hq
        exact ih hland hq
    · rw [if_neg hname] at hland ⊢
      cases hlink : links (r ++ [name]) with
      | some target =>
        obtain ⟨n, hn, hkind, rfl⟩ := h.there _ _ hlink
        rw [hlink] at hland
        simp only at hland ⊢
        rw [← List.append_assoc] at hn
        cases n with
        | symlink mode mtimeNs target =>
          rw [locateWith_symlink hname hn] at hq
          by_cases hlast : names = [] ∧ followLast = false
          · rw [if_pos hlast] at hq ⊢
            exact ⟨r ++ [name], rfl, by rw [← Except.ok.inj hq, List.append_assoc]⟩
          · rw [if_neg hlast] at hq hland ⊢
            have hrelative : (PosixPath.parse target).isAbsolute = false := h.relative _ _ hlink
            rw [hrelative] at hq
            exact hfollow _ _ hland hq
        | _ => cases hkind
      | none =>
        rw [hlink] at hland
        simp only at hland ⊢
        by_cases hdir : fs.isDirectory (base ++ r ++ [name]) = true
        · rw [locateWith_directory hname hdir, List.append_assoc] at hq
          exact ih hland hq
        · have hother : ∀ n, fs.node (base ++ r ++ [name]) = some n → n.kind ≠ .directory ∧
              n.kind ≠ .symlink := by
            intro n hn
            refine ⟨fun hkind => hdir ?_, fun hkind => ?_⟩
            · cases n with
              | directory mode mtimeNs => exact isDirectory_iff.2 ⟨mode, mtimeNs, hn⟩
              | _ => cases hkind
            · rw [List.append_assoc] at hn
              have := h.shown _ n hn hkind
              rw [hlink] at this
              cases this
          obtain ⟨rfl, rfl⟩ := locateWith_other hname hother hq
          exact ⟨r ++ [name], rfl, by rw [List.append_assoc]⟩

theorem Mirrors.locate {budget : Nat} (h : fs.Mirrors base links)
    (hland : links.land followLast budget r names ≠ .outside)
    (hq : fs.locate followLast budget (base ++ r) names = .ok q) :
    ∃ r', links.land followLast budget r names = .inside r' ∧ q = base ++ r' := by
  induction budget generalizing r names with
  | zero => exact h.locateWith (fun _ _ _ hfollow => by cases hfollow) hland hq
  | succ budget ih => exact h.locateWith (fun _ _ hne hfollow => ih hne hfollow) hland hq

theorem Mirrors.adds (h : fs.Mirrors base links)
    (hadds : Adds fs fs' fun _ n => n.kind ≠ .symlink) : fs'.Mirrors base links where
  shown := fun r n' hn' hkind => by
    rcases hn : fs.node (base ++ r) with - | n
    · exact absurd hkind (hadds.new _ _ hn hn')
    · obtain ⟨n'', hn'', hkind', htarget⟩ := hadds.grown _ _ hn
      rw [hn'] at hn''
      cases hn''
      rw [htarget]
      exact h.shown r n hn (hkind' ▸ hkind)
  there := fun r target hlink => by
    obtain ⟨n, hn, hkind, rfl⟩ := h.there r target hlink
    obtain ⟨n', hn', hkind', htarget⟩ := hadds.grown _ _ hn
    exact ⟨n', hn', hkind'.trans hkind, htarget⟩
  relative := h.relative

theorem Mirrors.symlink {target : Str} (h : fs.Mirrors base links)
    (habsolute : (PosixPath.parse target).isAbsolute = false)
    (hrun : fs.symlink target (base ++ r) = some fs') :
    fs'.Mirrors base (Function.update links r (some target)) := by
  obtain ⟨hnone, ⟨n₀, hn₀⟩, hadds⟩ := symlink_adds hrun
  obtain ⟨-, hkind₀, htarget₀⟩ := hadds.new _ _ hnone hn₀
  refine ⟨fun r' n' hn' hkind => ?_, fun r' target' hlink => ?_, fun r' target' hlink => ?_⟩
  · by_cases hr : r' = r
    · subst hr
      rw [hn₀] at hn'
      cases hn'
      rw [Function.update_self, htarget₀]
    · rw [Function.update_of_ne hr]
      rcases hn : fs.node (base ++ r') with - | n
      · exact absurd (List.append_cancel_left (hadds.new _ _ hn hn').1) hr
      · obtain ⟨n'', hn'', hkind', htarget⟩ := hadds.grown _ _ hn
        rw [hn'] at hn''
        cases hn''
        rw [htarget]
        exact h.shown r' n hn (hkind' ▸ hkind)
  · by_cases hr : r' = r
    · subst hr
      rw [Function.update_self] at hlink
      cases hlink
      exact ⟨n₀, hn₀, hkind₀, htarget₀⟩
    · rw [Function.update_of_ne hr] at hlink
      obtain ⟨n, hn, hkind, rfl⟩ := h.there r' target' hlink
      obtain ⟨n', hn', hkind', htarget⟩ := hadds.grown _ _ hn
      exact ⟨n', hn', hkind'.trans hkind, htarget⟩
  · by_cases hr : r' = r
    · subst hr
      rw [Function.update_self] at hlink
      cases hlink
      exact habsolute
    · rw [Function.update_of_ne hr] at hlink
      exact h.relative r' target' hlink

end FileSystem

/-! ## What is written -/

open FileSystem (Traced linked onPath maxSymlinks)

/-- All that was acted on lies in the stage. -/
def InStage (root : Path) (w : Traced) : Prop := ∀ q ∈ w.2, root ++ restoreStage <+: q

/-- While entries are written out: the stage is where it was, its links are these, the paths in
`made` lead to directories in it. -/
structure Contained (root : Path) (links : Links) (made : List Path) (w : Traced) : Prop where
  above : ∀ r, r <+: restoreStage → w.1.isDirectory (root ++ r) = true
  mirrors : w.1.Mirrors (root ++ restoreStage) links
  made : ∀ p ∈ made, ∃ r, w.1.locate true maxSymlinks root (restoreStage ++ p) =
    .ok (root ++ restoreStage ++ r) ∧
    w.1.isDirectory (root ++ restoreStage ++ r) = true
  inside : InStage root w

section Steps

variable {root p q r : Path} {links : Links} {made : List Path} {w : Traced} {fs' : FileSystem}
    {followLast : Bool}
  {f : FileSystem → Path → Option FileSystem}

theorem Contained.locate_stage (h : Contained root links made w) {budget : Nat} :
    w.1.locate followLast budget root (restoreStage ++ p) = w.1.locate followLast budget
      (root ++ restoreStage) p :=
  FileSystem.locate_directories (by decide) h.above

theorem Contained.locate (h : Contained root links made w)
    (hland : links.land followLast maxSymlinks [] p ≠ .outside)
    (hq : w.1.locate followLast maxSymlinks root (restoreStage ++ p) = .ok q) :
    ∃ r, links.land followLast maxSymlinks [] p = .inside r ∧ q = root ++ restoreStage ++ r := by
  rw [h.locate_stage] at hq
  exact h.mirrors.locate hland (by simpa using hq)

theorem Contained.forget (h : Contained root links (p :: made) w) : Contained root links made w :=
  { h with made := fun p hp => h.made p (List.mem_cons_of_mem _ hp) }

theorem Contained.adds (h : Contained root links made w) (hadds : FileSystem.Adds w.1 fs' fun _ n =>
    n.kind ≠ .symlink) :
    Contained root links made (fs', w.2 ++ [root ++ restoreStage ++ r]) where
  above := fun r hr => hadds.grown.isDirectory (h.above r hr)
  mirrors := h.mirrors.adds hadds
  made := fun p hp => by
    obtain ⟨r, hr, hdir⟩ := h.made p hp
    refine ⟨r, FileSystem.locate_grown hadds.grown (fun _ hnone => ?_) hr,
      hadds.grown.isDirectory hdir⟩
    exact absurd hnone (FileSystem.node_ne_none_of_isDirectory hdir)
  inside := fun q hq => by
    rcases List.mem_append.1 hq with hq | hq
    · exact h.inside q hq
    · rw [List.mem_singleton.1 hq]
      exact List.prefix_append _ _

/-- A call that succeeds does so at the position of its path. -/
theorem onPath_triple {P : Traced → Prop} {Q : Traced → Prop} {E : OSError → Traced → Prop}
    (hok : ∀ w q fs', P w → w.1.locate followLast maxSymlinks root p = .ok q → f w.1 q = some fs' →
    Q (fs', w.2 ++ [q]))
    (herror : ∀ w errno, P w →
      (∀ q, w.1.locate followLast maxSymlinks root p = .ok q → errno = w.1.errnoAt q) →
      E { errno := errno } w) :
    Act.Triple P (onPath root followLast p f) (fun _ => Q) E := by
  intro w hw
  unfold onPath
  rcases hq : w.1.locate followLast maxSymlinks root p with errno | q
  · refine ⟨fun u w' hrun => (by cases hrun), fun e w' hrun => ?_⟩
    cases hrun
    refine herror w errno hw fun q hq' => ?_
    rw [hq] at hq'
    cases hq'
  · simp only
    rcases hrun : f w.1 q with - | fs'
    · refine ⟨fun u w' hrun => (by cases hrun), fun e w' hrun => ?_⟩
      cases hrun
      refine herror w _ hw fun q' hq' => ?_
      rw [hq] at hq'
      rw [Except.ok.inj hq']
    · refine ⟨fun u w' hrun' => ?_, fun e w' hrun => (by cases hrun)⟩
      cases hrun'
      exact hok w q fs' hw hq hrun

theorem onPath_contained (hf : ∀ fs fs' q, f fs q = some fs' → FileSystem.Adds fs fs' fun _ n =>
    n.kind ≠ .symlink)
    (hland : links.land followLast maxSymlinks [] p ≠ .outside) :
    Act.Triple (Contained root links made) (onPath root followLast (restoreStage ++ p) f)
      (fun _ w => Contained root links made w ∧ ∃ r, links.land followLast maxSymlinks
        [] p = .inside r)
      fun _ => Contained root links made := by
  refine onPath_triple (fun w q fs' hw hq hrun => ?_) fun w _ hw _ => hw
  obtain ⟨r, hr, rfl⟩ := hw.locate hland hq
  exact ⟨hw.adds (hf _ _ _ hrun), r, hr⟩

theorem does_contained {c : Call}
    (hc : (linked root).call c = onPath root followLast (restoreStage ++ p) f)
    (hf : ∀ fs fs' q, f fs q = some fs' → FileSystem.Adds fs fs' fun _ _ => False)
    (hland : links.land followLast maxSymlinks [] p ≠ .outside) :
    Act.Triple (Contained root links made) ((linked root).does c)
      (fun _ => Contained root links made)
      fun _ => Contained root links made := by
  unfold Os.does
  rw [hc]
  have hquiet : ∀ fs fs' q, f fs q = some fs' → FileSystem.Adds fs fs' fun _ n =>
      n.kind ≠ .symlink :=
    fun fs fs' q hrun => (hf fs fs' q hrun).mono fun _ _ hnone => hnone.elim
  exact Act.Triple.mapError
    ((onPath_contained hquiet hland).conseq (fun _ hw => hw) (fun _ _ hw => hw.1) fun _ _ hw => hw)

theorem does_at {c : Call}
    (hc : (linked root).call c = onPath root followLast (restoreStage ++ p) f)
    (hf : ∀ fs fs' q, f fs q = some fs' → FileSystem.Adds fs fs' fun _ _ => False) :
    Act.Triple (fun w => Contained root links made w ∧
        ∃ r, w.1.locate followLast maxSymlinks root (restoreStage ++ p) =
          .ok (root ++ restoreStage ++ r))
      ((linked root).does c) (fun _ => Contained root links made) fun _ =>
          Contained root links made := by
  unfold Os.does
  rw [hc]
  refine Act.Triple.mapError (onPath_triple (fun w q fs' ⟨hw, r, hr⟩ hq hrun => ?_) fun w _ hw _ =>
    hw.1)
  rw [hr] at hq
  cases hq
  exact hw.adds ((hf _ _ _ hrun).mono fun _ _ hnone => hnone.elim)

theorem stage_ne_nil : root ++ restoreStage ++ r ≠ [] := by
  simp [restoreStage]

theorem mkdir_contained (hland : links.land false maxSymlinks [] p ≠ .outside) :
    Act.Triple (Contained root links made) ((linked root).does (.mkdir (restoreStage ++ p)))
      (fun _ => Contained root links (p :: made))
      fun _ => Contained root links made := by
  refine Act.Triple.mapError (onPath_triple (fun w q fs' hw hq hrun => ?_) fun w _ hw _ => hw)
  obtain ⟨r, -, rfl⟩ := hw.locate hland hq
  obtain ⟨hdir, hadds⟩ := FileSystem.makeDir_adds stage_ne_nil hrun
  have hw' : Contained root links made (fs', w.2 ++ [root ++ restoreStage ++ r]) :=
    hw.adds (hadds.mono fun _ n ⟨_, hn⟩ => by rw [hn]; decide)
  refine { hw' with made := fun p' hp' => ?_ }
  rcases List.mem_cons.1 hp' with rfl | hp'
  · have hat : fs'.locate false maxSymlinks root (restoreStage ++ p') =
        .ok (root ++ restoreStage ++ r) :=
      FileSystem.locate_grown hadds.grown (fun hfalse => Bool.noConfusion hfalse) hq
    refine ⟨r, FileSystem.locate_follow (fun n hn hkind => ?_) hat, hdir⟩
    obtain ⟨mode, mtimeNs, hnode⟩ := FileSystem.isDirectory_iff.1 hdir
    rw [hnode] at hn
    cases hn
    cases hkind
  · exact hw'.made p' hp'

theorem land_of_append {more : List Str} (hmore : more ≠ [])
    (h : links.land followLast maxSymlinks [] (p ++ more) ≠ .outside) :
    links.land true maxSymlinks [] p ≠ .outside :=
  fun hout => h (Links.land_append (fun _ => Or.inl hmore) hout)

theorem land_false (h : links.land true maxSymlinks [] p ≠ .outside) :
    links.land false maxSymlinks [] p ≠ .outside := by
  intro hout
  refine h ?_
  have := @Links.land_append links false true [] p [] maxSymlinks (fun _ => Or.inr rfl) hout
  rwa [List.append_nil] at this

/-- What is there already is a directory, maybe behind a link. -/
theorem mkdirExistOk_contained (hland : links.land true maxSymlinks [] p ≠ .outside) :
    Act.Triple (Contained root links made) ((linked root).mkdirExistOk (restoreStage ++ p))
      (fun _ => Contained root links (p :: made))
      fun _ => Contained root links made := by
  refine Act.Triple.attempt (mkdir_contained (land_false hland)) fun e => ?_
  cases e with
  | os error =>
    refine Act.Triple.ite (fun _ => Act.Triple.raise fun _ hw => hw) fun _ => ?_
    refine Act.Triple.bind (Q := fun isDir w => Contained root links made w ∧
      isDir = (linked root).isDir (restoreStage ++ p) w)
      (Act.Triple.look fun w hw => ⟨hw, rfl⟩) fun isDir => ?_
    refine Act.Triple.ite (fun htrue => Act.Triple.pure fun w hw => ?_) fun _ =>
      Act.Triple.raise fun _ hw => hw.1
    obtain ⟨hw, hisDir⟩ := hw
    rw [htrue] at hisDir
    simp only [linked, FileSystem.isAt] at hisDir
    rcases hq : w.1.locate true maxSymlinks root (restoreStage ++ p) with errno | q
    · rw [hq] at hisDir
      cases hisDir
    · obtain ⟨r, -, rfl⟩ := hw.locate hland hq
      rw [hq] at hisDir
      refine { hw with made := fun p' hp' => ?_ }
      rcases List.mem_cons.1 hp' with rfl | hp'
      · exact ⟨r, hq, hisDir.symm⟩
      · exact hw.made p' hp'
  | _ => exact Act.Triple.raise fun _ hw => hw

theorem mkdir_stage : Act.Triple (Contained root links made)
    ((linked root).does (.mkdir restoreStage)) (fun _ => Contained root links made)
    fun e w => Contained root links made w ∧ e = .os { errno := .other } := by
  have hat : ∀ w, Contained root links made w → w.1.locate false maxSymlinks root restoreStage =
      .ok (root ++ restoreStage) := by
    intro w hw
    have := @Contained.locate_stage root [] links made w false hw maxSymlinks
    rw [List.append_nil] at this
    exact this
  refine Act.Triple.mapError (onPath_triple (fun w q fs' hw hq hrun => ?_) fun w errno hw herrno =>
    ⟨hw, ?_⟩)
  · rw [hat w hw] at hq
    cases hq
    have hnone : w.1.makeDir (root ++ restoreStage) = none := by
      unfold FileSystem.makeDir FileSystem.mkdir FileSystem.free
      rcases hn : w.1.node (root ++ restoreStage) with - | n
      · exact absurd hn (FileSystem.node_ne_none_of_isDirectory (hw.above _ List.prefix_rfl))
      · simp [restoreStage]
    rw [hnone] at hrun
    cases hrun
  · rw [herrno _ (hat w hw), FileSystem.errnoAt,
      if_neg (FileSystem.node_ne_none_of_isDirectory (hw.above _ List.prefix_rfl))]

theorem mkdirParents_stage : Act.Triple (Contained root links made)
    ((linked root).mkdirParents restoreStage)
    (fun _ => Contained root links made) fun _ => Contained root links made := by
  refine Act.Triple.attempt mkdir_stage fun e => ?_
  intro w hw
  obtain ⟨hw, rfl⟩ := hw
  have hrun : Act.Triple (Contained root links made) (do
      if ← Act.look ((linked root).isDir restoreStage) then pure ()
        else Act.raise (.os { errno := .other }) : Effect Traced Unit)
      (fun _ => Contained root links made) fun _ => Contained root links made :=
    Act.Triple.bind (Act.Triple.look fun _ hw => hw) fun isDir =>
      Act.Triple.ite (fun _ => Act.Triple.pure fun _ hw => hw) fun _ =>
        Act.Triple.raise fun _ hw => hw
  exact hrun w hw

theorem mkdirParents_contained
    (hland : ∀ r, r <+: p → links.land true maxSymlinks [] r ≠ .outside) :
    Act.Triple (Contained root links made) ((linked root).mkdirParents (restoreStage ++ p))
      (fun _ => Contained root links made)
      fun _ => Contained root links made := by
  induction p using List.reverseRec with
  | nil => simpa using mkdirParents_stage
  | append_singleton p name ih =>
    have hp : links.land true maxSymlinks [] (p ++ [name]) ≠ .outside := hland _ List.prefix_rfl
    have ih := ih fun r hr => hland r (hr.trans (List.prefix_append _ _))
    have hforget : ∀ (u : Unit) w, Contained root links ((p ++ [name]) :: made) w →
      Contained root links made w := fun _ _ hw => hw.forget
    have hrev : (restoreStage ++ (p ++ [name])).reverse = name :: (restoreStage ++ p).reverse := by
      simp
    have hback : (name :: (restoreStage ++ p).reverse).reverse = restoreStage ++ (p ++ [name]) := by
      rw [← hrev, List.reverse_reverse]
    unfold Os.mkdirParents
    rw [hrev, Os.mkdirParentsRev, hback]
    refine Act.Triple.attempt
      ((mkdir_contained (land_false hp)).conseq (fun _ hw => hw) hforget fun _ _ hw => hw) fun e =>
      ?_
    cases e with
    | os error =>
      refine Act.Triple.ite (fun _ => ih.bind fun _ => ?_) fun _ => ?_
      · exact (mkdirExistOk_contained hp).conseq (fun _ hw => hw) hforget fun _ _ hw => hw
      · refine Act.Triple.bind (Q := fun _ => Contained root links made)
          (Act.Triple.look fun _ hw => hw) fun isDir => ?_
        exact Act.Triple.ite (fun _ => Act.Triple.pure fun _ hw => hw) fun _ =>
          Act.Triple.raise fun _ hw => hw
    | _ => exact Act.Triple.raise fun _ hw => hw

theorem symlink_contained {target : Str} (habsolute : (PosixPath.parse target).isAbsolute = false)
    (hland : links.land false maxSymlinks [] p ≠ .outside) :
    Act.Triple (Contained root links made)
      ((linked root).does (.symlink target (restoreStage ++ p)))
      (fun _ w => ∃ r, links.land false maxSymlinks [] p = .inside r ∧
        Contained root (Function.update links r (some target)) made w ∧
        w.1.locate false maxSymlinks root (restoreStage ++ p) = .ok (root ++ restoreStage ++ r))
      fun _ => Contained root links made := by
  refine Act.Triple.mapError ?_
  show Act.Triple _ (if target = [] then Act.raise { errno := .missing } else
    onPath root false (restoreStage ++ p) fun fs q => fs.symlink target q) _ _
  refine Act.Triple.ite (fun _ => Act.Triple.raise fun _ hw => hw) fun _ => ?_
  refine onPath_triple (fun w q fs' hw hq hrun => ?_) fun w _ hw _ => hw
  obtain ⟨r, hr, rfl⟩ := hw.locate hland hq
  obtain ⟨hnone, -, hadds⟩ := FileSystem.symlink_adds hrun
  refine ⟨r, hr, ?_, FileSystem.locate_grown hadds.grown (fun hfalse => Bool.noConfusion hfalse) hq⟩
  refine ⟨fun r' hr' => hadds.grown.isDirectory (hw.above r' hr'),
    hw.mirrors.symlink habsolute hrun, fun p' hp' => ?_, fun q' hq' => ?_⟩
  · obtain ⟨r', hr', hdir⟩ := hw.made p' hp'
    refine ⟨r', FileSystem.locate_grown hadds.grown (fun _ hnone => ?_) hr',
      hadds.grown.isDirectory hdir⟩
    exact absurd hnone (FileSystem.node_ne_none_of_isDirectory hdir)
  · rcases List.mem_append.1 hq' with hq' | hq'
    · exact hw.inside q' hq'
    · rw [List.mem_singleton.1 hq']
      exact List.prefix_append _ _

end Steps

/-! ## Entries -/

section Entries

variable {root : Path} {links : Links} {made : List Path} {engine : RestoreEngine Traced}
    {e : ManifestEntry} {s : Step}

/-- What the decoder makes sure of. -/
structure Accepted (e : ManifestEntry) : Prop where
  parts : (PosixPath.parse e.path).parts ≠ []
  relative : ∀ target, e.symlinkTarget = some target → (PosixPath.parse target).isAbsolute = false

/-- What Python refuses changes nothing. -/
theorem run_triple {W : Type} {os : Os W} {P : W → Prop} {Q : Unit → W → Prop}
    {E : Raised → W → Prop} (hcall : Act.Triple P (s.call os) Q E)
    (hrefused : ∀ r w, P w → E r w) : Act.Triple P (s.run os) Q E := by
  unfold Step.run
  split
  · exact Act.Triple.raise (hrefused _)
  · exact hcall

/-- The directories with an entry before. -/
def madeAfter (made : List Path) (e : ManifestEntry) : List Path :=
  if e.type = .directory then (PosixPath.parse e.path).parts :: made else made

theorem entry_contained (hos : engine.os = linked root) (haccepted : Accepted e)
    (hlanding : links.landing e ≠ .outside) :
    Act.Triple (Contained root links made)
      (Act.each (Step.run engine.os) (engine.entrySteps restoreStage e))
      (fun _ w => ∃ r, links.landing e = .inside r ∧
          Contained root (links.after e r) (madeAfter made e) w) fun _ => InStage root := by
  rw [hos]
  have hparts : (PosixPath.parse e.path).parts.dropLast ++
    [(PosixPath.parse e.path).parts.getLast haccepted.parts] =
      (PosixPath.parse e.path).parts := List.dropLast_append_getLast _
  have hparents : Act.Triple (Contained root links made)
      ((Step.mkdirParents (restoreStage ++ (PosixPath.parse e.path).parts).dropLast).run
        (linked root))
      (fun _ => Contained root links made) fun _ => Contained root links made := by
    rw [List.dropLast_append_of_ne_nil haccepted.parts]
    refine run_triple (mkdirParents_contained fun r hr => ?_) fun _ _ hw => hw
    obtain ⟨more, hmore⟩ := hr
    have hfull : links.land (e.type ≠ .symlink) maxSymlinks []
        (r ++ (more ++ [(PosixPath.parse e.path).parts.getLast haccepted.parts])) ≠ .outside := by
      rw [← List.append_assoc, hmore, hparts]
      exact hlanding
    exact land_of_append (by simp) hfull
  have hinside : ∀ (r : Raised) w, Contained root links made w →
    InStage root w := fun _ _ hw => hw.inside
  unfold RestoreEngine.entrySteps
  refine (hparents.conseq (fun _ hw => hw) (fun _ _ hw => hw) hinside).bind fun _ => ?_
  cases htype : e.type with
  | directory =>
    have hfollow : links.landing e = links.land true maxSymlinks []
      (PosixPath.parse e.path).parts := by simp [Links.landing, htype]
    rw [hfollow] at hlanding ⊢
    have hmkdir : Act.Triple (Contained root links made)
        ((Step.mkdir (restoreStage ++ (PosixPath.parse e.path).parts)).run (linked root))
        (fun _ => Contained root links ((PosixPath.parse e.path).parts :: made)) fun _ =>
            Contained root links made :=
      run_triple (mkdirExistOk_contained hlanding) fun _ _ hw => hw
    refine (hmkdir.conseq (fun _ hw => hw) (fun _ _ hw => hw) hinside).bind fun _ =>
      Act.Triple.pure fun w hw => ?_
    obtain ⟨q, hq, -⟩ := hw.made _ List.mem_cons_self
    obtain ⟨r, hr, -⟩ := hw.locate hlanding hq
    exact ⟨r, hr, by simpa [Links.after, madeAfter, htype] using hw⟩
  | symlink =>
    have hfollow : links.landing e = links.land false maxSymlinks []
      (PosixPath.parse e.path).parts := by simp [Links.landing, htype]
    rw [hfollow] at hlanding ⊢
    cases htarget : e.symlinkTarget with
    | none =>
      have hraise : Act.Triple (Contained root links made)
        ((Step.raise (.validation "Symlink target is missing.")).run (linked root))
          (fun _ _ => False) fun _ => InStage root := Act.Triple.raise fun _ hw => hw.inside
      exact hraise.bind fun _ => Act.Triple.pure fun _ hw => hw.elim
    | some target =>
      have hsymlink :=
        run_triple (s := .symlink target (restoreStage ++ (PosixPath.parse e.path).parts))
        (@symlink_contained root _ _ made _
          (haccepted.relative target htarget) hlanding) fun _ _ hw => hw
      refine (hsymlink.conseq (fun _ hw => hw) (fun _ _ hw => hw) hinside).bind fun _ =>
        Act.Triple.of_exists fun r => ?_
      have hutime : Act.Triple
        (fun w => Contained root (Function.update links r (some target)) made w ∧
            ∃ r, w.1.locate false maxSymlinks root
            (restoreStage ++ (PosixPath.parse e.path).parts) = .ok (root ++ restoreStage ++ r))
          ((Step.utime (restoreStage ++ (PosixPath.parse e.path).parts) e.mtimeNs false).run
            (linked root))
          (fun _ => Contained root (Function.update links r (some target)) made) fun _ =>
              InStage root :=
        run_triple ((does_at (f := fun fs q => fs.utime q e.mtimeNs) rfl fun _ _ _ hrun =>
          FileSystem.utime_adds hrun).conseq
          (fun _ hw => hw) (fun _ _ hw => hw) fun _ _ hw => hw.inside) fun _ _ hw => hw.1.inside
      have hafter : links.after e r = Function.update links r (some target) := by
        rw [Links.after, if_pos htype, htarget]
      have hmade : madeAfter made e = made := by simp [madeAfter, htype]
      intro w ⟨hr, hw, hat⟩
      have hrest := hutime.bind (f := fun _ => Pure.pure ())
        (R := fun _ w => ∃ r, links.land false maxSymlinks [] (PosixPath.parse e.path).parts =
        .inside r ∧
        Contained root (links.after e r) (madeAfter made e) w) fun _ =>
        Act.Triple.pure fun w' hw' => ⟨r, hr, by rwa [hafter, hmade]⟩
      exact hrest w ⟨hw, r, hat⟩
  | file =>
    have hfollow : links.landing e = links.land true maxSymlinks []
      (PosixPath.parse e.path).parts := by simp [Links.landing, htype]
    rw [hfollow] at hlanding ⊢
    have hopen : Act.Triple (Contained root links made)
        ((Step.openWrite (restoreStage ++ (PosixPath.parse e.path).parts)).run (linked root))
        (fun _ w => Contained root links made w ∧ ∃ r, links.land true maxSymlinks []
          (PosixPath.parse e.path).parts = .inside r)
        fun _ => Contained root links made :=
      run_triple (Act.Triple.mapError
          (onPath_contained (fun _ _ _ hrun =>
          (FileSystem.openWrite_adds hrun).mono fun _ _ hn => by
        rw [hn]
        decide) hlanding)) fun _ _ hw => hw
    refine (hopen.conseq (fun _ hw => hw) (fun _ _ hw => hw) hinside).bind fun _ =>
      Act.Triple.assuming fun ⟨r, hr⟩ => ?_
    have hsteps : Act.Triple (Contained root links made)
        (Act.each (Step.run (linked root))
          (engine.chunkSteps (restoreStage ++ (PosixPath.parse e.path).parts) e [] e.chunks))
        (fun _ => Contained root links made) fun _ => Contained root links made := by
      refine Act.Triple.each fun s hs => run_triple ?_ fun _ _ hw => hw
      rcases RestoreEngine.mem_chunkSteps hs with ⟨data, rfl⟩ | rfl | rfl | ⟨r, rfl⟩
      · exact does_contained (f := fun fs q => fs.write q data) rfl
          (fun _ _ _ hrun => FileSystem.write_adds hrun) hlanding
      · exact does_contained (f := fun fs q => fs.chmod q e.mode) rfl
          (fun _ _ _ hrun => FileSystem.chmod_adds hrun) hlanding
      · exact does_contained (f := fun fs q => fs.utime q e.mtimeNs) rfl
          (fun _ _ _ hrun => FileSystem.utime_adds hrun) hlanding
      · exact Act.Triple.raise fun _ hw => hw
    exact hsteps.conseq (fun _ hw => hw)
      (fun _ w hw => ⟨r, hr, by simpa [Links.after, madeAfter, htype] using hw⟩) hinside

theorem entries_contained (hos : engine.os = linked root) {entries : List ManifestEntry}
    (haccepted : ∀ e ∈ entries, Accepted e)
    (hcomposed : Links.composed links entries = true) :
    Act.Triple (Contained root links made)
      (Act.each (Step.run engine.os) (entries.flatMap (engine.entrySteps restoreStage)))
      (fun _ w => ∃ links', Contained root links' (entries.foldl madeAfter made) w) fun _ =>
          InStage root := by
  induction entries generalizing links made with
  | nil => exact Act.Triple.pure fun _ hw => ⟨links, hw⟩
  | cons e entries ih =>
    rw [List.flatMap_cons]
    unfold Links.composed at hcomposed
    cases hlanding : links.landing e with
    | outside =>
      rw [hlanding] at hcomposed
      cases hcomposed
    | refused =>
      have hentry := @entry_contained root _ made _ _ hos (haccepted e List.mem_cons_self)
        (by rw [hlanding]; exact nofun)
      refine Act.Triple.each_append hentry fun _ => Act.Triple.of_exists fun r w hw => ?_
      rw [hlanding] at hw
      cases hw.1
    | inside r =>
      rw [hlanding] at hcomposed
      have hentry := @entry_contained root _ made _ _ hos (haccepted e List.mem_cons_self)
        (by rw [hlanding]; exact nofun)
      refine Act.Triple.each_append hentry fun _ => Act.Triple.of_exists fun r' => ?_
      refine (ih (fun e' he' => haccepted e' (List.mem_cons_of_mem _ he')) hcomposed).conseq
        (fun w hw => ?_) (fun _ _ hw => hw) fun _ _ hw => hw
      rw [hlanding] at hw
      obtain ⟨hr, hw⟩ := hw
      cases hr
      exact hw

theorem mem_madeAfter {entries : List ManifestEntry} (he : e ∈ entries)
    (htype : e.type = .directory) :
    (PosixPath.parse e.path).parts ∈ entries.foldl madeAfter made := by
  have hkeep : ∀ (entries : List ManifestEntry) (made : List Path) p, p ∈ made →
      p ∈ entries.foldl madeAfter made := by
    intro entries
    induction entries with
    | nil => exact fun _ _ hp => hp
    | cons e entries ih =>
      intro made p hp
      refine ih _ p ?_
      unfold madeAfter
      split
      · exact List.mem_cons_of_mem _ hp
      · exact hp
  induction entries generalizing made with
  | nil => cases he
  | cons e' entries ih =>
    rcases List.mem_cons.1 he with rfl | he
    · refine hkeep entries _ _ ?_
      rw [madeAfter, if_pos htype]
      exact List.mem_cons_self
    · exact ih he

/-- At the end the directories get their modes and times where they are. -/
theorem directories_contained (hos : engine.os = linked root) {entries : List ManifestEntry}
    (hmade : ∀ e ∈ entries, (PosixPath.parse e.path).parts ∈ made) :
    Act.Triple (Contained root links made)
      (Act.each (Step.run engine.os) (entries.flatMap (RestoreEngine.directorySteps restoreStage)))
      (fun _ => Contained root links made) fun _ => Contained root links made := by
  rw [hos]
  refine Act.Triple.each fun s hs => run_triple ?_ fun _ _ hw => hw
  obtain ⟨e, he, hs⟩ := List.mem_flatMap.1 hs
  have hat : ∀ w, Contained root links made w → Contained root links made w ∧
      ∃ r, w.1.locate true maxSymlinks root (restoreStage ++ (PosixPath.parse e.path).parts) =
      .ok (root ++ restoreStage ++ r) := by
    intro w hw
    obtain ⟨r, hr, -⟩ := hw.made _ (hmade e he)
    exact ⟨hw, r, hr⟩
  simp only [RestoreEngine.directorySteps, List.mem_cons, List.not_mem_nil, or_false] at hs
  rcases hs with rfl | rfl
  · exact (does_at (f := fun fs q => fs.chmod q e.mode) rfl fun _ _ _ hrun =>
      FileSystem.chmod_adds hrun).conseq
      hat (fun _ _ hw => hw) fun _ _ hw => hw
  · exact (does_at (f := fun fs q => fs.utime q e.mtimeNs) rfl fun _ _ _ hrun =>
      FileSystem.utime_adds hrun).conseq
      hat (fun _ _ hw => hw) fun _ _ hw => hw

theorem materialize_contained (hos : engine.os = linked root) {entries : List ManifestEntry}
    (haccepted : ∀ e ∈ entries, Accepted e)
    (hcomposed : Links.composed links entries = true) :
    Act.Triple (Contained root links []) (engine.materialize restoreStage entries)
        (fun _ => InStage root) fun _ => InStage root := by
  refine Act.Triple.each_append (entries_contained hos haccepted hcomposed) fun _ =>
    Act.Triple.of_exists fun links' => ?_
  refine (directories_contained hos fun e he => ?_).conseq (fun _ hw => hw)
    (fun _ _ hw => hw.inside) fun _ _ hw => hw.inside
  rw [List.mem_reverse, List.mem_filter] at he
  exact mem_madeAfter he.1 (of_decide_eq_true he.2)

end Entries

/-! ## Manifests the decoder accepts -/

namespace ManifestDecoder

open Json (Value)

variable {e : ManifestEntry} {item : Value}

theorem parts_of_covers {relative : PosixPath} (h : PersistencePolicy.covers relative = true) :
    relative.parts ≠ [] := by
  simp only [PersistencePolicy.covers, Bool.and_eq_true, List.any_eq_true, Bool.or_eq_true,
    decide_eq_true_eq] at h
  obtain ⟨-, root, hroot, hbelow⟩ := h
  have hne := PersistencePolicy.root_ne_nil hroot
  rcases hbelow with rfl | hbelow
  · exact hne
  · simp only [PosixPath.isRelativeTo, Bool.and_eq_true, List.isPrefixOf_iff_prefix] at hbelow
    rintro hnil
    rw [hnil] at hbelow
    exact hne (List.prefix_nil.1 hbelow.2)

theorem decode_accepted {raw sandboxId : Str} {generation : Nat} {m : PersistenceManifest}
    (h : decode raw sandboxId generation = .ok m) : ∀ e ∈ m.entries, Accepted e := by
  intro e he
  have hadmitted := decode_admitted h e he
  refine ⟨parts_of_covers
    (PersistencePolicy.covers_of_includes hadmitted.includes), fun target htarget => ?_⟩
  have hsafe := hadmitted.safe target htarget
  simp only [safeSymlinkTarget, Bool.and_eq_true, Bool.not_eq_true'] at hsafe
  exact hsafe.1

end ManifestDecoder

/-- As `_restore_generation` makes it: the stage is there, and nothing in it. -/
structure EmptyStage (root : Path) (fs : FileSystem) : Prop where
  above : ∀ r, r <+: restoreStage → fs.isDirectory (root ++ r) = true
  empty : ∀ r, r ≠ [] → fs.node (root ++ restoreStage ++ r) = none

theorem EmptyStage.contained {root : Path} {fs : FileSystem} (h : EmptyStage root fs) :
    Contained root (fun _ => none) [] (fs, []) where
  above := h.above
  mirrors :=
    { shown := fun r n hn hkind => by
        by_cases hr : r = []
        · obtain ⟨mode, mtimeNs, hnode⟩ := FileSystem.isDirectory_iff.1 (h.above _ List.prefix_rfl)
          rw [hr, List.append_nil, hnode] at hn
          cases hn
          cases hkind
        · rw [h.empty r hr] at hn
          cases hn
      there := fun _ _ hlink => by cases hlink
      relative := fun _ _ hlink => by cases hlink }
  made := fun _ hp => by cases hp
  inside := fun _ hq => by cases hq

namespace RestoreEngine

namespace Sample

open KiroCrew.Example

def workspaceRoot : Path := [Str.ofString "workspace"]

/-- A workspace with an empty stage. -/
def staged : FileSystem where
  node :=
    Dict.get? ([[], workspaceRoot, workspaceRoot ++ [Restore.agentcore], workspaceRoot ++
      restoreStage].map
    fun p => (p, Node.directory 0o755 0))
  names := [[], workspaceRoot, workspaceRoot ++ [Restore.agentcore], workspaceRoot ++ restoreStage]
  complete := fun _ hp => Dict.get?_isSome.1 (Option.isSome_iff_ne_none.2 hp)
  times := fun i => i
  dirMode := 0o755
  fileMode := 0o644
  resolves := fun _ => true

theorem staged_empty : EmptyStage workspaceRoot staged where
  above := fun r hr => by
    have hall : ∀ r ∈ restoreStage.inits, staged.isDirectory (workspaceRoot ++ r) = true := by
      decide +kernel
    exact hall r ((List.mem_inits _ _).2 hr)
  empty := fun r hr => by
    by_contra hnode
    have hmem := staged.complete _ hnode
    simp [staged, workspaceRoot, restoreStage] at hmem
    exact hr hmem

def directoryAt (path : String) : ManifestEntry where
  path := Str.ofString path
  type := .directory
  mode := 0o755
  mtimeNs := 0
  size := 0
  digest := none
  chunks := []
  symlinkTarget := none

def linkAt (path target : String) : ManifestEntry where
  path := Str.ofString path
  type := .symlink
  mode := 0o777
  mtimeNs := 0
  size := target.length
  digest := none
  chunks := []
  symlinkTarget := some (Str.ofString target)

def listing (entries : List ManifestEntry) : PersistenceManifest where
  schemaVersion := 1
  generation := 1
  sandboxId := sandbox.text
  createdAt := created.text
  entries := entries

/-- The second link goes up from where the first leads. -/
def escaping : PersistenceManifest :=
  listing [linkAt "user/l" "..", linkAt "user/x" "l/../..", directoryAt "user/x/foo"]

/-- A directory below a link to the stage. -/
def composing : PersistenceManifest := listing [linkAt "user/l" "..", directoryAt "user/l/foo"]

theorem directoryAt_admissible {path : String}
    (hnormal : (PosixPath.parse (Str.ofString path)).str = Str.ofString path)
    (hincludes : PersistencePolicy.includes (PosixPath.parse (Str.ofString path)) = true) :
    ManifestDecoder.Admissible (directoryAt path) where
  normal := hnormal
  includes := hincludes
  shape := ⟨rfl, rfl, rfl, rfl⟩
  safe := Str.safe_ofString path

theorem linkAt_admissible {path target : String}
    (hnormal : (PosixPath.parse (Str.ofString path)).str = Str.ofString path)
    (hincludes : PersistencePolicy.includes (PosixPath.parse (Str.ofString path)) = true)
    (hsafe : safeSymlinkTarget (PosixPath.parse (Str.ofString path)) (Str.ofString target) = true) :
    ManifestDecoder.Admissible (linkAt path target) where
  normal := hnormal
  includes := hincludes
  shape := ⟨rfl, rfl, _, rfl, hsafe, Str.safe_ofString target⟩
  safe := Str.safe_ofString path

theorem decode_listing {entries : List ManifestEntry}
    (hadmissible : ∀ e ∈ entries, ManifestDecoder.Admissible e)
    (hsorted : (entries.map (·.path)).Pairwise (· ≤ ·)) (hnodup : (entries.map (·.path)).Nodup)
    (hrestorable : ManifestDecoder.Restorable entries) :
    ManifestDecoder.decode (listing entries).toJson sandbox.text 1 = .ok (listing entries) :=
  (ManifestDecoder.decode_toJson (m := listing entries)
    { schema := rfl, sandboxId := sandbox.safe, createdAt := Str.safe_of_ascii created.ascii,
      admissible := hadmissible,
      sorted := hsorted, nodup := hnodup }).2 ⟨hrestorable, rfl⟩

theorem escaping_accepted : ManifestDecoder.decode escaping.toJson sandbox.text 1 =
    .ok escaping := by
  refine decode_listing (fun e he => ?_) (by decide +kernel) (by decide +kernel)
    ⟨by decide, by decide, by decide⟩
  simp only [List.mem_cons, List.not_mem_nil, or_false] at he
  rcases he with rfl | rfl | rfl
  · exact linkAt_admissible (by decide +kernel) (by decide +kernel) (by decide +kernel)
  · exact linkAt_admissible (by decide +kernel) (by decide +kernel) (by decide +kernel)
  · exact directoryAt_admissible (by decide +kernel) (by decide +kernel)

theorem composing_accepted : ManifestDecoder.decode composing.toJson sandbox.text 1 =
    .ok composing := by
  refine decode_listing (fun e he => ?_) (by decide +kernel) (by decide +kernel)
    ⟨by decide, by decide, by decide⟩
  simp only [List.mem_cons, List.not_mem_nil, or_false] at he
  rcases he with rfl | rfl
  · exact linkAt_admissible (by decide +kernel) (by decide +kernel) (by decide +kernel)
  · exact directoryAt_admissible (by decide +kernel) (by decide +kernel)

def linkedEngine : RestoreEngine Traced where
  os := linked workspaceRoot
  store := {}
  cipher :=
    { sha := sha256
      aead := fun _ ciphertext _ => some ciphertext
      sandboxId := sandbox }
  iso :=
    { read := fun _ => some 0
      reads := fun _ => ⟨0, rfl⟩ }
  runtimeVersion := Str.ofString "1"
  now := ⟨0⟩

end Sample

/-- What is written out of an accepted manifest lies in the stage, as long as no entry goes up from
it. -/
theorem written_in_stage (engine : RestoreEngine Traced) (root : Path)
    (hos : engine.os = linked root) (fs : FileSystem)
    (hstage : EmptyStage root fs) (raw sandboxId : Str) (generation : Nat) (m : PersistenceManifest)
    (hdecode : ManifestDecoder.decode raw sandboxId generation = .ok m)
      (hcomposed : Links.composed (fun _ => none) m.entries = true) :
    ∀ q ∈ (engine.materialize restoreStage m.entries (fs, [])).1.2, root ++ restoreStage <+: q := by
  have hrun :=
    materialize_contained hos (ManifestDecoder.decode_accepted hdecode) hcomposed _ hstage.contained
  rcases hresult : engine.materialize restoreStage m.entries (fs, []) with ⟨w, e | u⟩
  · exact hrun.2 e w hresult
  · exact hrun.1 u w hresult

open KiroCrew.Example Sample in
theorem written_in_stage_composing :
    (linkedEngine.materialize restoreStage composing.entries (staged, [])).1.2 ≠ [] ∧
    ∀ q ∈ (linkedEngine.materialize restoreStage composing.entries (staged, [])).1.2,
    workspaceRoot ++ restoreStage <+: q :=
  ⟨by decide +kernel, written_in_stage linkedEngine workspaceRoot rfl staged staged_empty
    composing.toJson sandbox.text 1 composing
    composing_accepted (by decide +kernel)⟩

open KiroCrew.Example Sample in
/-- The directory of the third entry is made in the workspace. -/
theorem link_leads_outside : ¬ ∀ (engine : RestoreEngine Traced) (root : Path), engine.os =
    linked root → ∀ fs : FileSystem,
    EmptyStage root fs → ∀ (raw sandboxId : Str) (generation : Nat) (m : PersistenceManifest),
      ManifestDecoder.decode raw sandboxId generation = .ok m →
        ∀ q ∈ (engine.materialize restoreStage m.entries (fs, [])).1.2,
        root ++ restoreStage <+: q := by
  intro h
  have hinside := h linkedEngine workspaceRoot rfl staged staged_empty _ _ _ _ escaping_accepted
  have hmade : workspaceRoot ++ [Str.ofString "foo"] ∈
      (linkedEngine.materialize restoreStage escaping.entries (staged, [])).1.2 := by decide +kernel
  exact absurd (hinside _ hmade) (by decide +kernel)

end RestoreEngine

end KiroCrew
