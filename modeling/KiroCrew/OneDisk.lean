import KiroCrew.Disk
import KiroCrew.Materialize

/-!
# The calls of a restore on one file system

With no mounts a call either makes its change (`change`) or leaves the tree and raises. On a tree
whose names lie in directories (`Closed`) the composed calls of a restore then do what `FileSystem`
says of them (`mkdirParents_iff`, `replacePath_of_some`), and removing a tree removes what lies at
or below it (`removeTree_removes`).
-/

namespace KiroCrew

namespace FileSystem

variable {fs fs' fs'' : FileSystem} {p q d : Path} {c : Call} {A B : Path → Prop}

open Act Os

/-! ## One call -/

/-- What a call changes. -/
def change (c : Call) (fs : FileSystem) : Option FileSystem :=
  match c with
  | .mkdir p => fs.makeDir p
  | .symlink target p => fs.symlink target p
  | .openWrite p => fs.openWrite p
  | .write p data => fs.write p data
  | .chmod p mode => fs.chmod p mode
  | .utime p mtimeNs _ => fs.utime p mtimeNs
  | .copystat source destination _ => fs.copystat source destination
  | .rename source destination => fs.rename source destination
  | .unlink p => fs.unlink p
  | .rmdir p => fs.rmdir p

/-- The `errno` of a call that changes nothing. -/
def refusal (c : Call) (fs : FileSystem) : Errno :=
  match c with
  | .mkdir p => fs.errnoAt p.dropLast
  | .rename source _ => fs.errnoAt source
  | .unlink p => fs.errnoAt p
  | .rmdir p => fs.errnoAt p
  | _ => .other

theorem mapError_refusing {errno : Errno} {f : FileSystem → Option FileSystem} :
    (refusing errno f).mapError Raised.os fs =
      match f fs with
      | some fs' => (fs', .ok ())
      | none => (fs, .error (.os { errno := errno })) := by
  unfold Act.mapError refusing
  cases f fs <;> rfl

theorem does_eq : (disk .none).does c fs =
    match fs.change c with
    | some fs' => (fs', .ok ())
    | none => (fs, .error (.os { errno := fs.refusal c })) := by
  cases c with
  | mkdir p =>
    show Act.mapError Raised.os (refusing (fs.errnoAt p.dropLast) (·.makeDir p)) fs = _
    exact mapError_refusing
  | unlink p =>
    show Act.mapError Raised.os (refusing (fs.errnoAt p) (·.unlink p)) fs = _
    exact mapError_refusing
  | rename source destination =>
    have hone : ((fs.node source).isSome && Mounts.none.crosses source destination) = false :=
      Bool.and_false _
    simp only [Os.does, disk, Act.mapError, hone, Bool.false_eq_true, if_false]
    exact mapError_refusing
  | rmdir p =>
    simp only [Os.does, disk, Act.mapError, Mounts.none, Bool.false_eq_true, if_false]
    exact mapError_refusing
  | _ => exact mapError_refusing

theorem does_of_some (h : fs.change c = some fs') : (disk .none).does c fs = (fs', .ok ()) := by
  rw [does_eq, h]

theorem does_of_none (h : fs.change c = none) :
    (disk .none).does c fs = (fs, .error (.os { errno := fs.refusal c })) := by
  rw [does_eq, h]

theorem errnoAt_eq : fs.errnoAt p = .missing ↔ fs.node p = none := by
  simp [errnoAt]

theorem isDir_eq : (disk .none).isDir p fs = fs.isDirectory p := rfl

/-! ## Directories -/

theorem makeDir_ne (hne : p ≠ []) : fs.makeDir p = fs.mkdir p := if_neg hne

/-- What is there is not made again. -/
theorem makeDir_none (h : fs.node p ≠ none) : fs.makeDir p = none := by
  by_cases hne : p = []
  · subst hne
    simp [makeDir, h]
  · rw [makeDir_ne hne]
    simp [FileSystem.mkdir, free, h, Option.isNone_iff_eq_none]

theorem mkdirExistOk_of_some (h : fs.makeDir p = some fs') : (disk .none).mkdirExistOk p fs =
    (fs', .ok ()) := by
  unfold Os.mkdirExistOk Act.attempt
  rw [does_of_some (c := .mkdir p) h]

theorem mkdirExistOk_of_isDirectory (hclosed : fs.Closed) (h : fs.isDirectory p = true) :
    (disk .none).mkdirExistOk p fs = (fs, .ok ()) := by
  have hnode := node_ne_none_of_isDirectory h
  have hparent : fs.node p.dropLast ≠ none := by
    by_cases hne : p = []
    · subst hne
      exact hnode
    · exact node_ne_none_of_isDirectory (hclosed.parent hnode hne)
  have herrno : fs.refusal (.mkdir p) ≠ .missing := fun heq => hparent (errnoAt_eq.1 heq)
  unfold Os.mkdirExistOk Act.attempt
  rw [does_of_none (c := .mkdir p) (makeDir_none hnode)]
  simp only [if_neg herrno]
  rw [bind_of_ok look_apply, isDir_eq, h]
  rfl

theorem mkdirExistOk_ok (h : (disk .none).mkdirExistOk p fs = (fs', .ok ())) :
    fs.makeDir p = some fs' ∨ fs' = fs ∧ fs.isDirectory p = true := by
  unfold Os.mkdirExistOk Act.attempt at h
  cases hmake : fs.makeDir p with
  | some fs₁ =>
    rw [does_of_some (c := .mkdir p) hmake] at h
    cases h
    exact Or.inl rfl
  | none =>
    rw [does_of_none (c := .mkdir p) hmake] at h
    simp only at h
    split at h
    · cases h
    · rw [bind_of_ok look_apply, isDir_eq] at h
      cases hdir : fs.isDirectory p with
      | false =>
        rw [hdir] at h
        cases h
      | true =>
        rw [hdir] at h
        cases h
        exact Or.inr ⟨rfl, rfl⟩

theorem mkdirParents_nil_iff (hclosed : fs.Closed) :
    (disk .none).mkdirExistOk [] fs = (fs', .ok ()) ↔ fs.mkdirParents [] = some fs' := by
  simp only [FileSystem.mkdirParents, List.reverse_nil, mkdirParentsRev]
  by_cases hdir : fs.isDirectory [] = true
  · rw [if_pos hdir, mkdirExistOk_of_isDirectory hclosed hdir]
    simp
  · have hmake : fs.makeDir [] =
        if fs.node [] = none then some (fs.put [] (.directory fs.dirMode fs.now)) else none :=
        if_pos rfl
    rw [if_neg hdir, ← hmake]
    constructor
    · intro h
      exact (mkdirExistOk_ok h).resolve_right fun hr => hdir hr.2
    · exact mkdirExistOk_of_some

/-- `mkdir(parents=True, exist_ok=True)` does what `FileSystem.mkdirParents` says, or raises. -/
theorem mkdirParents_iff (hclosed : fs.Closed) :
    (disk .none).mkdirParents p fs = (fs', .ok ()) ↔ fs.mkdirParents p = some fs' := by
  induction p using List.reverseRec generalizing fs' with
  | nil => exact mkdirParents_nil_iff hclosed
  | append_singleton p name ih =>
    have hne : p ++ [name] ≠ [] := by simp
    have hstep : (disk .none).mkdirParents (p ++ [name]) fs =
        match fs.mkdir (p ++ [name]) with
        | some fs₁ => (fs₁, .ok ())
        | none =>
          if fs.node p = none then
            ((disk .none).mkdirParents p >>= fun _ => (disk .none).mkdirExistOk (p ++ [name])) fs
          else if fs.isDirectory (p ++ [name]) then (fs, .ok ())
          else (fs, .error (.os { errno := fs.errnoAt p })) := by
      have hrefusal : fs.refusal (.mkdir (p ++ [name])) = fs.errnoAt p := by simp [refusal]
      unfold Os.mkdirParents
      rw [List.reverse_append, List.reverse_singleton, List.singleton_append, Os.mkdirParentsRev]
      unfold Act.attempt
      rw [List.reverse_cons, List.reverse_reverse, ← makeDir_ne hne]
      cases hmake : fs.makeDir (p ++ [name]) with
      | some fs₁ => rw [does_of_some (c := .mkdir _) hmake]
      | none =>
        rw [does_of_none (c := .mkdir _) hmake, hrefusal]
        simp only [errnoAt_eq]
        split
        · rfl
        · rw [bind_of_ok look_apply, isDir_eq]
          split <;> rfl
    rw [hstep, mkdirParents_concat]
    cases hmkdir : fs.mkdir (p ++ [name]) with
    | some fs₁ =>
      obtain ⟨hfree, rfl⟩ := mkdir_eq_some.1 hmkdir
      obtain ⟨-, hparent, hnone⟩ := free_iff.1 hfree
      rw [List.dropLast_concat] at hparent
      have hdir : ¬ fs.isDirectory (p ++ [name]) = true := by simp [isDirectory, hnone]
      simp only [if_neg hdir, mkdirParents_of_isDirectory hparent, Option.bind_some, hmkdir]
      simp
    | none =>
      by_cases hnone : fs.node p = none
      · have hbelow : fs.node (p ++ [name]) = none := by
          by_contra hnode
          exact node_ne_none_of_isDirectory (hclosed p name hnode) hnone
        have hdir : ¬ fs.isDirectory (p ++ [name]) = true := by simp [isDirectory, hbelow]
        simp only [if_pos hnone, if_neg hdir, Option.bind_eq_some_iff]
        constructor
        · intro h
          obtain ⟨fs₁, u, hparents, hmake⟩ := bind_ok h
          have hparents' := ih.1 hparents
          refine ⟨fs₁, hparents', ?_⟩
          rcases mkdirExistOk_ok hmake with hmade | ⟨-, hdir₁⟩
          · rwa [makeDir_ne hne] at hmade
          · refine absurd hdir₁ ?_
            rw [isDirectory, mkdirParents_same hparents' fun hle => by simpa using hle.length_le,
              hbelow]
            simp
        · rintro ⟨fs₁, hparents, hmade⟩
          rw [bind_of_ok (ih.2 hparents)]
          exact mkdirExistOk_of_some (by rwa [makeDir_ne hne])
      · simp only [if_neg hnone]
        by_cases hdir : fs.isDirectory (p ++ [name]) = true
        · simp [hdir]
        · simp only [if_neg hdir, Option.bind_eq_some_iff, Prod.mk.injEq, reduceCtorEq,
            and_false, false_iff]
          rintro ⟨fs₁, hparents, hmade⟩
          rw [mkdirParents_of_isDirectory (isDirectory_of_mkdirParents hparents hnone)] at hparents
          obtain rfl := Option.some.inj hparents
          rw [hmkdir] at hmade
          cases hmade

theorem mkdirParents_of_some (hclosed : fs.Closed) (h : fs.mkdirParents p = some fs') :
    (disk .none).mkdirParents p fs = (fs', .ok ()) := (mkdirParents_iff hclosed).2 h

theorem replacePath_of_some (h : fs.rename p q = some fs') :
    (disk .none).replacePath p q fs = (fs', .ok ()) := by
  unfold Os.replacePath Act.attempt
  rw [does_of_some (c := .rename p q) h]

/-! ## Removing a tree -/

/-- What `gone` says is gone; all else is as it was, but for the time of one directory. -/
structure Removes (fs fs' : FileSystem) (gone : Path → Prop) (d : Path) : Prop where
  absent : ∀ q, gone q → fs'.node q = none
  same : ∀ q, ¬ gone q → fs'.node q = fs.node q ∨
    q = d ∧ fs.isDirectory q = true ∧ fs'.isDirectory q = true

namespace Removes

theorem refl (h : ∀ q, A q → fs.node q = none) : Removes fs fs A d := ⟨h, fun _ _ => Or.inl rfl⟩

theorem node_of_ne (h : Removes fs fs' A d) (hq : ¬ A q) (hne : q ≠ d) : fs'.node q = fs.node q :=
  (h.same q hq).resolve_right fun hd => hne hd.1

theorem isDirectory (h : Removes fs fs' A d) (hq : ¬ A q) :
    fs'.isDirectory q = fs.isDirectory q := by
  rcases h.same q hq with heq | ⟨-, hdir, hdir'⟩
  · exact isDirectory_congr heq
  · rw [hdir, hdir']

theorem node_ne_none (h : Removes fs fs' A d) (hq : fs'.node q ≠ none) : ¬ A q ∧
    fs.node q ≠ none := by
  have hA : ¬ A q := fun hA => hq (h.absent q hA)
  refine ⟨hA, ?_⟩
  rcases h.same q hA with heq | ⟨-, hdir, -⟩
  · rwa [← heq]
  · exact node_ne_none_of_isDirectory hdir

theorem trans (h : Removes fs fs' A d) (h' : Removes fs' fs'' B d) :
    Removes fs fs'' (fun q => A q ∨ B q) d where
  absent := fun q hq => by
    by_contra hnode
    obtain ⟨hB, hnode'⟩ := h'.node_ne_none hnode
    exact hnode' (h.absent q (hq.resolve_right hB))
  same := fun q hq => by
    obtain ⟨hA, hB⟩ := not_or.1 hq
    rcases h'.same q hB with heq | ⟨rfl, hdir, hdir'⟩
    · rcases h.same q hA with heq' | ⟨rfl, hdir, hdir'⟩
      · exact Or.inl (heq.trans heq')
      · exact Or.inr ⟨rfl, hdir, by rw [isDirectory_congr heq, hdir']⟩
    · exact Or.inr ⟨rfl, by rw [← h.isDirectory hA, hdir], hdir'⟩

theorem closed (h : Removes fs fs' A d) (hclosed : fs.Closed)
    (hA : ∀ q name, A q → A (q ++ [name])) :
    fs'.Closed := by
  intro q name hnode
  obtain ⟨hq, hnode'⟩ := h.node_ne_none hnode
  rw [h.isDirectory fun hq' => hq (hA q name hq')]
  exact hclosed q name hnode'

theorem noSpecial (h : Removes fs fs' A d) (hspecial : fs.NoSpecial) : fs'.NoSpecial := by
  intro q hq
  obtain ⟨hA, -⟩ := h.node_ne_none (q := q) (by simp [hq])
  rcases h.same q hA with heq | ⟨-, -, hdir⟩
  · exact hspecial q (heq ▸ hq)
  · obtain ⟨mode, mtimeNs, hnode⟩ := isDirectory_iff.1 hdir
    rw [hq] at hnode
    cases hnode

end Removes

theorem removed_removes (hne : p ≠ []) :
    Removes fs ((fs.removed p).touch p.dropLast) (fun q => p <+: q) p.dropLast where
  absent := fun q hq => by
    have hqd : q ≠ p.dropLast := by
      rintro rfl
      have hle := hq.length_le
      have hpos := List.length_pos_iff.2 hne
      rw [List.length_dropLast] at hle
      omega
    rw [node_touch_of_ne hqd]
    simp [removed, hq]
  same := fun q hq => by
    have hremoved : (fs.removed p).node q = fs.node q := by simp [removed, hq]
    by_cases hd : q = p.dropLast
    · cases hdir : fs.isDirectory q with
      | false =>
        refine Or.inl ?_
        rw [node_touch_of_not_directory (by rw [isDirectory_congr hremoved, hdir]), hremoved]
      | true => exact Or.inr ⟨hd, rfl, by rw [isDirectory_touch, isDirectory_congr hremoved, hdir]⟩
    · exact Or.inl (by rw [node_touch_of_ne hd, hremoved])

/-- The trees at `p` and below it have at most `n` levels. -/
def DepthBelow (fs : FileSystem) (p : Path) (n : Nat) : Prop :=
  ∀ q, p <+: q → fs.node q ≠ none → q.length < p.length + n

theorem DepthBelow.child {n : Nat} {name : Str} (h : fs.DepthBelow p (n + 1)) :
    fs.DepthBelow (p ++ [name]) n := by
  intro q hq hnode
  have := h q ((List.prefix_append _ _).trans hq) hnode
  rw [List.length_append, List.length_singleton]
  omega

theorem Removes.depthBelow {n : Nat} (h : Removes fs fs' A d) (hdepth : fs.DepthBelow p n) :
    fs'.DepthBelow p n :=
  fun q hq hnode => hdepth q hq (h.node_ne_none hnode).2

theorem depthBelow_depth : fs.DepthBelow p fs.depth := by
  intro q _ hnode
  have hmem := List.mem_map_of_mem (f := List.length) (fs.complete q hnode)
  have hle : q.length ≤ (fs.names.map List.length).foldr max 0 := by
    generalize fs.names.map List.length = lengths at hmem
    induction lengths with
    | nil => cases hmem
    | cons n lengths ih =>
      rcases List.mem_cons.1 hmem with rfl | hmem
      · exact Nat.le_max_left _ _
      · exact (ih hmem).trans (Nat.le_max_right _ _)
  unfold depth
  omega

section Removal

variable {n : Nat}

/-- The loop over the entries of a directory. -/
theorem each_removes (x : Path → Effect FileSystem Unit) (names : List Str) (hclosed : fs.Closed)
    (hspecial : fs.NoSpecial) (hdepth : fs.DepthBelow p (n + 1))
    (hx : ∀ {fs : FileSystem} {name : Str}, fs.Closed → fs.NoSpecial →
      fs.DepthBelow (p ++ [name]) n →
      ∃ fs', x (p ++ [name]) fs = (fs', .ok ()) ∧ Removes fs fs' (fun q => p ++ [name] <+: q) p) :
    ∃ fs', Act.each (fun name => x (p ++ [name])) names fs = (fs', .ok ()) ∧
      Removes fs fs' (fun q => ∃ name ∈ names, p ++ [name] <+: q) p := by
  induction names generalizing fs with
  | nil => exact ⟨fs, rfl, Removes.refl (by simp)⟩
  | cons name names ih =>
    obtain ⟨fs₁, hrun, hremoves⟩ := hx hclosed hspecial hdepth.child
    have hclosed₁ := hremoves.closed hclosed fun q last hq => hq.trans (List.prefix_append _ _)
    obtain ⟨fs₂, hrest, hremoves'⟩ :=
      ih hclosed₁ (hremoves.noSpecial hspecial) (hremoves.depthBelow hdepth)
    refine ⟨fs₂, (bind_of_ok hrun).trans hrest, ?_⟩
    simpa using hremoves.trans hremoves'

theorem removeDown_removes (hne : p ≠ []) (hclosed : fs.Closed) (hspecial : fs.NoSpecial)
    (hdepth : fs.DepthBelow p n) :
    ∃ fs', (disk .none).removeDown n p fs = (fs', .ok ()) ∧
        Removes fs fs' (fun q => p <+: q) p.dropLast := by
  induction n generalizing fs p with
  | zero =>
    refine ⟨fs, rfl, Removes.refl fun q hq => ?_⟩
    by_contra hnode
    exact absurd (hdepth q hq hnode) (by simpa using hq.length_le)
  | succ n ih =>
    unfold Os.removeDown
    simp only [bind_of_ok look_apply]
    have hfile : ∀ {m : Node}, fs.node p = some m → m.isDirectory = false →
        ∃ fs', (disk .none).does (.unlink p) fs = (fs', .ok ()) ∧
        Removes fs fs' (fun q => p <+: q) p.dropLast := by
      intro m hm hdir
      refine ⟨_, does_of_some (c := .unlink p) ?_, removed_removes hne⟩
      simp [change, unlink, hm, hdir]
    cases hnode : fs.node p with
    | none =>
      have hgone : ∀ q, p <+: q → fs.node q = none := by
        rintro q ⟨r, rfl⟩
        by_contra hq
        by_cases hr : r = []
        · simp [hr, hnode] at hq
        · exact node_ne_none_of_isDirectory (hclosed.above hr hq) hnode
      have hkind : (disk .none).isSymlink p fs = false ∧ (disk .none).isFile p fs = false ∧
          (disk .none).exists? p fs = false := by
        simp [disk, hnode, FileSystem.exists?]
      obtain ⟨hsymlink, hregular, hexists⟩ := hkind
      refine ⟨fs, ?_, Removes.refl hgone⟩
      simp only [hsymlink, hregular, hexists, Bool.or_self, Bool.false_eq_true, if_false,
        bind_of_ok look_apply,
        pure_apply]
    | some m =>
      rcases m with ⟨mode, mtimeNs⟩ | ⟨mode, mtimeNs, target⟩ | ⟨mode, mtimeNs, data⟩ | -
      · -- a directory: its entries, and then itself
        have hisDir : fs.isDirectory p = true := isDirectory_iff.2 ⟨mode, mtimeNs, hnode⟩
        obtain ⟨fs₁, hchildren, hremoves⟩ := each_removes ((disk .none).removeDown n) (fs.iterdir p)
          hclosed hspecial hdepth fun hclosed hspecial hdepth => by
            simpa using ih (by simp) hclosed hspecial hdepth
        have hp : ¬ ∃ name ∈ fs.iterdir p, p ++ [name] <+: p := by
          rintro ⟨name, -, hle⟩
          simpa using hle.length_le
        have hempty : fs₁.iterdir p = [] := by
          refine List.eq_nil_iff_forall_not_mem.2 fun name hname => ?_
          obtain ⟨hlisted, hname'⟩ := hremoves.node_ne_none (mem_iterdir.1 hname)
          exact hlisted ⟨name, mem_iterdir.2 hname', List.prefix_rfl⟩
        have hrmdir : fs₁.change (.rmdir p) = some ((fs₁.removed p).touch p.dropLast) := by
          simp [change, rmdir, hremoves.isDirectory hp, hisDir, hempty]
        refine ⟨(fs₁.removed p).touch p.dropLast, ?_, ?_⟩
        · have hlist : ((disk .none).iterdir p).mapError Raised.os fs =
              (fs, .ok (fs.iterdir p)) := by
            simp [Act.mapError, disk, hisDir]
          have hkind : (disk .none).isSymlink p fs = false ∧ (disk .none).isFile p fs = false ∧
              (disk .none).exists? p fs = true := by
            simp [disk, hnode, FileSystem.exists?, Node.kind]
          obtain ⟨hsymlink, hregular, hexists⟩ := hkind
          simp only [hsymlink, hregular, hexists, Bool.or_self, Bool.false_eq_true,
            if_false, if_true,
            bind_of_ok look_apply]
          refine (bind_of_ok hlist).trans ((bind_of_ok hchildren).trans ?_)
          unfold Act.attempt
          rw [does_of_some (c := .rmdir p) hrmdir]
        · have hlast : Removes fs₁ ((fs₁.removed p).touch p.dropLast)
              (fun q => p <+: q) p.dropLast :=
            removed_removes hne
          refine ⟨hlast.absent, fun q hq => ?_⟩
          have hloop : ¬ ∃ name ∈ fs.iterdir p, p ++ [name] <+: q := by
            rintro ⟨name, -, hle⟩
            exact hq ((List.prefix_append _ _).trans hle)
          have hqp : q ≠ p := fun heq => hq (heq ▸ List.prefix_rfl)
          rw [← hremoves.node_of_ne hloop hqp, ← hremoves.isDirectory hloop]
          exact hlast.same q hq
      · obtain ⟨fs', hrun, hremoves⟩ := hfile hnode rfl
        refine ⟨fs', ?_, hremoves⟩
        simpa [disk, hnode, Node.kind] using hrun
      · obtain ⟨fs', hrun, hremoves⟩ := hfile hnode rfl
        refine ⟨fs', ?_, hremoves⟩
        simpa [disk, hnode, Node.kind] using hrun
      · exact absurd hnode (hspecial p)

end Removal

theorem removeTree_removes (hne : p ≠ []) (hclosed : fs.Closed) (hspecial : fs.NoSpecial) :
    ∃ fs', (disk .none).removeTree p fs = (fs', .ok ()) ∧
    Removes fs fs' (fun q => p <+: q) p.dropLast :=
  removeDown_removes hne hclosed hspecial depthBelow_depth

/-! ## Calls below a directory -/

/-- One node was made, or replaced by one of its kind. -/
inductive Edits (fs : FileSystem) (p : Path) : FileSystem → Prop
  | create {n : Node} (hfree : fs.free p = true) (hn : n ≠ .special) : Edits fs p (fs.create p n)
  | replace {n₀ n : Node} (hnode : fs.node p = some n₀) (hn : n ≠ .special)
      (hkind : n.isDirectory = n₀.isDirectory) : Edits fs p (fs.put p n)

theorem mkdir_edits (h : fs.mkdir p = some fs') : Edits fs p fs' := by
  obtain ⟨hfree, rfl⟩ := mkdir_eq_some.1 h
  exact .create hfree nofun

theorem symlink_edits {target : Str} (h : fs.symlink target p = some fs') : Edits fs p fs' := by
  unfold symlink at h
  split at h
  · next hfree =>
    obtain rfl := Option.some.inj h
    exact .create hfree nofun
  · cases h

theorem openWrite_edits (h : fs.openWrite p = some fs') : Edits fs p fs' := by
  unfold openWrite at h
  split at h
  · split at h
    · next hfree =>
      obtain rfl := Option.some.inj h
      exact .create hfree nofun
    · cases h
  · next hnode =>
    obtain rfl := Option.some.inj h
    exact .replace hnode nofun rfl
  · cases h

theorem write_edits {data : Bytes} (h : fs.write p data = some fs') : Edits fs p fs' := by
  unfold write at h
  split at h
  · next hnode =>
    obtain rfl := Option.some.inj h
    exact .replace hnode nofun rfl
  · cases h

theorem chmod_edits {mode : Mode} (h : fs.chmod p mode = some fs') : Edits fs p fs' := by
  unfold chmod at h
  split at h
  · next hnode =>
    obtain rfl := Option.some.inj h
    exact .replace hnode nofun rfl
  · next hnode =>
    obtain rfl := Option.some.inj h
    exact .replace hnode nofun rfl
  · cases h

theorem utime_edits {mtimeNs : Int} (h : fs.utime p mtimeNs = some fs') : Edits fs p fs' := by
  unfold utime at h
  split at h
  · next hnode =>
    obtain rfl := Option.some.inj h
    exact .replace hnode (by simp) rfl
  · next hnode =>
    obtain rfl := Option.some.inj h
    exact .replace hnode (by simp) rfl
  · next hnode =>
    obtain rfl := Option.some.inj h
    exact .replace hnode (by simp) rfl
  · cases h

namespace Edits

theorem closed (h : Edits fs p fs') (hclosed : fs.Closed) : fs'.Closed := by
  cases h with
  | create hfree => exact hclosed.create hfree
  | replace hnode _ hkind => exact hclosed.replace hnode fun hdir => hkind.trans hdir

theorem noSpecial (h : Edits fs p fs') (hspecial : fs.NoSpecial) : fs'.NoSpecial := by
  cases h with
  | create _ hn => exact hspecial.touch.put hn
  | replace _ hn => exact hspecial.put hn

theorem same (h : Edits fs p fs') (hq : q ≠ p) (hparent : q ≠ p.dropLast) :
    fs'.node q = fs.node q := by
  cases h with
  | create hfree => exact (creates hfree).same q hq hparent
  | replace => simp [hq]

theorem isDirectory (h : Edits fs p fs') (hdir : fs.isDirectory q = true) :
    fs'.isDirectory q = true := by
  cases h with
  | create hfree =>
    obtain ⟨-, hparent, hnone⟩ := free_iff.1 hfree
    rw [(creates hfree).isDirectory hparent, hdir]
    rintro rfl
    exact node_ne_none_of_isDirectory hdir hnone
  | @replace n₀ n hnode _ hkind =>
    by_cases hq : q = p
    · subst hq
      simpa [FileSystem.isDirectory, hkind, hnode] using hdir
    · rw [← hdir]
      exact isDirectory_congr (by simp [hq])

end Edits

/-- Nothing outside of the directory `d` has changed. -/
structure Within (d : Path) (fs₀ fs : FileSystem) : Prop where
  closed : fs.Closed
  noSpecial : fs.NoSpecial
  base : fs.isDirectory d = true
  outside : ∀ q, ¬ d <+: q → fs.node q = fs₀.node q

namespace Within

variable {fs₀ : FileSystem}

theorem edits (h : Within d fs₀ fs) (he : Edits fs p fs') (hd : d <+: p) (hne : p ≠ d) :
    Within d fs₀ fs' where
  closed := he.closed h.closed
  noSpecial := he.noSpecial h.noSpecial
  base := he.isDirectory h.base
  outside := fun q hq => by
    rw [he.same, h.outside q hq]
    · rintro rfl
      exact hq hd
    · rintro rfl
      exact hq (Restore.prefix_dropLast hd hne.symm)

theorem does {c : Call} (h : ∀ fs fs', fs.change c = some fs' → Edits fs p fs') (hd : d <+: p)
    (hne : p ≠ d) : Act.Keeps (Within d fs₀) ((disk .none).does c) := by
  intro fs hfs
  rw [does_eq]
  cases hc : fs.change c with
  | none => exact hfs
  | some fs' => exact hfs.edits (h fs fs' hc) hd hne

/-- Down to `d` the directories are there, so nothing is made there. -/
theorem mkdir (hp : d <+: p ∨ p <+: d) :
    Act.Keeps (Within d fs₀) ((disk .none).does (.mkdir p)) := by
  intro fs hfs
  rw [does_eq]
  cases hc : fs.change (.mkdir p) with
  | none => exact hfs
  | some fs' =>
    have hmake : fs.makeDir p = some fs' := hc
    have hnone : fs.node p = none := by
      by_contra hnode
      rw [makeDir_none hnode] at hmake
      cases hmake
    have habove : ¬ p <+: d := by
      rintro ⟨r, rfl⟩
      refine node_ne_none_of_isDirectory (p := p) ?_ hnone
      by_cases hr : r = []
      · simpa [hr] using hfs.base
      · exact hfs.closed.above hr (node_ne_none_of_isDirectory hfs.base)
    have hne : p ≠ d := fun heq => habove (heq ▸ List.prefix_rfl)
    have hp' : p ≠ [] := by
      rintro rfl
      exact habove List.nil_prefix
    rw [makeDir_ne hp'] at hmake
    exact hfs.edits (mkdir_edits hmake) (hp.resolve_right habove) hne

theorem mkdirExistOk (hp : d <+: p ∨ p <+: d) :
    Act.Keeps (Within d fs₀) ((disk .none).mkdirExistOk p) := by
  refine (mkdir hp).attempt fun e => ?_
  cases e with
  | os error =>
    exact Act.Keeps.ite Act.Keeps.raise
      (Act.Keeps.look.bind fun _ => Act.Keeps.ite Act.Keeps.pure Act.Keeps.raise)
  | _ => exact Act.Keeps.raise

theorem mkdirParents (hd : d <+: p) : Act.Keeps (Within d fs₀) ((disk .none).mkdirParents p) := by
  have hrev : ∀ names : List Str, (d <+: names.reverse ∨ names.reverse <+: d) →
      Act.Keeps (Within d fs₀) ((disk .none).mkdirParentsRev names) := by
    intro names
    induction names with
    | nil => exact fun hp => mkdirExistOk hp
    | cons name above ih =>
      intro hp
      have habove : d <+: above.reverse ∨ above.reverse <+: d := by
        rw [List.reverse_cons] at hp
        rcases hp with hp | hp
        · rcases List.prefix_concat_iff.1 hp with rfl | hp
          · exact Or.inr (List.prefix_append _ _)
          · exact Or.inl hp
        · exact Or.inr ((List.prefix_append _ _).trans hp)
      refine (mkdir hp).attempt fun e => ?_
      cases e with
      | os error =>
        refine Act.Keeps.ite ((ih habove).bind fun _ => mkdirExistOk hp) ?_
        exact Act.Keeps.look.bind fun _ => Act.Keeps.ite Act.Keeps.pure Act.Keeps.raise
      | _ => exact Act.Keeps.raise
  exact hrev _ (by simpa using Or.inl hd)

end Within

end FileSystem

end KiroCrew
