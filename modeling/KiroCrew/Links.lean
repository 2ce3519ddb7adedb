import KiroCrew.Disk

/-!
# A disk that follows links

A tree as the kernel resolves the paths of calls in it: component by component, `..` up from the
directory that was reached, at most 40 links followed (`locate`). `linked` has the calls of a
restore on it, the paths relative to the directory of the workspace, and keeps the positions that
were acted on. `land` resolves a path of a manifest through links in the stage alone, everything
else taken for a directory.
-/

namespace KiroCrew

namespace FileSystem

/-- `MAXSYMLINKS` -/
def maxSymlinks : Nat := 40

section Definitions

variable (fs : FileSystem)

/-- The position of the names from directory `d`; `follow` goes on after a link, also after one at
the end if `followLast`. -/
def locateWith (followLast : Bool) (follow : Path → List Str → Except Errno Path) : Path →
    List Str → Except Errno Path
  | d, [] => .ok d
  | d, name :: names =>
    if name = dotDot then locateWith followLast follow d.dropLast names
    else
      match fs.node (d ++ [name]) with
      | some (.directory _ _) => locateWith followLast follow (d ++ [name]) names
      | some (.symlink _ _ target) =>
        if names = [] ∧ followLast = false then .ok (d ++ [name])
        else follow (if (PosixPath.parse target).isAbsolute then [] else d)
          ((PosixPath.parse target).parts ++ names)
      | some _ => if names = [] then .ok (d ++ [name]) else .error .other
      | none => if names = [] then .ok (d ++ [name]) else .error .missing

def locate (followLast : Bool) : Nat → Path → List Str → Except Errno Path
  | 0 => fs.locateWith followLast fun _ _ => .error .other
  | n + 1 => fs.locateWith followLast (locate followLast n)

end Definitions

/-- A tree, and the positions at which something was created, written, or given a mode or a time. -/
abbrev Traced := FileSystem × List Path

/-- A call at the position of a path. -/
def onPath (root : Path) (followLast : Bool) (p : Path)
    (f : FileSystem → Path → Option FileSystem) : Act Traced OSError Unit := fun w =>
  match w.1.locate followLast maxSymlinks root p with
  | .error errno => (w, .error { errno := errno })
  | .ok q =>
    match f w.1 q with
    | some fs => ((fs, w.2 ++ [q]), .ok ())
    | none => (w, .error { errno := w.1.errnoAt q })

/-- What is seen at the position of a path. -/
def atPath {α : Type} (root : Path) (followLast : Bool) (p : Path)
    (f : FileSystem → Path → Except Errno α) : Act Traced OSError α := fun w =>
  (w, ((w.1.locate followLast maxSymlinks root p).bind (f w.1)).mapError fun errno =>
    { errno := errno })

def isAt (root : Path) (followLast : Bool) (p : Path) (f : Node → Bool) (w : Traced) : Bool :=
  match w.1.locate followLast maxSymlinks root p with
  | .error _ => false
  | .ok q => (w.1.node q).any f

def linked (root : Path) : Os Traced where
  call := fun c =>
    match c with
    | .mkdir p => onPath root false p makeDir
    | .symlink target p =>
      if target = [] then Act.raise { errno := .missing } else onPath root false p fun fs q =>
        fs.symlink target q
    | .openWrite p => onPath root true p openWrite
    | .write p data => onPath root true p fun fs q => fs.write q data
    | .chmod p mode => onPath root true p fun fs q => fs.chmod q mode
    | .utime p mtimeNs followSymlinks => onPath root followSymlinks p fun fs q => fs.utime q mtimeNs
    | .copystat source destination followSymlinks => fun w =>
      match w.1.locate followSymlinks maxSymlinks root source with
      | .error errno => (w, .error { errno := errno })
      | .ok q => onPath root followSymlinks destination (fun fs q' => fs.copystat q q') w
    | .rename source destination => fun w =>
      match w.1.locate false maxSymlinks root source with
      | .error errno => (w, .error { errno := errno })
      | .ok q => onPath root false destination (fun fs q' => fs.rename q q') w
    | .unlink p => onPath root false p unlink
    | .rmdir p => onPath root false p rmdir
  iterdir := fun p => atPath root true p fun fs q => if fs.isDirectory q then .ok (fs.iterdir q)
    else .error (fs.errnoAt q)
  read := fun p => atPath root true p fun fs q =>
    match fs.node q with
    | some (.file _ _ data) => .ok data
    | _ => .error (fs.errnoAt q)
  readlink := fun p => atPath root false p fun fs q =>
    match fs.node q with
    | some (.symlink _ _ target) => .ok target
    | _ => .error (fs.errnoAt q)
  isDir := fun p => isAt root true p Node.isDirectory
  isFile := fun p => isAt root true p fun n => n.kind = .regular
  isSymlink := fun p => isAt root false p fun n => n.kind = .symlink
  exists? := fun p => isAt root true p fun _ => true
  depth := fun w => w.1.depth

/-! ## What a position keeps -/

/-- The tree has grown: what was there is still of its kind, a link still has its target. -/
def Grown (fs fs' : FileSystem) : Prop :=
  ∀ p n, fs.node p = some n → ∃ n', fs'.node p = some n' ∧ n'.kind = n.kind ∧ n'.target = n.target

section Grown

variable {fs fs' fs'' : FileSystem} {p q d : Path} {n n' : Node} {names : List Str}
    {followLast : Bool}

theorem Grown.refl : Grown fs fs := fun _ n h => ⟨n, h, rfl, rfl⟩

theorem Grown.trans (h : Grown fs fs') (h' : Grown fs' fs'') : Grown fs fs'' := by
  intro p n hn
  obtain ⟨n₁, hn₁, hkind, htarget⟩ := h p n hn
  obtain ⟨n₂, hn₂, hkind', htarget'⟩ := h' p n₁ hn₁
  exact ⟨n₂, hn₂, hkind'.trans hkind, htarget'.trans htarget⟩

theorem Grown.isDirectory (h : Grown fs fs') (hp : fs.isDirectory p = true) :
    fs'.isDirectory p = true := by
  obtain ⟨mode, mtimeNs, hnode⟩ := isDirectory_iff.1 hp
  obtain ⟨n', hn', hkind, -⟩ := h p _ hnode
  cases n' with
  | directory mode' mtimeNs' => exact isDirectory_iff.2 ⟨mode', mtimeNs', hn'⟩
  | _ => cases hkind

theorem grown_put (h : ∀ n₀, fs.node p = some n₀ → n.kind = n₀.kind ∧ n.target = n₀.target) :
    Grown fs (fs.put p n) := by
  intro q n₀ hn₀
  by_cases hq : q = p
  · subst hq
    exact ⟨n, by simp, h n₀ hn₀⟩
  · exact ⟨n₀, by simpa [hq] using hn₀, rfl, rfl⟩

theorem grown_touch : Grown fs (fs.touch d) := by
  unfold touch
  split
  · next mode mtimeNs hnode =>
    refine grown_put fun n₀ hn₀ => ?_
    rw [hnode] at hn₀
    cases hn₀
    exact ⟨rfl, rfl⟩
  · exact Grown.refl

theorem grown_create (h : fs.free p = true) : Grown fs (fs.create p n) := by
  obtain ⟨hne, -, hnone⟩ := free_iff.1 h
  refine grown_touch.trans (grown_put fun n₀ hn₀ => ?_)
  rw [node_touch_of_ne (dropLast_ne hne).symm, hnone] at hn₀
  cases hn₀

section Locate

variable {follow follow' : Path → List Str → Except Errno Path} {name : Str} {target : Str}
    {mode : Mode} {mtimeNs : Int}

@[simp] theorem locateWith_nil : fs.locateWith followLast follow d [] = .ok d := rfl

theorem locateWith_dotDot : fs.locateWith followLast follow d (dotDot :: names) =
    fs.locateWith followLast follow d.dropLast names := by
  rw [locateWith, if_pos rfl]

theorem locateWith_directory (hname : name ≠ dotDot) (hnode : fs.isDirectory (d ++ [name]) = true) :
    fs.locateWith followLast follow d (name :: names) = fs.locateWith followLast follow
      (d ++ [name]) names := by
  obtain ⟨mode, mtimeNs, hnode⟩ := isDirectory_iff.1 hnode
  rw [locateWith, if_neg hname, hnode]

theorem locateWith_symlink (hname : name ≠ dotDot)
    (hnode : fs.node (d ++ [name]) = some (.symlink mode mtimeNs target)) :
    fs.locateWith followLast follow d (name :: names) =
      if names = [] ∧ followLast = false then .ok (d ++ [name])
      else follow (if (PosixPath.parse target).isAbsolute then [] else d)
          ((PosixPath.parse target).parts ++ names) := by
  rw [locateWith, if_neg hname, hnode]

/-- Past what is neither a directory nor a link there is nothing. -/
theorem locateWith_other (hname : name ≠ dotDot)
    (hnode : ∀ n, fs.node (d ++ [name]) = some n → n.kind ≠ .directory ∧ n.kind ≠ .symlink)
    (hq : fs.locateWith followLast follow d (name :: names) = .ok q) : names = [] ∧
        q = d ++ [name] := by
  rw [locateWith, if_neg hname] at hq
  rcases hn : fs.node (d ++ [name]) with - | n
  · simp only [hn] at hq
    split at hq
    · next hnil => exact ⟨hnil, (Except.ok.inj hq).symm⟩
    · cases hq
  · obtain ⟨hdirectory, hsymlink⟩ := hnode n hn
    rw [hn] at hq
    cases n with
    | directory => exact absurd rfl hdirectory
    | symlink => exact absurd rfl hsymlink
    | _ =>
      simp only at hq
      split at hq
      · next hnil => exact ⟨hnil, (Except.ok.inj hq).symm⟩
      · cases hq

theorem locateWith_last (hname : name ≠ dotDot) (hnode : ∀ n, fs.node (d ++ [name]) = some n →
    n.kind ≠ .symlink ∨ followLast = false) :
    fs.locateWith followLast follow d [name] = .ok (d ++ [name]) := by
  rcases hn : fs.node (d ++ [name]) with - | n
  · rw [locateWith, if_neg hname, hn]
    rfl
  · cases n with
    | symlink mode mtimeNs target =>
      rw [locateWith_symlink hname hn, if_pos ⟨rfl, (hnode _ hn).resolve_left (not_not_intro rfl)⟩]
    | directory mode mtimeNs =>
      rw [locateWith_directory hname (isDirectory_iff.2 ⟨mode, mtimeNs, hn⟩), locateWith_nil]
    | _ =>
      rw [locateWith, if_neg hname, hn]
      rfl

/-- A path keeps its position while the tree grows, unless a link appears there that is to be
followed. -/
theorem locateWith_grown (h : Grown fs fs') (hnew : followLast = true → fs.node q = none →
    ∀ n', fs'.node q = some n' → n'.kind ≠ .symlink)
    (hfollow : ∀ d names, follow d names = .ok q → follow' d names = .ok q)
    (hq : fs.locateWith followLast follow d names = .ok q) :
    fs'.locateWith followLast follow' d names = .ok q := by
  induction names generalizing d with
  | nil => exact hq
  | cons name names ih =>
    by_cases hname : name = dotDot
    · subst hname
      rw [locateWith_dotDot] at hq ⊢
      exact ih hq
    · by_cases hdir : fs.isDirectory (d ++ [name]) = true
      · rw [locateWith_directory hname hdir] at hq
        rw [locateWith_directory hname (h.isDirectory hdir)]
        exact ih hq
      · by_cases hlink : ∃ mode mtimeNs target, fs.node (d ++ [name]) =
          some (.symlink mode mtimeNs target)
        · obtain ⟨mode, mtimeNs, target, hnode⟩ := hlink
          obtain ⟨n', hn', hkind, htarget⟩ := h _ _ hnode
          cases n' with
          | symlink mode' mtimeNs' target' =>
            obtain rfl : target' = target := htarget
            rw [locateWith_symlink hname hnode] at hq
            rw [locateWith_symlink hname hn']
            by_cases hlast : names = [] ∧ followLast = false
            · rw [if_pos hlast] at hq ⊢
              exact hq
            · rw [if_neg hlast] at hq ⊢
              exact hfollow _ _ hq
          | _ => cases hkind
        · have hother : ∀ n, fs.node (d ++ [name]) = some n → n.kind ≠ .directory ∧
              n.kind ≠ .symlink := by
            intro n hn
            cases n with
            | directory mode mtimeNs => exact absurd (isDirectory_iff.2 ⟨mode, mtimeNs, hn⟩) hdir
            | symlink mode mtimeNs target => exact absurd ⟨mode, mtimeNs, target, hn⟩ hlink
            | _ => exact ⟨nofun, nofun⟩
          obtain ⟨rfl, rfl⟩ := locateWith_other hname hother hq
          refine locateWith_last hname fun n' hn' => ?_
          rcases hn : fs.node (d ++ [name]) with - | n
          · cases followLast with
            | true => exact Or.inl (hnew rfl hn n' hn')
            | false => exact Or.inr rfl
          · obtain ⟨n'', hn'', hkind, -⟩ := h _ _ hn
            rw [hn'] at hn''
            cases hn''
            exact Or.inl (hkind ▸ (hother n hn).2)

theorem locate_grown {budget : Nat} (h : Grown fs fs')
    (hnew : followLast = true → fs.node q = none → ∀ n', fs'.node q = some n' → n'.kind ≠ .symlink)
    (hq : fs.locate followLast budget d names = .ok q) :
        fs'.locate followLast budget d names = .ok q := by
  induction budget generalizing d names with
  | zero => exact locateWith_grown h hnew (fun _ _ hfollow => by cases hfollow) hq
  | succ budget ih => exact locateWith_grown h hnew (fun _ _ hfollow => ih hfollow) hq

theorem locateWith_follow (hlast : ∀ n, fs.node q = some n → n.kind ≠ .symlink)
    (hfollow : ∀ d names, follow d names = .ok q → follow' d names = .ok q)
    (hq : fs.locateWith false follow d names = .ok q) :
    fs.locateWith true follow' d names = .ok q := by
  induction names generalizing d with
  | nil => exact hq
  | cons name names ih =>
    by_cases hname : name = dotDot
    · subst hname
      rw [locateWith_dotDot] at hq ⊢
      exact ih hq
    · rcases hn : fs.node (d ++ [name]) with - | n
      · rw [locateWith, if_neg hname, hn] at hq ⊢
        exact hq
      · cases n with
        | directory mode mtimeNs =>
          have hdir := isDirectory_iff.2 ⟨mode, mtimeNs, hn⟩
          rw [locateWith_directory hname hdir] at hq ⊢
          exact ih hq
        | symlink mode mtimeNs target =>
          rw [locateWith_symlink hname hn] at hq ⊢
          split at hq
          · obtain rfl := Except.ok.inj hq
            exact absurd rfl (hlast _ hn)
          · rw [if_neg fun hboth => Bool.noConfusion hboth.2]
            exact hfollow _ _ hq
        | _ =>
          rw [locateWith, if_neg hname, hn] at hq ⊢
          exact hq

theorem locate_follow {budget : Nat} (hlast : ∀ n, fs.node q = some n → n.kind ≠ .symlink)
    (hq : fs.locate false budget d names = .ok q) : fs.locate true budget d names = .ok q := by
  induction budget generalizing d names with
  | zero => exact locateWith_follow hlast (fun _ _ hfollow => by cases hfollow) hq
  | succ budget ih => exact locateWith_follow hlast (fun _ _ hfollow => ih hfollow) hq

theorem locate_directories {budget : Nat} {r : Path} (hr : dotDot ∉ r) (hdirs : ∀ r', r' <+: r →
    fs.isDirectory (d ++ r') = true) :
    fs.locate followLast budget d (r ++ names) = fs.locate followLast budget (d ++ r) names := by
  induction r generalizing d with
  | nil => simp
  | cons name r ih =>
    rw [List.mem_cons, not_or] at hr
    have hstep : fs.locate followLast budget d (name :: (r ++ names)) = fs.locate followLast budget
        (d ++ [name]) (r ++ names) := by
      have hdir := hdirs [name] ⟨r, rfl⟩
      cases budget with
      | zero => exact locateWith_directory (Ne.symm hr.1) hdir
      | succ budget => exact locateWith_directory (Ne.symm hr.1) hdir
    rw [List.cons_append, hstep, ih hr.2 fun r' hr' => ?_]
    · rw [List.append_assoc, List.singleton_append]
    · rw [List.append_assoc, List.singleton_append]
      exact hdirs (name :: r') (List.cons_prefix_cons.2 ⟨rfl, hr'⟩)

end Locate

end Grown

/-! ## What a call adds -/

/-- The tree has grown, by nodes with `P`. -/
structure Adds (fs fs' : FileSystem) (P : Path → Node → Prop) : Prop where
  grown : Grown fs fs'
  new : ∀ p n, fs.node p = none → fs'.node p = some n → P p n

section Adds

variable {fs fs' : FileSystem} {p q : Path} {n n₀ : Node}

theorem adds_create (h : fs.free p = true) : Adds fs (fs.create p n) fun q n' => q = p ∧
    n' = n where
  grown := grown_create h
  new := fun q n' hq hq' => by
    by_cases hqp : q = p
    · subst hqp
      exact ⟨rfl, (Option.some.inj ((creates h).node.symm.trans hq')).symm⟩
    · have hdir : fs.isDirectory q = false := by simp [isDirectory, hq]
      rw [create, node_put, if_neg hqp, node_touch_of_not_directory hdir, hq] at hq'
      cases hq'

theorem adds_put (hn₀ : fs.node p = some n₀) (hkind : n.kind = n₀.kind)
    (htarget : n.target = n₀.target) :
    Adds fs (fs.put p n) fun _ _ => False where
  grown := grown_put fun n₁ hn₁ => by
    rw [hn₀] at hn₁
    cases hn₁
    exact ⟨hkind, htarget⟩
  new := fun q n' hq hq' => by
    have hqp : q ≠ p := by
      rintro rfl
      rw [hn₀] at hq
      cases hq
    rw [node_put, if_neg hqp, hq] at hq'
    cases hq'

theorem Adds.mono {P Q : Path → Node → Prop} (h : Adds fs fs' P) (hPQ : ∀ p n, P p n → Q p n) :
    Adds fs fs' Q where
  grown := h.grown
  new := fun p n hp hp' => hPQ p n (h.new p n hp hp')

theorem makeDir_adds (hp : p ≠ []) (h : fs.makeDir p = some fs') :
    fs'.isDirectory p = true ∧ Adds fs fs' fun q n => q = p ∧ n.kind = .directory := by
  unfold makeDir at h
  rw [if_neg hp] at h
  obtain ⟨hfree, rfl⟩ := mkdir_eq_some.1 h
  exact ⟨isDirectory_iff.2 ⟨_, _, (creates hfree).node⟩,
    (adds_create hfree).mono fun q n ⟨hq, hn⟩ => ⟨hq, hn ▸ rfl⟩⟩

theorem symlink_adds {target : Str} (h : fs.symlink target p = some fs') :
    fs.node p = none ∧ (∃ n, fs'.node p = some n) ∧ Adds fs fs' fun q n => q = p ∧
    n.kind = .symlink ∧ n.target = target := by
  unfold symlink at h
  split at h
  · next hfree =>
    obtain rfl := Option.some.inj h
    exact ⟨(free_iff.1 hfree).2.2, ⟨_, (creates hfree).node⟩,
      (adds_create hfree).mono fun q n ⟨hq, hn⟩ => ⟨hq, hn ▸ ⟨rfl, rfl⟩⟩⟩
  · cases h

theorem openWrite_adds (h : fs.openWrite p = some fs') : Adds fs fs' fun _ n =>
    n.kind = .regular := by
  unfold openWrite at h
  split at h
  · split at h
    · next hfree =>
      obtain rfl := Option.some.inj h
      exact (adds_create hfree).mono fun q n ⟨_, hn⟩ => hn ▸ rfl
    · cases h
  · next mode mtimeNs data hnode =>
    obtain rfl := Option.some.inj h
    exact (adds_put (n := .file mode fs.now []) hnode rfl rfl).mono fun _ _ hnone => hnone.elim
  · cases h

theorem write_adds {data : Bytes} (h : fs.write p data = some fs') :
    Adds fs fs' fun _ _ => False := by
  unfold write at h
  split at h
  · next hnode =>
    obtain rfl := Option.some.inj h
    exact adds_put hnode rfl rfl
  · cases h

theorem chmod_adds {mode : Mode} (h : fs.chmod p mode = some fs') :
    Adds fs fs' fun _ _ => False := by
  unfold chmod at h
  split at h
  · next hnode =>
    obtain rfl := Option.some.inj h
    exact adds_put hnode rfl rfl
  · next hnode =>
    obtain rfl := Option.some.inj h
    exact adds_put hnode rfl rfl
  · cases h

theorem utime_adds {mtimeNs : Int} (h : fs.utime p mtimeNs = some fs') :
    Adds fs fs' fun _ _ => False := by
  unfold utime at h
  split at h
  · next hnode =>
    obtain rfl := Option.some.inj h
    exact adds_put hnode rfl rfl
  · next hnode =>
    obtain rfl := Option.some.inj h
    exact adds_put hnode rfl rfl
  · next hnode =>
    obtain rfl := Option.some.inj h
    exact adds_put hnode rfl rfl
  · cases h

end Adds

end FileSystem

end KiroCrew
