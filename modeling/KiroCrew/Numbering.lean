import KiroCrew.Bucket

/-!
# Checkpoints number themselves past what earlier ones left

A checkpoint attempt puts chunks, a manifest and a commit, and reads the store before the last one
(`commit_generation`). One that is interrupted leaves the effects of a first part of these steps:
chunks nothing refers to, a manifest without a commit, or a commit that its container never heard
of. `Written` is what all of them keep: every commit record of the prefix is one the store can read.
`next_attempt_commits`: whatever is left behind, an attempt under the next generation goes through.
-/

namespace KiroCrew

open Bucket

/-- What an attempt puts: the chunks it found missing, in the order its workers put them, and a
manifest. -/
structure StoreAttempt where
  generation : Nat
  chunks : List (Digest × Bytes)
  digest : Digest
  isDigest : isDigest digest = true
  ciphertext : Bytes
  committedAt : Instant

/-- The steps of an attempt at the store; `commit_generation` is the last three. -/
inductive StoreStep
  | chunk (digest : Digest) (ciphertext : Bytes)
  | manifest
  | checkManifest
  | checkMonotone
  | commit

namespace StoreAttempt

variable (iso : IsoFormat) (a : StoreAttempt)

def blob : EncryptedBlob where
  digest := a.digest.text
  ciphertext := a.ciphertext

def commitSteps : List StoreStep := [.manifest, .checkManifest, .checkMonotone, .commit]

def steps : List StoreStep := (a.chunks.map fun x => StoreStep.chunk x.1 x.2) ++ commitSteps

def perform (b : Bucket) : StoreStep → Except StoreError Bucket
  | .chunk digest ciphertext => .ok (b.putChunk digest ciphertext)
  | .manifest => b.uploadManifest a.generation a.blob
  | .checkManifest => (b.checkManifest a.generation a.digest).map fun _ => b
  | .checkMonotone => (b.checkMonotone iso a.generation).map fun _ => b
  | .commit => b.putCommit a.generation a.digest a.committedAt

/-- The attempt that meets no failure: every step in turn. -/
def complete (b : Bucket) : Except StoreError Bucket := a.steps.foldlM (a.perform iso) b

/-- The store after some steps; a step that fails ends the attempt. -/
def leaves (b : Bucket) : List StoreStep → Bucket
  | [] => b
  | step :: steps =>
    match a.perform iso b step with
    | .ok b' => leaves b' steps
    | .error _ => b

end StoreAttempt

/-- An earlier attempt, of any generation, and after how many steps it was interrupted. -/
abbrev History := List (StoreAttempt × Nat)

/-- What attempts one after the other leave in an empty prefix. -/
def History.stored (iso : IsoFormat) (history : History) : Bucket :=
  history.foldl (fun b x => x.1.leaves iso b (x.1.steps.take x.2)) {}

/-! ## What is in the store -/

/-- Every commit record is one that the store has written. -/
def Written (b : Bucket) : Prop :=
  ∀ x ∈ b.commits, ∃ d t, isDigest d = true ∧ x.2 = dumpsBytes (.obj (commitFields x.1 d t))

variable {f : IsoFormat} {a : StoreAttempt} {b b' : Bucket}

theorem perform_commits {step : StoreStep} (h : a.perform f b step = .ok b') :
    b'.commits = b.commits ∨
    b'.commits = b.commits ++
    [(a.generation, dumpsBytes (.obj (commitFields a.generation a.digest a.committedAt)))] := by
  cases step with
  | chunk digest ciphertext =>
    cases h
    exact Or.inl rfl
  | manifest =>
    simp only [StoreAttempt.perform, uploadManifest] at h
    split at h
    · cases h
    · cases h
      exact Or.inl rfl
  | checkManifest =>
    simp only [StoreAttempt.perform] at h
    cases hc : b.checkManifest a.generation a.digest with
    | error e => rw [hc] at h; cases h
    | ok u => rw [hc] at h; cases h; exact Or.inl rfl
  | checkMonotone =>
    simp only [StoreAttempt.perform] at h
    cases hc : b.checkMonotone f a.generation with
    | error e => rw [hc] at h; cases h
    | ok u => rw [hc] at h; cases h; exact Or.inl rfl
  | commit =>
    simp only [StoreAttempt.perform, putCommit] at h
    split at h
    · cases h
    · cases h
      exact Or.inr rfl

theorem Written.perform {step : StoreStep} (h : Written b) (hstep : a.perform f b step = .ok b') :
    Written b' := by
  intro x hx
  rcases perform_commits hstep with heq | heq
  · exact h x (heq ▸ hx)
  · rw [heq, List.mem_append, List.mem_singleton] at hx
    rcases hx with hx | rfl
    · exact h x hx
    · exact ⟨a.digest, a.committedAt, a.isDigest, rfl⟩

theorem Written.leaves {steps : List StoreStep} (h : Written b) : Written (a.leaves f b steps) := by
  induction steps generalizing b with
  | nil => exact h
  | cons step steps ih =>
    simp only [StoreAttempt.leaves]
    split
    · next b' hstep => exact ih (h.perform hstep)
    · exact h

theorem Written.stored (history : History) : Written (history.stored f) := by
  have hrun : ∀ b, Written b →
      Written (history.foldl (fun b x => x.1.leaves f b (x.1.steps.take x.2)) b) := by
    induction history with
    | nil => exact fun b hb => hb
    | cons x history ih => exact fun b hb => ih _ hb.leaves
  exact hrun {} (by intro x hx; cases hx)

/-! ## Listings -/

theorem readCommits_of_written (commits : Dict Nat Bytes)
    (h : ∀ x ∈ commits, ∃ d t, isDigest d = true ∧ x.2 = dumpsBytes (.obj (commitFields x.1 d t))) :
    ∃ read, commits.mapM (fun x => readCommit f x.1 x.2) = .ok read ∧ read.map (·.generation) =
        Dict.keys commits := by
  induction commits with
  | nil => exact ⟨[], rfl, rfl⟩
  | cons x commits ih =>
    obtain ⟨d, t, hd, hraw⟩ := h x List.mem_cons_self
    obtain ⟨c, hread, hgeneration, -⟩ := readCommit_payload (f := f) (g := x.1) (t := t) hd
    obtain ⟨read, hrest, hkeys⟩ := ih fun y hy => h y (List.mem_cons_of_mem _ hy)
    refine ⟨c :: read, ?_, ?_⟩
    · rw [List.mapM_cons, hraw, hread, hrest]
      rfl
    · simp [hgeneration, hkeys, Dict.keys]

theorem committedGenerations_of_written (h : Written b) : ∃ committed, b.committedGenerations f =
    .ok committed ∧
    committed.Pairwise (fun c c' => c.generation ≤ c'.generation) ∧
    ∀ n, n ∈ committed.map (·.generation) ↔ n ∈ Dict.keys b.commits := by
  obtain ⟨read, hread, hkeys⟩ := readCommits_of_written (f := f) b.commits h
  refine ⟨read.insertionSort fun c c' => c.generation ≤ c'.generation, ?_, ?_, fun n => ?_⟩
  · rw [committedGenerations, hread]
    rfl
  · have htotal : Std.Total fun c c' : CommittedGeneration => c.generation ≤ c'.generation :=
      ⟨fun c c' => Nat.le_total _ _⟩
    have htrans : IsTrans CommittedGeneration fun c c' => c.generation ≤ c'.generation :=
      ⟨fun c c' c'' => Nat.le_trans⟩
    exact List.pairwise_insertionSort _ _
  · rw [← hkeys]
    exact ((List.perm_insertionSort _ read).map _).mem_iff

theorem le_getLast {committed : List CommittedGeneration} {c : CommittedGeneration}
    (h : committed.Pairwise fun c c' => c.generation ≤ c'.generation) (hc : c ∈ committed) :
    ∃ last, committed.getLast? = some last ∧ c.generation ≤ last.generation := by
  have hne := List.ne_nil_of_mem hc
  exact ⟨committed.getLast hne, List.getLast?_eq_some_getLast hne,
    h.rel_getLast_of_rel_getLast_getLast hc le_rfl⟩

theorem le_foldl_max {l : List Nat} {m : Nat} : m ≤ l.foldl max m ∧ ∀ n ∈ l, n ≤ l.foldl max m := by
  induction l generalizing m with
  | nil => simp
  | cons x l ih =>
    obtain ⟨hstart, hrest⟩ := ih (m := max m x)
    refine ⟨(Nat.le_max_left m x).trans hstart, fun n hn => ?_⟩
    rcases List.mem_cons.1 hn with rfl | hn
    · exact (Nat.le_max_right m n).trans hstart
    · exact hrest n hn

/-- The next generation is past every manifest and every commit of the prefix. -/
structure Fresh (b : Bucket) (g : Nat) : Prop where
  positive : 0 < g
  manifests : ∀ n ∈ Dict.keys b.manifests, n < g
  commits : ∀ n ∈ Dict.keys b.commits, n < g

theorem nextGeneration_fresh (h : Written b) : ∃ g, b.nextGeneration f = .ok g ∧ Fresh b g := by
  obtain ⟨committed, hcommitted, hsorted, hkeys⟩ := committedGenerations_of_written (f := f) h
  refine ⟨_, by rw [nextGeneration, hcommitted]; rfl, Nat.succ_pos _, fun n hn =>
    ?_, fun n hn => ?_⟩
  · exact Nat.lt_succ_of_le (le_foldl_max.2 n hn)
  · obtain ⟨c, hc, rfl⟩ := List.mem_map.1 ((hkeys n).2 hn)
    obtain ⟨last, hlast, hle⟩ := le_getLast hsorted hc
    refine Nat.lt_succ_of_le (hle.trans ?_)
    rw [hlast]
    exact le_foldl_max.1

/-! ## The attempt -/

theorem get?_of_lt {d : Dict Nat Bytes} {g : Nat} (h : ∀ n ∈ Dict.keys d, n < g) :
    Dict.get? d g = none := by
  rw [Option.eq_none_iff_forall_ne_some]
  intro raw hraw
  exact Nat.lt_irrefl g (h g (Dict.get?_isSome.1 (by rw [hraw]; rfl)))

theorem perform_chunks (chunks : List (Digest × Bytes)) :
    ∃ b', (chunks.map fun x => StoreStep.chunk x.1 x.2).foldlM (a.perform f) b = .ok b' ∧
    b'.manifests = b.manifests ∧ b'.commits = b.commits := by
  induction chunks generalizing b with
  | nil => exact ⟨b, rfl, rfl, rfl⟩
  | cons x chunks ih =>
    obtain ⟨b', hrun, hmanifests, hcommits⟩ := ih (b := b.putChunk x.1 x.2)
    exact ⟨b', hrun, hmanifests, hcommits⟩

/-- An attempt under a fresh generation meets no failure of its own. -/
theorem complete_of_fresh (h : Written b) (hfresh : Fresh b a.generation) :
    ∃ b', a.complete f b = .ok b' ∧
    b'.commits = b.commits ++
    [(a.generation, dumpsBytes (.obj (commitFields a.generation a.digest a.committedAt)))] ∧
    b'.getManifest a.generation = .ok a.blob := by
  obtain ⟨b₁, hchunks, hmanifests, hcommits⟩ := perform_chunks (f := f) (a := a) (b := b) a.chunks
  have hwritten : Written b₁ := by rw [Written, hcommits]; exact h
  have hnone : Dict.get? b₁.manifests a.generation = none := by
    rw [hmanifests]; exact get?_of_lt hfresh.manifests
  let b₂ : Bucket :=
    { b₁ with
      manifests := b₁.manifests ++ [(a.generation, dumpsBytes (.obj (manifestFields a.blob)))] }
  have hupload : a.perform f b₁ .manifest = .ok b₂ := by
    simp [StoreAttempt.perform, uploadManifest, hnone, b₂]
  have hmanifest : b₂.getManifest a.generation = .ok a.blob := by
    have hget : Dict.get? b₂.manifests a.generation =
        some (dumpsBytes (.obj (manifestFields a.blob))) := by
      simp only [Dict.get?, Option.map_eq_none_iff] at hnone
      simp [Dict.get?, b₂, hnone]
    rw [getManifest, hget]
    exact readManifest_payload (Str.safe_map_toNat a.digest)
  have hdigest : a.perform f b₂ .checkManifest = .ok b₂ := by
    simp [StoreAttempt.perform, checkManifest, hmanifest, StoreAttempt.blob, Except.map]
  have hmonotone : a.perform f b₂ .checkMonotone = .ok b₂ := by
    obtain ⟨committed, hcommitted, -, hkeys⟩ :=
      committedGenerations_of_written (f := f) (b := b₂) hwritten
    have hnew : ¬ committed.getLast?.any (fun c => a.generation ≤ c.generation) = true := by
      rw [Option.any_eq_true]
      rintro ⟨c, hc, hle⟩
      have hmem := (hkeys c.generation).1 (List.mem_map_of_mem (List.mem_of_getLast? hc))
      have hlt := hfresh.commits c.generation (by rwa [← hcommits])
      simp only [decide_eq_true_eq] at hle
      omega
    simp only [StoreAttempt.perform, checkMonotone, hcommitted, hnew]
    rfl
  have hput : a.perform f b₂ .commit = .ok { b₂ with
      commits :=
        b₂.commits ++ [(a.generation,
            dumpsBytes (.obj (commitFields a.generation a.digest a.committedAt)))] } := by
    have hfree : Dict.get? b₂.commits a.generation = none :=
      get?_of_lt (by simpa only [b₂, hcommits] using hfresh.commits)
    simp [StoreAttempt.perform, putCommit, hfree]
  have hnew : b₂.commits ++
    [(a.generation, dumpsBytes (.obj (commitFields a.generation a.digest a.committedAt)))] =
      b.commits ++ [(a.generation,
      dumpsBytes (.obj (commitFields a.generation a.digest a.committedAt)))] := by
    show b₁.commits ++ _ = _
    rw [hcommits]
  refine ⟨{ b₂ with commits := b₂.commits ++ [_] }, ?_, hnew, hmanifest⟩
  rw [StoreAttempt.complete, StoreAttempt.steps, List.foldlM_append, hchunks]
  show StoreAttempt.commitSteps.foldlM (a.perform f) b₁ = _
  rw [StoreAttempt.commitSteps, List.foldlM_cons, hupload]
  show [StoreStep.checkManifest, .checkMonotone, .commit].foldlM (a.perform f) b₂ = _
  rw [List.foldlM_cons, hdigest]
  show [StoreStep.checkMonotone, .commit].foldlM (a.perform f) b₂ = _
  rw [List.foldlM_cons, hmonotone]
  show [StoreStep.commit].foldlM (a.perform f) b₂ = _
  rw [List.foldlM_cons, hput]
  rfl

theorem newest_of_put (h : Written b) (hfresh : Fresh b a.generation)
    (hput : b'.commits = b.commits ++
    [(a.generation, dumpsBytes (.obj (commitFields a.generation a.digest a.committedAt)))]) :
    ∃ committed c, b'.committedGenerations f = .ok committed ∧ committed.getLast? = some c ∧
      c.generation = a.generation ∧ c.manifestDigest = a.digest := by
  obtain ⟨read, hread, hkeys⟩ := readCommits_of_written (f := f) b.commits h
  obtain ⟨c, hc, hgeneration, hdigest⟩ :=
    readCommit_payload (f := f) (g := a.generation) (t := a.committedAt) a.isDigest
  have hrun : b'.committedGenerations f =
      .ok ((read ++ [c]).insertionSort fun c c' => c.generation ≤ c'.generation) := by
    rw [committedGenerations, hput, List.mapM_append, hread, List.mapM_cons, hc]
    rfl
  have htotal : Std.Total fun c c' : CommittedGeneration => c.generation ≤ c'.generation :=
    ⟨fun c c' => Nat.le_total _ _⟩
  have htrans : IsTrans CommittedGeneration fun c c' => c.generation ≤ c'.generation :=
    ⟨fun c c' c'' => Nat.le_trans⟩
  obtain ⟨last, hlast, hle⟩ := le_getLast (List.pairwise_insertionSort _ (read ++ [c]))
    ((List.perm_insertionSort _ _).mem_iff.2 (List.mem_append_right _ (List.mem_singleton_self c)))
  refine ⟨_, last, hrun, hlast, ?_⟩
  have hmem := (List.perm_insertionSort _ _).mem_iff.1 (List.mem_of_getLast? hlast)
  rcases List.mem_append.1 hmem with hold | hnew
  · have hlt := hfresh.commits last.generation (hkeys ▸ List.mem_map_of_mem hold)
    omega
  · rw [List.mem_singleton.1 hnew]
    exact ⟨hgeneration, hdigest⟩

/-- After any interrupted attempts, the next generation is one no manifest and no commit has, past
every committed one, and an attempt under it puts its manifest, passes the checks and commits. -/
theorem next_attempt_commits (iso : IsoFormat) (history : History) :
    ∃ g, (history.stored iso).nextGeneration iso = .ok g ∧ Fresh (history.stored iso) g ∧
      ∀ a : StoreAttempt, a.generation = g → ∃ b' committed c,
        a.complete iso (history.stored iso) = .ok b' ∧ b'.getManifest g = .ok a.blob ∧
        b'.committedGenerations iso = .ok committed ∧ committed.getLast? = some c ∧
        c.generation = g ∧ c.manifestDigest = a.digest := by
  have hwritten := Written.stored (f := iso) history
  obtain ⟨g, hnext, hfresh⟩ := nextGeneration_fresh (f := iso) hwritten
  refine ⟨g, hnext, hfresh, ?_⟩
  rintro a rfl
  obtain ⟨b', hrun, hcommits, hmanifest⟩ := complete_of_fresh (f := iso) hwritten hfresh
  obtain ⟨committed, c, hcommitted, hlast, hc⟩ := newest_of_put (f := iso) hwritten hfresh hcommits
  exact ⟨b', committed, c, hrun, hmanifest, hcommitted, hlast, hc⟩

end KiroCrew
