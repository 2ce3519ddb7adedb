import KiroCrew.Receipt

/-!
# Objects of the checkpoint bucket

One sandbox prefix of the bucket: the chunks, the manifests and the commit records. Manifests and
commits are put with `If-None-Match: *`, so a second put of the same generation is refused (412) and
what is stored stays (`Objects.putManifest`, `Objects.putCommit`); chunks are content-addressed and
a put of a present chunk changes nothing. Nothing is deleted. `M` is what a manifest object carries
besides its digest.
-/

namespace KiroCrew

/-- The object `manifests/g.json.enc`. -/
structure ManifestObject (M : Type) where
  digest : Digest
  content : M
deriving DecidableEq, Repr

structure Objects (M : Type) where
  chunks : List Digest := []
  manifests : List (Nat × ManifestObject M) := []
  commits : List CommitRecord := []
deriving DecidableEq, Repr

namespace Objects

variable {M : Type} {o o' : Objects M} {g n : Nat}

/-- `get_manifest` -/
def manifest? (o : Objects M) (generation : Nat) : Option (ManifestObject M) :=
  (o.manifests.find? (·.1 = generation)).map (·.2)

/-- The commit record of a generation. -/
def commit? (o : Objects M) (generation : Nat) : Option CommitRecord :=
  o.commits.find? (·.generation = generation)

/-- The conditional put of `upload_manifest`. -/
def putManifest (o : Objects M) (generation : Nat) (m : ManifestObject M) : Option (Objects M) :=
  if (o.manifest? generation).isSome then none
    else some { o with manifests := (generation, m) :: o.manifests }

/-- The conditional put at the end of `commit_generation`. -/
def putCommit (o : Objects M) (c : CommitRecord) : Option (Objects M) :=
  if (o.commit? c.generation).isSome then none else some { o with commits := c :: o.commits }

/-- The put of `upload_chunk`. -/
def putChunk (o : Objects M) (digest : Digest) : Objects M :=
  if digest ∈ o.chunks then o else { o with chunks := digest :: o.chunks }

/-- The greatest of a list of generations, 0 for none. -/
def highest (generations : List Nat) : Nat := generations.foldr max 0

/-- `latest_committed` -/
def newest (o : Objects M) : Option Nat :=
  if o.commits = [] then none else some (highest (o.commits.map (·.generation)))

/-- The generation `restore` falls back to: the newest but one. -/
def newestButOne (o : Objects M) : Option Nat :=
  o.newest.bind fun g =>
    let older := (o.commits.map (·.generation)).filter (· < g)
    if older = [] then none else some (highest older)

def nextGeneration (o : Objects M) : Nat :=
  max (o.newest.getD 0) (highest (o.manifests.map (·.1))) + 1

/-- The checks of `commit_generation`: the stored manifest has the digest, the generation is new. -/
def commitReady (o : Objects M) (generation : Nat) (digest : Digest) : Bool :=
  (o.manifest? generation).any (·.digest = digest) && o.newest.all (· < generation)

/-! ## Listings -/

theorem le_highest {l : List Nat} (h : n ∈ l) : n ≤ highest l := by
  induction l with
  | nil => simp at h
  | cons a l ih =>
    rcases List.mem_cons.1 h with rfl | h
    · exact Nat.le_max_left _ _
    · exact Nat.le_trans (ih h) (Nat.le_max_right _ _)

theorem highest_mem {l : List Nat} (h : l ≠ []) : highest l ∈ l := by
  induction l with
  | nil => exact absurd rfl h
  | cons a l ih =>
    by_cases hl : l = []
    · subst hl; simp [highest]
    · have hm : highest (a :: l) = max a (highest l) := rfl
      rcases Nat.le_total a (highest l) with hle | hle
      · rw [hm, Nat.max_eq_right hle]; exact List.mem_cons_of_mem _ (ih hl)
      · rw [hm, Nat.max_eq_left hle]; exact List.mem_cons_self

theorem le_of_newest {c : CommitRecord} (h : o.newest = some g) (hc : c ∈ o.commits) :
    c.generation ≤ g := by
  unfold newest at h
  split at h
  · simp at h
  · rw [← Option.some.inj h]
    exact le_highest (List.mem_map_of_mem hc)

theorem newest_mem (h : o.newest = some g) : ∃ c ∈ o.commits, c.generation = g := by
  unfold newest at h
  split at h
  · simp at h
  · next hne =>
    rw [← Option.some.inj h]
    exact List.mem_map.1 (highest_mem (by simpa using hne))

theorem newest_eq_none : o.newest = none ↔ o.commits = [] := by
  unfold newest; split <;> simp_all

theorem newest_eq_some {c : CommitRecord} (hc : c ∈ o.commits)
    (h : ∀ c' ∈ o.commits, c'.generation ≤ c.generation) :
    o.newest = some c.generation := by
  cases hn : o.newest with
  | none => rw [newest_eq_none.1 hn] at hc; simp at hc
  | some g =>
    obtain ⟨c', hc', rfl⟩ := newest_mem hn
    exact congrArg some (Nat.le_antisymm (h c' hc') (le_of_newest hn hc))

theorem commit_lt_nextGeneration {c : CommitRecord} (hc : c ∈ o.commits) :
    c.generation < o.nextGeneration := by
  cases hn : o.newest with
  | none => rw [newest_eq_none.1 hn] at hc; simp at hc
  | some g =>
    have := le_of_newest hn hc
    simp only [nextGeneration, hn, Option.getD_some]
    omega

theorem commit?_eq_some {c : CommitRecord} (h : o.commit? g = some c) : c ∈ o.commits ∧
    c.generation = g :=
  ⟨List.mem_of_find?_eq_some h, by simpa using List.find?_some h⟩

theorem commit?_eq_none (h : o.commit? g = none) : ∀ c ∈ o.commits, c.generation ≠ g := by
  simpa [commit?, List.find?_eq_none] using h

theorem putCommit_eq_some {c : CommitRecord} (h : o.putCommit c = some o') :
    (∀ c' ∈ o.commits, c'.generation ≠ c.generation) ∧
    o' = { o with commits := c :: o.commits } := by
  unfold putCommit at h
  split at h
  · simp at h
  · next hn =>
    exact ⟨commit?_eq_none (by simpa using hn), by simpa using h.symm⟩

theorem putManifest_eq_some {m : ManifestObject M} (h : o.putManifest g m = some o') :
    o.manifest? g = none ∧ o' = { o with manifests := (g, m) :: o.manifests } := by
  unfold putManifest at h
  split at h
  · simp at h
  · next hn => exact ⟨by simpa using hn, by simpa using h.symm⟩

/-- The new commit's record is what the listing then shows for its generation. -/
theorem commit?_putCommit {c : CommitRecord} (h : o.putCommit c = some o') :
    o'.commit? c.generation = some c := by
  obtain ⟨-, rfl⟩ := putCommit_eq_some h
  simp [commit?]

theorem newest_putCommit {c : CommitRecord} (h : o.putCommit c = some o')
    (hlt : ∀ c' ∈ o.commits, c'.generation < c.generation) : o'.newest = some c.generation := by
  obtain ⟨-, rfl⟩ := putCommit_eq_some h
  refine newest_eq_some List.mem_cons_self fun c' hc' => ?_
  rcases List.mem_cons.1 hc' with rfl | hc'
  · exact Nat.le_refl _
  · exact Nat.le_of_lt (hlt c' hc')

/-! ## Growth -/

/-- Nothing that was stored is gone or replaced. -/
structure Grows (o o' : Objects M) : Prop where
  chunks : ∀ d ∈ o.chunks, d ∈ o'.chunks
  manifests : ∀ g m, o.manifest? g = some m → o'.manifest? g = some m
  commits : ∀ g c, o.commit? g = some c → o'.commit? g = some c

namespace Grows

theorem refl (o : Objects M) : Grows o o := ⟨fun _ h => h, fun _ _ h => h, fun _ _ h => h⟩

theorem trans {o'' : Objects M} (h : Grows o o') (h' : Grows o' o'') : Grows o o'' :=
  ⟨fun d hd => h'.chunks d (h.chunks d hd), fun g m hm => h'.manifests g m (h.manifests g m hm),
    fun g c hc => h'.commits g c (h.commits g c hc)⟩

end Grows

theorem mem_putChunk {d d' : Digest} : d ∈ (o.putChunk d').chunks ↔ d = d' ∨ d ∈ o.chunks := by
  unfold putChunk
  split
  · next h =>
    refine ⟨Or.inr, ?_⟩
    rintro (rfl | hd)
    · exact h
    · exact hd
  · simp

theorem grows_putChunk (o : Objects M) (d : Digest) : Grows o (o.putChunk d) := by
  refine ⟨fun d' hd' => mem_putChunk.2 (Or.inr hd'), fun g m hm => ?_, fun g c hc => ?_⟩ <;>
    (unfold putChunk; split <;> assumption)

theorem grows_putManifest {m : ManifestObject M} (h : o.putManifest g m = some o') :
    Grows o o' := by
  obtain ⟨hnone, rfl⟩ := putManifest_eq_some h
  refine ⟨fun d hd => hd, fun n m' hm' => ?_, fun n c hc => hc⟩
  have hne : g ≠ n := by
    rintro rfl
    rw [hnone] at hm'
    exact absurd hm' (by simp)
  simpa [manifest?, hne] using hm'

theorem grows_putCommit {c : CommitRecord} (h : o.putCommit c = some o') : Grows o o' := by
  obtain ⟨hnew, rfl⟩ := putCommit_eq_some h
  refine ⟨fun d hd => hd, fun n m hm => hm, fun n c' hc' => ?_⟩
  obtain ⟨hmem, hgen⟩ := commit?_eq_some hc'
  have hne : c.generation ≠ n := fun heq => hnew c' hmem (hgen.trans heq.symm)
  simpa [commit?, hne] using hc'

theorem mem_manifests {m : ManifestObject M} (h : o.manifest? g = some m) :
    (g, m) ∈ o.manifests := by
  obtain ⟨x, hx, rfl⟩ := Option.map_eq_some_iff.1 h
  have hg : x.1 = g := by simpa using List.find?_some hx
  exact hg ▸ List.mem_of_find?_eq_some hx

end Objects

end KiroCrew
