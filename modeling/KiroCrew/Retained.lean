import KiroCrew.Lib.Batches
import KiroCrew.Retention

/-!
# What garbage collection keeps

A generation is retained while fewer than `retain` committed ones are past it (`mem_retained`);
otherwise it is `Outranked`, and stays so, since a sweep leaves the last generations.
`Collection.Inv` is the invariant of the checkpoint attempts weakened by that: a committed
generation is outranked or complete, and what an attempt under way relies on is stored. A sweep
keeps it if it deletes no chunk that something under way relies on (`Spares`), which the manager
itself does not ask: `swept_between_question_and_commit`.
-/

namespace KiroCrew

open Attempts (Stored ProcessInv)

namespace RetentionManager

variable {r : RetentionManager} {o o' : Objects PersistenceManifest} {g : Nat}
    {keys : List ObjectKey}

/-- So many generations past it are committed that it is not among the last. -/
def Outranked (r : RetentionManager) (o : Objects PersistenceManifest) (g : Nat) : Prop :=
  r.retain ≤ ((o.commits.map (·.generation)).filter (g < ·)).length

/-! ## The last generations -/

theorem mem_drop_of_sorted {l : List Nat} (h : l.Pairwise (· < ·)) {n : Nat} :
    g ∈ l.drop (l.length - n) ↔ g ∈ l ∧ (l.filter (g < ·)).length < n := by
  induction l with
  | nil => simp
  | cons a l ih =>
    rw [List.pairwise_cons] at h
    by_cases hn : l.length + 1 ≤ n
    · rw [List.length_cons, Nat.sub_eq_zero_of_le hn, List.drop_zero]
      refine (and_iff_left_of_imp fun hg => ?_).symm
      have hlt : ((a :: l).filter (g < ·)).length < (a :: l).length :=
        List.length_filter_lt_length_iff_exists.2 ⟨g, hg, by simp⟩
      exact hlt.trans_le hn
    · have hdrop : (a :: l).length - n = (l.length - n) + 1 := by
        rw [List.length_cons]
        omega
      rw [hdrop, List.drop_succ_cons, ih h.2, List.mem_cons]
      constructor
      · rintro ⟨hg, hlt⟩
        have hge : ¬ g < a := Nat.not_lt.2 (h.1 g hg).le
        exact ⟨Or.inr hg, by simpa [List.filter_cons, hge] using hlt⟩
      · rintro ⟨rfl | hg, hlt⟩
        · have hall : l.filter (g < ·) = l :=
            List.filter_eq_self.2 fun x hx => by simpa using h.1 x hx
          rw [List.filter_cons, if_neg (by simp), hall] at hlt
          omega
        · have hge : ¬ g < a := Nat.not_lt.2 (h.1 g hg).le
          exact ⟨hg, by simpa [List.filter_cons, hge] using hlt⟩

theorem committed_sorted (h : (o.commits.map (·.generation)).Nodup) :
    (committed o).Pairwise (· < ·) := by
  have hle : (committed o).Pairwise (· ≤ ·) := List.pairwise_insertionSort _ _
  have hne : (committed o).Nodup := (List.perm_insertionSort _ _).nodup_iff.2 h
  exact (hle.and hne).imp fun hx => lt_of_le_of_ne hx.1 hx.2

theorem mem_retained (h : (o.commits.map (·.generation)).Nodup) :
    g ∈ r.retained o ↔ g ∈ o.commits.map (·.generation) ∧ ¬ r.Outranked o g := by
  have hperm := List.perm_insertionSort (· ≤ ·) (o.commits.map (·.generation))
  unfold retained
  rw [mem_drop_of_sorted (committed_sorted h), Outranked, Nat.not_le]
  exact and_congr hperm.mem_iff (by rw [committed, (hperm.filter _).length_eq])

/-- Whoever has the last generations past it keeps them past it. -/
theorem Outranked.removeAll (houtranked : r.Outranked o g)
    (h : (o.commits.map (·.generation)).Nodup)
    (hkeys : ∀ g' ∈ r.retained o, .generation g' ∉ keys) : r.Outranked (o.removeAll keys) g := by
  have hperm := List.perm_insertionSort (· ≤ ·) (o.commits.map (·.generation))
  have hlength : (r.retained o).length = r.retain := by
    have hcount : ((o.commits.map (·.generation)).filter (g < ·)).length ≤
        (committed o).length := by
      rw [committed, hperm.length_eq]
      exact List.length_filter_le _ _
    rw [retained, List.length_drop]
    have := houtranked.trans hcount
    omega
  have hnodup : (r.retained o).Nodup := (hperm.nodup_iff.2 h).sublist (List.drop_sublist _ _)
  have hsubset : r.retained o ⊆ ((o.removeAll keys).commits.map (·.generation)).filter (g < ·) := by
    intro x hx
    obtain ⟨hmem, hrank⟩ := (mem_retained h).1 hx
    have hlt : g < x := by
      by_contra hge
      refine hrank (houtranked.trans
        (List.Sublist.length_le (List.monotone_filter_right _ fun y hy => ?_)))
      have : g < y := of_decide_eq_true hy
      exact decide_eq_true (by omega)
    obtain ⟨c, hc, rfl⟩ := List.mem_map.1 hmem
    exact List.mem_filter.2 ⟨List.mem_map_of_mem (Objects.mem_commits_removeAll.2 ⟨hc, hkeys _ hx⟩),
      decide_eq_true hlt⟩
  rw [Outranked, ← hlength]
  exact (List.subperm_of_subset hnodup hsubset).length_le

/-- What a sweep deletes was a candidate at the mark it begins with. -/
theorem overdue_mark {p : GarbageCollectionPlan} {marks marks' : Marks} {marked now : Int}
    {key : ObjectKey}
    (hmark : r.mark o marks marked = some (p, marks')) (hkey : key ∈ r.overdue marks' now) :
    r.plan o = some p ∧ key ∈ p.current := by
  obtain ⟨p', hp, heq⟩ := Option.map_eq_some_iff.1 hmark
  cases heq
  obtain ⟨x, hx, rfl⟩ := List.mem_map.1 hkey
  obtain ⟨key, hcandidate, rfl⟩ := List.mem_map.1 (List.mem_filter.1 hx).1
  exact ⟨hp, hcandidate⟩

theorem plan_generation {p : GarbageCollectionPlan} (h : r.plan o = some p)
    (hmem : .generation g ∈ p.current) :
    g ∈ o.commits.map (·.generation) ∧ g ∉ r.retained o := by
  obtain ⟨manifests, -, rfl⟩ := Option.map_eq_some_iff.1 h
  simp only [GarbageCollectionPlan.current, List.mem_append, List.mem_map, reduceCtorEq, and_false,
    exists_false, or_false,
    ObjectKey.generation.injEq, exists_eq_right, List.mem_filter, decide_eq_true_eq] at hmem
  exact ⟨(List.perm_insertionSort (· ≤ ·) _).mem_iff.1 hmem.1, hmem.2⟩

theorem plan_chunk {p : GarbageCollectionPlan} {digest : Digest} (h : r.plan o = some p)
    (hmem : .chunk digest ∈ p.current)
    (hg : g ∈ r.retained o) {m : ManifestObject PersistenceManifest} (hm : o.manifest? g = some m) :
    digest ∉ m.content.references := by
  obtain ⟨manifests, hmanifests, rfl⟩ := Option.map_eq_some_iff.1 h
  simp only [GarbageCollectionPlan.current, List.mem_append, List.mem_map, reduceCtorEq, and_false,
    exists_false, false_or,
    ObjectKey.chunk.injEq, exists_eq_right, List.mem_filter, decide_eq_true_eq, List.mem_flatMap,
    not_exists, not_and] at hmem
  refine hmem.2 m ?_
  have hread : o.manifest? g ∈ manifests.map some := by
    rw [← Batches.mapM_eq_some.1 hmanifests]
    exact List.mem_map_of_mem hg
  rw [hm] at hread
  simpa using hread

end RetentionManager

namespace Collection

variable {r : RetentionManager} {sha : Sha256} {o o' : Objects PersistenceManifest}
    {s s' : Attempts.State} {t : Attempts.Attempt} {stage : Attempts.Stage}
  {g : Nat} {digest : Digest} {a p : Nat}

/-- The checkpoint is under way. -/
def live : Attempts.Stage → Bool
  | .failed | .remembered => false
  | _ => true

/-- The put of the manifest has been answered, the commit not yet sent. -/
def uploaded : Attempts.Stage → Bool
  | .manifestUploaded | .digestRead | .commitsRead => true
  | _ => false

def Whole (o : Objects PersistenceManifest) (g : Nat) (digest : Digest) : Prop :=
  ∃ m, o.manifest? g = some m ∧ m.digest = digest ∧ Stored o m.content

structure AttemptOk (r : RetentionManager) (sha : Sha256) (o : Objects PersistenceManifest)
    (t : Attempts.Attempt) : Prop where
  references : ∀ d ∈ t.built.manifest.references, d ∈ Dict.keys t.built.chunks ∨ d ∈ o.chunks
  keys : ∀ d ∈ Dict.keys t.built.chunks, d ∈ t.built.manifest.references
  stamps : ∀ key stamp e, (key, stamp, e) ∈ t.built.stamps → e ∈ t.built.manifest.entries
  pending : ∀ q, t.stage.pending t.missing = some q → ∀ d ∈ Dict.keys t.built.chunks, d ∈ q ∨
    d ∈ o.chunks
  done : ∀ d ∈ t.done, d ∈ t.built.manifest.references → d ∈ o.chunks
  own : uploaded t.stage = true → r.Outranked o t.built.manifest.generation ∨
    o.manifest? t.built.manifest.generation = some ⟨t.built.manifest.digest sha, t.built.manifest⟩

structure Inv (r : RetentionManager) (sha : Sha256) (s : Attempts.State) : Prop where
  processes : ∀ p, ProcessInv s.objects (s.processes p)
  attempts : ∀ a t, s.attempts a = some t → live t.stage = true → AttemptOk r sha s.objects t
  requests : ∀ c, .commit c ∈ s.requests → r.Outranked s.objects c.generation ∨
    Whole s.objects c.generation c.manifestDigest
  commits : ∀ c ∈ s.objects.commits, r.Outranked s.objects c.generation ∨
    Whole s.objects c.generation c.manifestDigest
  unique : (s.objects.commits.map (·.generation)).Nodup

/-- Nothing under way relies on the chunk: no checkpoint, no commit still to take effect, no running
builder. -/
structure Unused (s : Attempts.State) (d : Digest) : Prop where
  attempts : ∀ a t, s.attempts a = some t → live t.stage = true → d ∉ t.built.manifest.references
  commits : ∀ c, .commit c ∈ s.requests → s.objects.commit? c.generation = none →
    ∀ m, s.objects.manifest? c.generation = some m → d ∉ m.content.references
  builders : ∀ p key stamp e, (key, stamp, e) ∈ (s.processes p).builder.committed → d ∉ e.chunks

/-- A sweep deletes only chunks nothing under way relies on. -/
def Spares (r : RetentionManager) (s : Collection) : Event → Prop
  | .sweep marked now => ∀ s₁, s.mark r marked = some s₁ → ∀ d, .chunk d ∈ r.overdue s₁.marks now →
      Unused s.attempts d
  | _ => True

/-! ## Attempts -/

theorem AttemptOk.keys_stored (h : AttemptOk r sha o t) (hp : t.stage.pending t.missing = some []) :
    ∀ d ∈ Dict.keys t.built.chunks, d ∈ o.chunks := fun d hd => by
  rcases h.pending [] hp d hd with hnil | hd
  · cases hnil
  · exact hd

theorem AttemptOk.stored (h : AttemptOk r sha o t) (hp : t.stage.pending t.missing = some []) :
    Stored o t.built.manifest :=
  fun d hd => (h.references d hd).elim (h.keys_stored hp d) id

theorem AttemptOk.advance (h : AttemptOk r sha o t)
    (hp : ∀ q, stage.pending t.missing = some q → ∀ d ∈ Dict.keys t.built.chunks, d ∈ q ∨
    d ∈ o.chunks)
    (hown : uploaded stage = true → r.Outranked o t.built.manifest.generation ∨
      o.manifest? t.built.manifest.generation =
        some ⟨t.built.manifest.digest sha, t.built.manifest⟩) :
    AttemptOk r sha o { t with stage := stage } where
  references := h.references
  keys := h.keys
  stamps := h.stamps
  pending := hp
  done := h.done
  own := hown

theorem AttemptOk.next (h : AttemptOk r sha o t) (hp : t.stage.pending t.missing = some [])
    (hown : uploaded stage = true → r.Outranked o t.built.manifest.generation ∨
      o.manifest? t.built.manifest.generation =
        some ⟨t.built.manifest.digest sha, t.built.manifest⟩) :
    AttemptOk r sha o { t with stage := stage } :=
  h.advance (fun _ _ d hd => Or.inr (h.keys_stored hp d hd)) hown

theorem AttemptOk.addDone (h : AttemptOk r sha o t) (hd : digest ∈ o.chunks) :
    AttemptOk r sha o { t with done := digest :: t.done } where
  references := h.references
  keys := h.keys
  stamps := h.stamps
  pending := h.pending
  done := List.forall_mem_cons.2 ⟨fun _ => hd, h.done⟩
  own := h.own

namespace Inv

theorem setAttempt (h : Inv r sha s) (ht : live t.stage = true → AttemptOk r sha s.objects t) :
    Inv r sha (s.setAttempt a t) where
  processes := h.processes
  attempts := fun a' t' ht' => by
    by_cases ha : a' = a
    · subst ha
      simp only [Attempts.State.setAttempt, Function.update_self, Option.some.injEq] at ht'
      exact ht' ▸ ht
    · simp only [Attempts.State.setAttempt, Function.update_of_ne ha] at ht'
      exact h.attempts a' t' ht'
  requests := h.requests
  commits := h.commits
  unique := h.unique

theorem setProcess {process : Attempts.Process} (h : Inv r sha s)
    (hp : ProcessInv s.objects process) :
    Inv r sha (s.setProcess p process) where
  processes := fun p' => by
    by_cases hne : p' = p
    · subst hne
      simpa only [Attempts.State.setProcess, Function.update_self] using hp
    · simpa only [Attempts.State.setProcess, Function.update_of_ne hne] using h.processes p'
  attempts := h.attempts
  requests := h.requests
  commits := h.commits
  unique := h.unique

theorem send {request : Attempts.Request} (h : Inv r sha s) (hrequest : ∀ c, request = .commit c →
    r.Outranked s.objects c.generation ∨ Whole s.objects c.generation c.manifestDigest) : Inv r sha
      (s.send request) where
  processes := h.processes
  attempts := h.attempts
  requests := fun c hc => by
    rcases List.mem_cons.1 hc with heq | hc
    · exact hrequest c heq.symm
    · exact h.requests c hc
  commits := h.commits
  unique := h.unique

theorem stored_of_hasChunk (h : Inv r sha s) (hhas : s.hasChunk p digest = true) :
    digest ∈ s.objects.chunks := by
  unfold Attempts.State.hasChunk at hhas
  split at hhas
  · next known hknown => exact (h.processes p).known known hknown digest (by simpa using hhas)
  · simpa using hhas

theorem addKnown (h : Inv r sha s) (hd : digest ∈ s.objects.chunks) :
    Inv r sha (s.addKnown p digest) := by
  refine h.setProcess ⟨fun known hknown => ?_, (h.processes p).committed⟩
  obtain ⟨old, hold, rfl⟩ := Option.map_eq_some_iff.1 hknown
  exact List.forall_mem_cons.2 ⟨hd, (h.processes p).known old hold⟩

theorem build {visits : List Visit} {now : Int} {generation : Nat} {sandboxId createdAt : Str}
    {built : BuiltManifest}
    (h : Inv r sha s) (hbuild : (s.processes p).builder.build sha visits now generation sandboxId
    createdAt = some built) :
    AttemptOk r sha s.objects
      { process := p, built := built,
        stage := .asking ((Dict.keys built.chunks).insertionSort (· ≤ ·)) } := by
  obtain ⟨hentries, -⟩ := ManifestBuilder.build_covered hbuild (h.processes p).committed
  obtain ⟨hstamps, hkeys⟩ := ManifestBuilder.build_listed hbuild
  refine ⟨fun d hd => ?_, fun d hd => List.mem_flatMap.2 (hkeys d hd), hstamps, fun q hq d hd =>
    Or.inl ?_, by simp, nofun⟩
  · obtain ⟨e, he, hd⟩ := List.mem_flatMap.1 hd
    exact hentries e he d hd
  · obtain rfl := Option.some.inj hq
    exact List.mem_append_left _ ((List.mem_insertionSort _).2 hd)

theorem ask {rest : List Digest} (h : Inv r sha s) (ht : AttemptOk r sha s.objects t)
    (hstage : t.stage = .asking (digest :: rest)) :
    AttemptOk r sha s.objects
      { t with stage := .asking rest
               missing :=
                 if s.hasChunk t.process digest then t.missing else t.missing ++ [digest] } := by
  have hpending := ht.pending (digest :: rest ++ t.missing) (by rw [hstage]; rfl)
  refine ⟨ht.references, ht.keys, ht.stamps, fun q hq d hd => ?_, ht.done, nofun⟩
  obtain rfl := Option.some.inj hq
  rcases hpending d hd with hmem | hd
  · simp only [List.cons_append, List.mem_cons, List.mem_append] at hmem
    rcases hmem with rfl | hmem | hmem
    · by_cases hhas : s.hasChunk t.process d = true
      · exact Or.inr (h.stored_of_hasChunk hhas)
      · exact Or.inl (by simp [hhas])
    · exact Or.inl (List.mem_append_left _ hmem)
    · exact Or.inl (List.mem_append_right _ (by split <;> simp [hmem]))
  · exact Or.inr hd

theorem act {action : Attempts.Action} (h : Inv r sha s) (ht : live t.stage = true →
    AttemptOk r sha s.objects t)
    (hstep : s.act sha a t action = some s') : Inv r sha s' := by
  cases action with
  | ask =>
    simp only [Attempts.State.act] at hstep
    split at hstep
    · next hstage =>
      obtain rfl := Option.some.inj hstep
      exact h.setAttempt fun _ => h.ask (ht (by rw [hstage]; rfl)) hstage
    · cases hstep
  | beginUploads =>
    simp only [Attempts.State.act, Option.ite_none_right_eq_some, Option.some.injEq] at hstep
    obtain ⟨hstage, rfl⟩ := hstep
    have ht := ht (by rw [hstage]; rfl)
    refine h.setAttempt fun _ => ht.advance (fun q hq => ?_) fun hnext => by cases hnext
    obtain rfl := Option.some.inj hq
    simpa using ht.pending t.missing (by rw [hstage]; rfl)
  | upload digest =>
    simp only [Attempts.State.act, Option.ite_none_right_eq_some] at hstep
    obtain ⟨-, hstep⟩ := hstep
    split at hstep
    · next hhas =>
      obtain rfl := Option.some.inj hstep
      exact h.setAttempt fun hlive => (ht hlive).addDone (h.stored_of_hasChunk hhas)
    · obtain rfl := Option.some.inj hstep
      have hsend : Inv r sha (s.send (.chunk digest)) := h.send fun _ hc => by cases hc
      refine hsend.setAttempt fun hlive => ?_
      have ht := ht hlive
      exact ⟨ht.references, ht.keys, ht.stamps, ht.pending, ht.done, ht.own⟩
  | uploaded digest =>
    simp only [Attempts.State.act, Option.ite_none_right_eq_some, Option.some.injEq] at hstep
    obtain ⟨⟨-, -, hstored⟩, rfl⟩ := hstep
    exact (h.addKnown hstored).setAttempt fun hlive => (ht hlive).addDone hstored
  | endUploads =>
    simp only [Attempts.State.act, Option.ite_none_right_eq_some, Option.some.injEq] at hstep
    obtain ⟨⟨hstage, hall⟩, rfl⟩ := hstep
    have ht := ht (by rw [hstage]; rfl)
    refine h.setAttempt fun _ => ht.advance (fun q _ d hd => Or.inr ?_) fun hnext => by cases hnext
    rcases ht.pending t.missing (by rw [hstage]; rfl) d hd with hmissing | hd
    · exact ht.done d (hall d hmissing) (ht.keys d hd)
    · exact hd
  | sendManifest =>
    simp only [Attempts.State.act, Option.ite_none_right_eq_some, Option.some.injEq] at hstep
    obtain ⟨hstage, rfl⟩ := hstep
    have hsend : Inv r sha (s.send
        (.manifest t.built.manifest.generation ⟨t.built.manifest.digest sha, t.built.manifest⟩)) :=
      h.send fun _ hc => by cases hc
    exact hsend.setAttempt fun _ => (ht (by rw [hstage]; rfl)).next
      (by rw [hstage]; rfl) fun hnext => by cases hnext
  | manifestAnswered =>
    simp only [Attempts.State.act, Option.ite_none_right_eq_some, Option.some.injEq] at hstep
    obtain ⟨⟨hstage, hown⟩, rfl⟩ := hstep
    exact h.setAttempt fun _ => (ht (by rw [hstage]; rfl)).next (by rw [hstage]; rfl) fun _ =>
      Or.inr hown
  | readManifest =>
    simp only [Attempts.State.act, Option.ite_none_right_eq_some, Option.some.injEq] at hstep
    obtain ⟨⟨hstage, -⟩, rfl⟩ := hstep
    have ht := ht (by rw [hstage]; rfl)
    exact h.setAttempt fun _ => ht.next (by rw [hstage]; rfl) fun _ => ht.own (by rw [hstage]; rfl)
  | readCommits =>
    simp only [Attempts.State.act, Option.ite_none_right_eq_some, Option.some.injEq] at hstep
    obtain ⟨⟨hstage, -⟩, rfl⟩ := hstep
    have ht := ht (by rw [hstage]; rfl)
    exact h.setAttempt fun _ => ht.next (by rw [hstage]; rfl) fun _ => ht.own (by rw [hstage]; rfl)
  | sendCommit committedAt =>
    simp only [Attempts.State.act, Option.ite_none_right_eq_some, Option.some.injEq] at hstep
    obtain ⟨hstage, rfl⟩ := hstep
    have ht := ht (by rw [hstage]; rfl)
    have hpending : t.stage.pending t.missing = some [] := by rw [hstage]; rfl
    refine (h.send fun c hc => ?_).setAttempt fun _ => ht.next hpending fun hnext => by cases hnext
    cases hc
    exact (ht.own (by rw [hstage]; rfl)).imp_right fun hown => ⟨_, hown, rfl, ht.stored hpending⟩
  | commitAnswered =>
    simp only [Attempts.State.act, Option.ite_none_right_eq_some, Option.some.injEq] at hstep
    obtain ⟨⟨hstage, -⟩, rfl⟩ := hstep
    exact h.setAttempt fun _ => (ht (by rw [hstage]; rfl)).next
      (by rw [hstage]; rfl) fun hnext => by cases hnext
  | remember =>
    simp only [Attempts.State.act, Option.ite_none_right_eq_some, Option.some.injEq] at hstep
    obtain ⟨hstage, rfl⟩ := hstep
    have ht := ht (by rw [hstage]; rfl)
    have hbaseline : ProcessInv s.objects
        { s.processes t.process with
          builder := (s.processes t.process).builder.remember t.built } := by
      refine ⟨(h.processes t.process).known, fun key stamp e he d hd => ?_⟩
      exact ht.stored (by rw [hstage]; rfl) d (List.mem_flatMap.2 ⟨e, ht.stamps key stamp e he, hd⟩)
    exact (h.setProcess hbaseline).setAttempt fun hlive => by cases hlive
  | fail =>
    simp only [Attempts.State.act, Option.some.injEq] at hstep
    subst hstep
    exact h.setAttempt fun hlive => by cases hlive

/-! ## Requests -/

theorem commits_apply (o : Objects PersistenceManifest) (request : Attempts.Request) :
    (request.apply o).commits = o.commits ∨
    ∃ c, request = .commit c ∧ (∀ c' ∈ o.commits, c'.generation ≠ c.generation) ∧
    (request.apply o).commits = c :: o.commits := by
  cases request with
  | chunk digest =>
    exact Or.inl (by simp only [Attempts.Request.apply, Objects.putChunk,
                       apply_ite Objects.commits, ite_self])
  | manifest generation m =>
    left
    cases hput : o.putManifest generation m with
    | none => simp [Attempts.Request.apply, hput]
    | some o' =>
      obtain ⟨-, rfl⟩ := Objects.putManifest_eq_some hput
      simp [Attempts.Request.apply, hput]
  | commit c =>
    cases hput : o.putCommit c with
    | none => exact Or.inl (by simp [Attempts.Request.apply, hput])
    | some o' =>
      obtain ⟨hnew, rfl⟩ := Objects.putCommit_eq_some hput
      exact Or.inr ⟨c, rfl, hnew, by simp [Attempts.Request.apply, hput]⟩

theorem outranked_apply {request : Attempts.Request} (h : r.Outranked o g) :
    r.Outranked (request.apply o) g := by
  have hsub : (o.commits.map (·.generation)).Sublist
      ((request.apply o).commits.map (·.generation)) := by
    rcases commits_apply o request with heq | ⟨c, -, -, heq⟩
    · rw [heq]
    · rw [heq]
      exact List.sublist_cons_self _ _
  exact h.trans (hsub.filter _).length_le

theorem whole_apply {request : Attempts.Request} (h : Whole o g digest) :
    Whole (request.apply o) g digest := by
  have hgrows := Attempts.grows_apply o request
  obtain ⟨m, hm, hdigest, hstored⟩ := h
  exact ⟨m, hgrows.manifests g m hm, hdigest, hstored.mono hgrows⟩

theorem attemptOk_apply {request : Attempts.Request} (h : AttemptOk r sha o t) :
    AttemptOk r sha (request.apply o) t := by
  have hgrows := Attempts.grows_apply o request
  exact ⟨fun d hd => (h.references d hd).imp_right (hgrows.chunks d), h.keys, h.stamps,
    fun q hq d hd => (h.pending q hq d hd).imp_right (hgrows.chunks d), fun d hd href =>
    hgrows.chunks d (h.done d hd href),
    fun hup => (h.own hup).imp outranked_apply (hgrows.manifests _ _)⟩

theorem deliver {request : Attempts.Request} (h : Inv r sha s) (hrequest : request ∈ s.requests) :
    Inv r sha { s with objects := request.apply s.objects } := by
  have hkept : ∀ g d, r.Outranked s.objects g ∨ Whole s.objects g d →
      r.Outranked (request.apply s.objects) g ∨ Whole (request.apply s.objects) g d :=
    fun g d => Or.imp outranked_apply whole_apply
  refine ⟨fun p => (h.processes p).mono (Attempts.grows_apply _ _), fun a t ht hlive =>
    attemptOk_apply (h.attempts a t ht hlive),
    fun c hc => hkept _ _ (h.requests c hc), ?_, ?_⟩
  · rcases commits_apply s.objects request with heq | ⟨c, rfl, -, heq⟩
    · exact fun c hc => hkept _ _ (h.commits c (heq ▸ hc))
    · intro c' hc'
      rw [heq] at hc'
      rcases List.mem_cons.1 hc' with rfl | hc'
      · exact hkept _ _ (h.requests c' hrequest)
      · exact hkept _ _ (h.commits c' hc')
  · rcases commits_apply s.objects request with heq | ⟨c, -, hnew, heq⟩
    · show ((request.apply s.objects).commits.map (·.generation)).Nodup
      rw [heq]
      exact h.unique
    · show ((request.apply s.objects).commits.map (·.generation)).Nodup
      rw [heq, List.map_cons, List.nodup_cons]
      refine ⟨fun hmem => ?_, h.unique⟩
      obtain ⟨c', hc', hgeneration⟩ := List.mem_map.1 hmem
      exact hnew c' hc' hgeneration

theorem attempt {e : Attempts.Event} (h : Inv r sha s) (hstep : s.step sha e = some s') :
    Inv r sha s' := by
  cases e with
  | build a p visits now generation sandboxId createdAt =>
    simp only [Attempts.State.step] at hstep
    split at hstep
    · cases hstep
    · obtain ⟨built, hbuild, rfl⟩ := Option.map_eq_some_iff.1 hstep
      exact h.setAttempt fun _ => h.build hbuild
  | list p listed =>
    simp only [Attempts.State.step, Option.ite_none_right_eq_some, Option.some.injEq] at hstep
    obtain ⟨hlisted, rfl⟩ := hstep
    refine h.setProcess ⟨fun known hknown => ?_, (h.processes p).committed⟩
    obtain rfl := Option.some.inj hknown
    exact hlisted
  | forget p =>
    simp only [Attempts.State.step, Option.some.injEq] at hstep
    subst hstep
    refine h.setProcess ⟨(h.processes p).known, fun key stamp e he => ?_⟩
    cases he
  | deliver request =>
    simp only [Attempts.State.step, Option.ite_none_right_eq_some, Option.some.injEq] at hstep
    obtain ⟨hrequest, rfl⟩ := hstep
    exact h.deliver hrequest
  | act a action =>
    simp only [Attempts.State.step] at hstep
    split at hstep
    · next t ht => exact h.act (h.attempts a t ht) hstep
    · cases hstep

/-! ## Sweeps -/

/-- Keys of a plan: none of a retained generation, none of a chunk that one references or that is in
use. -/
structure Removable (r : RetentionManager) (s : Attempts.State) (keys : List ObjectKey) : Prop where
  generations : ∀ g, .generation g ∈ keys → g ∈ s.objects.commits.map (·.generation) ∧
    g ∉ r.retained s.objects
  chunks : ∀ d, .chunk d ∈ keys → ∀ g ∈ r.retained s.objects, ∀ m, s.objects.manifest? g = some m →
    d ∉ m.content.references
  unused : ∀ d, .chunk d ∈ keys → Unused s d

section Sweep

variable {keys : List ObjectKey}

theorem outranked_removeAll (h : Inv r sha s) (hkeys : Removable r s keys)
    (hg : r.Outranked s.objects g) :
    r.Outranked (s.objects.removeAll keys) g :=
  hg.removeAll h.unique fun g' hg' hmem => (hkeys.generations g' hmem).2 hg'

theorem manifest_removeAll (h : Inv r sha s) (hkeys : Removable r s keys)
    {m : ManifestObject PersistenceManifest}
    (hm : s.objects.manifest? g = some m) :
    r.Outranked (s.objects.removeAll keys) g ∨ (s.objects.removeAll keys).manifest? g = some m := by
  by_cases hmem : .generation g ∈ keys
  · obtain ⟨hcommitted, hretained⟩ := hkeys.generations g hmem
    rw [RetentionManager.mem_retained h.unique, not_and, not_not] at hretained
    exact Or.inl (h.outranked_removeAll hkeys (hretained hcommitted))
  · exact Or.inr ((Objects.manifest?_removeAll hmem).trans hm)

theorem whole_removeAll (h : Inv r sha s) (hkeys : Removable r s keys) {d : Digest}
    (hunused : ∀ m, s.objects.manifest? g = some m → ∀ d ∈ m.content.references, .chunk d ∉ keys)
    (hwhole : Whole s.objects g d) :
    r.Outranked (s.objects.removeAll keys) g ∨ Whole (s.objects.removeAll keys) g d := by
  obtain ⟨m, hm, hdigest, hstored⟩ := hwhole
  refine (h.manifest_removeAll hkeys hm).imp_right fun hm' => ⟨m, hm', hdigest, fun d hd => ?_⟩
  exact Objects.mem_chunks_removeAll.2 ⟨hstored d hd, hunused m hm d hd⟩

/-- The chunks of a committed generation that is not outranked are no candidates. -/
theorem committed_removeAll (h : Inv r sha s) (hkeys : Removable r s keys) {c : CommitRecord}
    (hc : c ∈ s.objects.commits) {d : Digest}
    (hkept : r.Outranked s.objects c.generation ∨ Whole s.objects c.generation d) :
    r.Outranked (s.objects.removeAll keys) c.generation ∨
        Whole (s.objects.removeAll keys) c.generation d := by
  by_cases houtranked : r.Outranked s.objects c.generation
  · exact Or.inl (h.outranked_removeAll hkeys houtranked)
  · have hretained : c.generation ∈ r.retained s.objects :=
      (RetentionManager.mem_retained h.unique).2 ⟨List.mem_map_of_mem hc, houtranked⟩
    exact h.whole_removeAll hkeys (fun m hm d hd hmem => hkeys.chunks d hmem _ hretained m hm hd)
      (hkept.resolve_left houtranked)

theorem removeAll (h : Inv r sha s) (hkeys : Removable r s keys) :
    Inv r sha { s with objects := s.objects.removeAll keys, processes := fun p =>
    { s.processes p with known := none } } := by
  refine ⟨fun p => ⟨nofun, fun key stamp e he d hd => ?_⟩, fun a t ht hlive => ?_, fun c hc =>
    ?_, fun c hc => ?_, ?_⟩
  · refine Objects.mem_chunks_removeAll.2
      ⟨(h.processes p).committed key stamp e he d hd, fun hmem => ?_⟩
    exact (hkeys.unused d hmem).builders p key stamp e he hd
  · have hok := h.attempts a t ht hlive
    have hchunk : ∀ d ∈ t.built.manifest.references, d ∈ s.objects.chunks →
        d ∈ (s.objects.removeAll keys).chunks :=
      fun d hd hstored => Objects.mem_chunks_removeAll.2
        ⟨hstored, fun hmem => (hkeys.unused d hmem).attempts a t ht hlive hd⟩
    refine ⟨fun d hd => (hok.references d hd).imp_right (hchunk d hd), hok.keys, hok.stamps,
      fun q hq d hd => (hok.pending q hq d hd).imp_right (hchunk d (hok.keys d hd)),
      fun d hd href => hchunk d href (hok.done d hd href), fun hup => ?_⟩
    rcases hok.own hup with houtranked | hown
    · exact Or.inl (h.outranked_removeAll hkeys houtranked)
    · exact h.manifest_removeAll hkeys hown
  · cases hcommit : s.objects.commit? c.generation with
    | some c' =>
      obtain ⟨hmem, hgeneration⟩ := Objects.commit?_eq_some hcommit
      have hkept := h.requests c hc
      rw [← hgeneration] at hkept ⊢
      exact h.committed_removeAll hkeys hmem hkept
    | none =>
      rcases h.requests c hc with houtranked | hwhole
      · exact Or.inl (h.outranked_removeAll hkeys houtranked)
      · refine h.whole_removeAll hkeys (fun m hm d hd hmem => ?_) hwhole
        exact (hkeys.unused d hmem).commits c hc hcommit m hm hd
  · have hmem := (Objects.mem_commits_removeAll.1 hc).1
    exact h.committed_removeAll hkeys hmem (h.commits c hmem)
  · exact h.unique.sublist (Objects.commits_removeAll_sublist.map _)

end Sweep

theorem init (sha : Sha256) (chunkSize : Nat → { n : Nat // 0 < n }) :
    Inv r sha (Attempts.State.init chunkSize) := by
  refine ⟨fun p => ⟨nofun, fun key stamp e he => ?_⟩, nofun, ?_, ?_, List.nodup_nil⟩
  · cases he
  · intro c hc
    cases hc
  · intro c hc
    cases hc

end Inv

/-! ## Runs -/

variable {x x' : Collection} {event : Event}

theorem removable_of_spares {marked now : Int} {x₁ : Collection}
    (hspares : Spares r x (.sweep marked now))
    (hmark : x.mark r marked = some x₁) : Inv.Removable r x.attempts (r.overdue x₁.marks now) := by
  obtain ⟨⟨p, marks⟩, hp, rfl⟩ := Option.map_eq_some_iff.1 hmark
  have hcurrent : ∀ key ∈ r.overdue marks now, r.plan x.attempts.objects = some p ∧
      key ∈ p.current :=
    fun key hkey => RetentionManager.overdue_mark hp hkey
  refine ⟨fun g hg => ?_, fun d hd g hg m hm => ?_, fun d hd => hspares _ hmark d hd⟩
  · exact RetentionManager.plan_generation (hcurrent _ hg).1 (hcurrent _ hg).2
  · exact RetentionManager.plan_chunk (hcurrent _ hd).1 (hcurrent _ hd).2 hg hm

theorem Inv.step (h : Inv r sha x.attempts) (hspares : Spares r x event)
    (hstep : x.step r sha event = some x') :
    Inv r sha x'.attempts := by
  cases event with
  | attempt e =>
    obtain ⟨attempts, hattempts, rfl⟩ := Option.map_eq_some_iff.1 hstep
    exact h.attempt hattempts
  | mark now =>
    obtain ⟨marked, -, rfl⟩ := Option.map_eq_some_iff.1 hstep
    exact h
  | sweep marked now =>
    obtain ⟨x₁, hmark, rfl⟩ := Option.map_eq_some_iff.1 hstep
    have hattempts : x₁.attempts = x.attempts := by
      obtain ⟨y, -, rfl⟩ := Option.map_eq_some_iff.1 hmark
      rfl
    simp only [sweep, remove, hattempts]
    exact h.removeAll (removable_of_spares hspares hmark)

theorem inv_of_reaches {chunkSize : Nat → { n : Nat // 0 < n }}
    (h : Machine.Reaches (step r sha) (Spares r) (start chunkSize) x) : Inv r sha x.attempts :=
  h.invariant (I := fun x => Inv r sha x.attempts)
    (fun _ _ _ hI hspares hstep => hI.step hspares hstep) (Inv.init sha chunkSize)

theorem marksInv_of_reaches {chunkSize : Nat → { n : Nat // 0 < n }}
    (h : Machine.Reaches (step r sha) Machine.Any (start chunkSize) x) : x.MarksInv := by
  refine h.invariant (fun _ _ _ hI _ hstep => hI.step hstep) ?_
  intro key since hmem
  cases hmem

/-- Of a retained generation everything is stored: its commit, its manifest and the chunks of
that. -/
def Complete (r : RetentionManager) (o : Objects PersistenceManifest) : Prop :=
  ∀ g ∈ r.retained o, ∃ c m, o.commit? g = some c ∧ o.manifest? g = some m ∧
    m.digest = c.manifestDigest ∧
    ∀ d ∈ m.content.references, d ∈ o.chunks

theorem Inv.complete (h : Inv r sha s) : Complete r s.objects := by
  intro g hg
  obtain ⟨hmem, hrank⟩ := (RetentionManager.mem_retained h.unique).1 hg
  cases hc : s.objects.commit? g with
  | none =>
    obtain ⟨c, hcommit, hgeneration⟩ := List.mem_map.1 hmem
    exact absurd hgeneration (Objects.commit?_eq_none hc c hcommit)
  | some c =>
    obtain ⟨hcommit, rfl⟩ := Objects.commit?_eq_some hc
    obtain ⟨m, hm, hdigest, hstored⟩ := (h.commits c hcommit).resolve_left hrank
    exact ⟨c, m, rfl, hm, hdigest, hstored⟩

/-! ## A chunk that an attempt has asked for -/

namespace Example

open KiroCrew.Example Attempts

def manager : RetentionManager where
  retain := 2
  grace := 10
  two_le := by decide
  grace_pos := by decide

def build (a : Nat) : Collection.Event :=
  .attempt (.build a a (tree 0).visits 1000000000000000000 1 sandbox.text created.text)

def act (a : Nat) (action : Action) : Collection.Event := .attempt (.act a action)

/-- The chunk is uploaded by an attempt that then fails. -/
def orphan : List Collection.Event :=
  [build 0, act 0 .ask, act 0 .beginUploads, act 0 (.upload emptyDigest),
    .attempt (.deliver (.chunk emptyDigest)),
    act 0 (.uploaded emptyDigest), act 0 .fail]

/-- The steps of an attempt after its uploads. -/
def commit (a : Nat) : List Collection.Event :=
  [act a .endUploads, act a .sendManifest,
    .attempt (.deliver (.manifest 1 ⟨manifestDigest, FirstCheckpoint.manifest⟩)),
    act a .manifestAnswered, act a .readManifest, act a .readCommits, act a (.sendCommit ⟨0⟩),
    .attempt (.deliver (.commit ⟨1, manifestDigest, ⟨0⟩⟩)), act a .commitAnswered]

def start : Collection :=
  Collection.start fun _ => ⟨4 * 1024 * 1024, FirstCheckpoint.chunkBytes_pos⟩

/-- The second attempt is told that the chunk is there, and a sweep deletes it. -/
def race : List Collection.Event :=
  orphan ++ [.mark 0, build 1, act 1 .ask, .sweep 10 10, act 1 .beginUploads] ++ commit 1

theorem race_run : (Machine.runAlong (Collection.step manager sha256) Machine.Any Example.start
    race).isSome = true := by
  decide +kernel

def afterRace : Collection :=
  (Machine.runAlong (Collection.step manager sha256) Machine.Any Example.start race).get race_run

def isSweep : Collection.Event → Bool
  | .sweep _ _ => true
  | _ => false

/-- No sweep takes place. -/
def Unswept : Collection → Collection.Event → Prop := fun _ event => isSweep event = false

instance (x : Collection) (event : Collection.Event) : Decidable (Unswept x event) :=
  decEq (isSweep event) false

theorem spares_of_unswept (x : Collection) (event : Collection.Event) (h : Unswept x event) :
    Spares manager x event := by
  cases event with
  | attempt e => trivial
  | mark now => trivial
  | sweep marked now => cases h

/-- Without the second attempt nothing is under way when the sweep begins. -/
theorem beforeSweep_run :
    (Machine.runAlong (Collection.step manager sha256) Unswept Example.start
      (orphan ++ [.mark 0])).isSome = true := by
  decide +kernel

def beforeSweep : Collection :=
  (Machine.runAlong (Collection.step manager sha256) Unswept Example.start
    (orphan ++ [.mark 0])).get beforeSweep_run

theorem beforeSweep_step : (beforeSweep.step manager sha256 (.sweep 10 10)).isSome = true := by
  decide +kernel

def afterSweep : Collection := (beforeSweep.step manager sha256 (.sweep 10 10)).get beforeSweep_step

/-- A checkpoint after the sweep. -/
def checkpoint : List Collection.Event :=
  [build 1, act 1 .ask, act 1 .beginUploads, act 1 (.upload emptyDigest),
    .attempt (.deliver (.chunk emptyDigest)),
    act 1 (.uploaded emptyDigest)] ++ commit 1

theorem settled_run : (Machine.runAlong (Collection.step manager sha256) Unswept afterSweep
    checkpoint).isSome = true := by
  decide +kernel

def settled : Collection :=
  (Machine.runAlong (Collection.step manager sha256) Unswept afterSweep checkpoint).get settled_run

theorem beforeSweep_attempts (n : Nat) : beforeSweep.attempts.attempts (n + 1) = none := by
  with_unfolding_all rfl

theorem beforeSweep_state : (beforeSweep.attempts.attempts 0).map (·.stage) = some .failed ∧
    beforeSweep.attempts.requests = [.chunk emptyDigest] ∧
    beforeSweep.attempts.objects.has (.chunk emptyDigest) = true ∧
    afterSweep.attempts.objects.has (.chunk emptyDigest) = false := by decide +kernel

theorem beforeSweep_builders (n : Nat) :
    (beforeSweep.attempts.processes n).builder.committed = [] := by
  cases n with
  | zero => with_unfolding_all rfl
  | succ n => with_unfolding_all rfl

theorem beforeSweep_unused (d : Digest) : Unused beforeSweep.attempts d := by
  refine ⟨fun a t ht hlive => ?_, fun c hc => ?_, fun p key stamp e he => ?_⟩
  · cases a with
    | zero =>
      have hfailed := beforeSweep_state.1
      rw [ht, Option.map_some, Option.some.injEq] at hfailed
      rw [hfailed] at hlive
      cases hlive
    | succ n =>
      rw [beforeSweep_attempts] at ht
      cases ht
  · rw [beforeSweep_state.2.1, List.mem_singleton] at hc
    cases hc
  · rw [beforeSweep_builders] at he
    cases he

end Example

end Collection

open Collection in
/-- Where sweeps spare what is under way, every retained generation is complete in every state, and
in any run an object is only deleted by a sweep, a candidate at every mark of a whole grace
period. -/
theorem retained_complete (r : RetentionManager) (sha : Sha256)
    (chunkSize : Nat → { n : Nat // 0 < n }) :
    (∀ x, Machine.Reaches (step r sha) (Spares r) (start chunkSize) x →
    Complete r x.attempts.objects) ∧
      ∀ x, Machine.Reaches (step r sha) Machine.Any (start chunkSize) x →
      ∀ event x', x.step r sha event = some x' →
        ∀ key, x.attempts.objects.has key = true → x'.attempts.objects.has key = false →
          ∃ marked now since, event = .sweep marked now ∧ r.grace ≤ now - since ∧
          Throughout x'.log key since :=
  ⟨fun _ h => (inv_of_reaches h).complete,
    fun _ h _ _ hstep _ hhas hgone => (marksInv_of_reaches h).gone hstep hhas hgone⟩

open Collection Collection.Example KiroCrew.Example in
theorem retained_complete_settled : manager.retained settled.attempts.objects = [1] ∧
    Complete manager settled.attempts.objects ∧
    ∃ since, manager.grace ≤ 10 - since ∧ Throughout afterSweep.log (.chunk emptyDigest) since := by
  have hstep : beforeSweep.step manager sha256 (.sweep 10 10) = some afterSweep :=
    (Option.some_get _).symm
  have hbefore : Machine.Reaches (Collection.step manager sha256)
      (Spares manager) Example.start beforeSweep :=
    (Machine.Reaches.of_isSome beforeSweep_run).mono spares_of_unswept
  have hspares : Spares manager beforeSweep (.sweep 10 10) := fun _ _ d _ => beforeSweep_unused d
  have hafter : Machine.Reaches (Collection.step manager sha256)
      (Spares manager) Example.start afterSweep :=
    hbefore.tail hspares hstep
  have hsettled : Machine.Reaches (Collection.step manager sha256)
      (Spares manager) Example.start settled :=
    hafter.trans ((Machine.Reaches.of_isSome settled_run).mono spares_of_unswept)
  obtain ⟨hcomplete, hdeleted⟩ := retained_complete manager sha256 fun _ =>
    ⟨4 * 1024 * 1024, Attempts.FirstCheckpoint.chunkBytes_pos⟩
  refine ⟨by decide +kernel, hcomplete settled hsettled, ?_⟩
  obtain ⟨marked, now, since, heq, hgrace, hall⟩ :=
    hdeleted beforeSweep hbefore.any _ afterSweep hstep (.chunk emptyDigest) beforeSweep_state.2.2.1
      beforeSweep_state.2.2.2
  cases heq
  exact ⟨since, hgrace, hall⟩

open Collection Collection.Example KiroCrew.Example in
/-- The attempt is told that the chunk is stored, the sweep deletes it, and the generation is
committed without it. -/
theorem swept_between_question_and_commit :
    Machine.Reaches (Collection.step manager sha256) Machine.Any Example.start afterRace ∧
      ¬ Complete manager afterRace.attempts.objects := by
  refine ⟨.of_isSome _, fun h => ?_⟩
  have hstate : 1 ∈ manager.retained afterRace.attempts.objects ∧
      (afterRace.attempts.objects.manifest? 1).any (fun m => emptyDigest ∈ m.content.references) =
      true ∧
      emptyDigest ∉ afterRace.attempts.objects.chunks := by decide +kernel
  obtain ⟨hretained, hreferences, hchunk⟩ := hstate
  obtain ⟨c, m, -, hm, -, hall⟩ := h 1 hretained
  rw [hm] at hreferences
  exact hchunk (hall emptyDigest (of_decide_eq_true hreferences))

end KiroCrew
