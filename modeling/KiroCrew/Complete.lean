import KiroCrew.Attempts
import KiroCrew.Restorable

/-!
# Committed generations are complete

`Inv` links what each process may skip to what is stored: its chunk index and the entries its
builder remembers name stored chunks only, a manifest is put only once every chunk it references is
stored, and a commit only once a manifest with its digest is. Objects only grow, so each of these
survives whatever other attempts do (`Inv.step`), and `committed_generation_complete` follows.
-/

namespace KiroCrew

namespace Attempts

open Objects

/-- A manifest whose chunks are all stored. -/
def Stored (o : Objects PersistenceManifest) (m : PersistenceManifest) : Prop :=
  ∀ d ∈ m.references, d ∈ o.chunks

/-- A stored manifest with this digest. -/
def HasManifest (o : Objects PersistenceManifest) (generation : Nat) (digest : Digest) : Prop :=
  ∃ m, o.manifest? generation = some m ∧ m.digest = digest

namespace Stage

/-- The chunks of the build that may not be stored yet; `none` for a failed attempt, which knows
nothing. -/
def pending (missing : List Digest) : Stage → Option (List Digest)
  | .asking rest => some (rest ++ missing)
  | .uploading => some missing
  | .failed => none
  | _ => some []

/-- The digest comparison of `commit_generation` has succeeded. -/
def verified : Stage → Bool
  | .digestRead | .commitsRead => true
  | _ => false

end Stage

/-- What an attempt knows about the store. -/
structure AttemptInv (sha : Sha256) (o : Objects PersistenceManifest) (t : Attempt) : Prop where
  references : ∀ d ∈ t.built.manifest.references, d ∈ Dict.keys t.built.chunks ∨ d ∈ o.chunks
  stamps : ∀ key stamp e, (key, stamp, e) ∈ t.built.stamps →
    ∀ d ∈ e.chunks, d ∈ Dict.keys t.built.chunks ∨ d ∈ o.chunks
  pending : ∀ p, t.stage.pending t.missing = some p → ∀ d ∈ Dict.keys t.built.chunks, d ∈ p ∨
    d ∈ o.chunks
  done : ∀ d ∈ t.done, d ∈ o.chunks
  verified : t.stage.verified = true → HasManifest o t.built.manifest.generation
    (t.built.manifest.digest sha)

def RequestOk (o : Objects PersistenceManifest) : Request → Prop
  | .chunk _ => True
  | .manifest _ m => Stored o m.content
  | .commit c => HasManifest o c.generation c.manifestDigest

structure ProcessInv (o : Objects PersistenceManifest) (p : Process) : Prop where
  known : ∀ known, p.known = some known → ∀ d ∈ known, d ∈ o.chunks
  committed : ∀ key stamp e, (key, stamp, e) ∈ p.builder.committed → ∀ d ∈ e.chunks, d ∈ o.chunks

structure Inv (sha : Sha256) (s : State) : Prop where
  processes : ∀ p, ProcessInv s.objects (s.processes p)
  attempts : ∀ a t, s.attempts a = some t → AttemptInv sha s.objects t
  requests : ∀ r ∈ s.requests, RequestOk s.objects r
  manifests : ∀ x ∈ s.objects.manifests, Stored s.objects x.2.content
  commits : ∀ c ∈ s.objects.commits, HasManifest s.objects c.generation c.manifestDigest

/-! ## Growth -/

section Growth

variable {sha : Sha256} {o o' : Objects PersistenceManifest} {m : PersistenceManifest} {g : Nat}
    {digest : Digest}

theorem Stored.mono (h : Stored o m) (hgrows : Grows o o') : Stored o' m := fun d hd =>
    hgrows.chunks d (h d hd)

theorem HasManifest.mono (h : HasManifest o g digest) (hgrows : Grows o o') :
    HasManifest o' g digest :=
  h.imp fun m hm => ⟨hgrows.manifests g m hm.1, hm.2⟩

theorem AttemptInv.mono {t : Attempt} (h : AttemptInv sha o t) (hgrows : Grows o o') :
    AttemptInv sha o' t where
  references := fun d hd => (h.references d hd).imp_right (hgrows.chunks d)
  stamps := fun key stamp e he d hd => (h.stamps key stamp e he d hd).imp_right (hgrows.chunks d)
  pending := fun p hp d hd => (h.pending p hp d hd).imp_right (hgrows.chunks d)
  done := fun d hd => hgrows.chunks d (h.done d hd)
  verified := fun hv => (h.verified hv).mono hgrows

theorem RequestOk.mono {r : Request} (h : RequestOk o r) (hgrows : Grows o o') :
    RequestOk o' r := by
  cases r with
  | chunk digest => trivial
  | manifest generation m => exact Stored.mono h hgrows
  | commit c => exact HasManifest.mono h hgrows

theorem ProcessInv.mono {p : Process} (h : ProcessInv o p) (hgrows : Grows o o') :
    ProcessInv o' p where
  known := fun known hknown d hd => hgrows.chunks d (h.known known hknown d hd)
  committed := fun key stamp e he d hd => hgrows.chunks d (h.committed key stamp e he d hd)

theorem grows_apply (o : Objects PersistenceManifest) (r : Request) : Grows o (r.apply o) := by
  cases r with
  | chunk digest => exact grows_putChunk o digest
  | manifest generation m =>
    cases hput : o.putManifest generation m with
    | none => simpa [Request.apply, hput] using Grows.refl o
    | some o' => simpa [Request.apply, hput] using grows_putManifest hput
  | commit c =>
    cases hput : o.putCommit c with
    | none => simpa [Request.apply, hput] using Grows.refl o
    | some o' => simpa [Request.apply, hput] using grows_putCommit hput

theorem mem_manifests_apply {r : Request} {x : Nat × ManifestObject PersistenceManifest}
    (h : x ∈ (r.apply o).manifests) :
    x ∈ o.manifests ∨ r = .manifest x.1 x.2 := by
  cases r with
  | chunk digest =>
    exact Or.inl (by simpa only [Request.apply, putChunk, apply_ite Objects.manifests,
                       ite_self] using h)
  | manifest generation m =>
    cases hput : o.putManifest generation m with
    | none => exact Or.inl (by simpa [Request.apply, hput] using h)
    | some o' =>
      obtain ⟨-, rfl⟩ := putManifest_eq_some hput
      simp only [Request.apply, hput, Option.getD_some] at h
      rcases List.mem_cons.1 h with rfl | h
      · exact Or.inr rfl
      · exact Or.inl h
  | commit c =>
    cases hput : o.putCommit c with
    | none => exact Or.inl (by simpa [Request.apply, hput] using h)
    | some o' =>
      obtain ⟨-, rfl⟩ := putCommit_eq_some hput
      exact Or.inl (by simpa [Request.apply, hput] using h)

theorem mem_commits_apply {r : Request} {c : CommitRecord} (h : c ∈ (r.apply o).commits) :
    c ∈ o.commits ∨ r = .commit c := by
  cases r with
  | chunk digest =>
    exact Or.inl (by simpa only [Request.apply, putChunk, apply_ite Objects.commits,
                       ite_self] using h)
  | manifest generation m =>
    cases hput : o.putManifest generation m with
    | none => exact Or.inl (by simpa [Request.apply, hput] using h)
    | some o' =>
      obtain ⟨-, rfl⟩ := putManifest_eq_some hput
      exact Or.inl (by simpa [Request.apply, hput] using h)
  | commit c' =>
    cases hput : o.putCommit c' with
    | none => exact Or.inl (by simpa [Request.apply, hput] using h)
    | some o' =>
      obtain ⟨-, rfl⟩ := putCommit_eq_some hput
      simp only [Request.apply, hput, Option.getD_some] at h
      rcases List.mem_cons.1 h with rfl | h
      · exact Or.inr rfl
      · exact Or.inl h

end Growth

/-! ## Steps -/

section Steps

variable {sha : Sha256} {s s' : State} {a p : Nat} {t : Attempt} {stage : Stage} {digest : Digest}

theorem AttemptInv.keys_stored (h : AttemptInv sha s.objects t)
    (hp : t.stage.pending t.missing = some []) :
    ∀ d ∈ Dict.keys t.built.chunks, d ∈ s.objects.chunks := fun d hd => by
  rcases h.pending [] hp d hd with hnil | hd
  · exact absurd hnil List.not_mem_nil
  · exact hd

theorem AttemptInv.stored (h : AttemptInv sha s.objects t)
    (hp : t.stage.pending t.missing = some []) :
    Stored s.objects t.built.manifest := fun d hd =>
    (h.references d hd).elim (h.keys_stored hp d) id

/-- A change of stage that does not forget a pending chunk. -/
theorem AttemptInv.advance (h : AttemptInv sha s.objects t)
    (hp : ∀ q, stage.pending t.missing = some q → ∀ d ∈ Dict.keys t.built.chunks, d ∈ q ∨
    d ∈ s.objects.chunks)
    (hv : stage.verified = true → HasManifest s.objects t.built.manifest.generation
      (t.built.manifest.digest sha)) :
    AttemptInv sha s.objects { t with stage := stage } where
  references := h.references
  stamps := h.stamps
  pending := hp
  done := h.done
  verified := hv

theorem AttemptInv.next (h : AttemptInv sha s.objects t) (hp : t.stage.pending t.missing = some [])
    (hv : stage.verified = true → HasManifest s.objects t.built.manifest.generation
    (t.built.manifest.digest sha)) :
    AttemptInv sha s.objects { t with stage := stage } :=
  h.advance (fun _ _ d hd => Or.inr (h.keys_stored hp d hd)) hv

theorem AttemptInv.addDone (h : AttemptInv sha s.objects t) (hd : digest ∈ s.objects.chunks) :
    AttemptInv sha s.objects { t with done := digest :: t.done } where
  references := h.references
  stamps := h.stamps
  pending := h.pending
  done := List.forall_mem_cons.2 ⟨hd, h.done⟩
  verified := h.verified

namespace Inv

theorem setAttempt (h : Inv sha s) (ht : AttemptInv sha s.objects t) :
    Inv sha (s.setAttempt a t) where
  processes := h.processes
  attempts := fun a' t' ht' => by
    by_cases ha : a' = a
    · subst ha
      simp only [State.setAttempt, Function.update_self, Option.some.injEq] at ht'
      exact ht' ▸ ht
    · simp only [State.setAttempt, Function.update_of_ne ha] at ht'
      exact h.attempts a' t' ht'
  requests := h.requests
  manifests := h.manifests
  commits := h.commits

theorem setProcess {process : Process} (h : Inv sha s) (hp : ProcessInv s.objects process) :
    Inv sha (s.setProcess p process) where
  processes := fun p' => by
    by_cases hne : p' = p
    · subst hne
      simpa only [State.setProcess, Function.update_self] using hp
    · simpa only [State.setProcess, Function.update_of_ne hne] using h.processes p'
  attempts := h.attempts
  requests := h.requests
  manifests := h.manifests
  commits := h.commits

theorem send {r : Request} (h : Inv sha s) (hr : RequestOk s.objects r) : Inv sha (s.send r) where
  processes := h.processes
  attempts := h.attempts
  requests := List.forall_mem_cons.2 ⟨hr, h.requests⟩
  manifests := h.manifests
  commits := h.commits

theorem stored_of_hasChunk (h : Inv sha s) (hhas : s.hasChunk p digest = true) :
    digest ∈ s.objects.chunks := by
  unfold State.hasChunk at hhas
  split at hhas
  · next known hknown => exact (h.processes p).known known hknown digest (by simpa using hhas)
  · simpa using hhas

theorem addKnown (h : Inv sha s) (hd : digest ∈ s.objects.chunks) :
    Inv sha (s.addKnown p digest) := by
  refine h.setProcess ⟨fun known hknown => ?_, (h.processes p).committed⟩
  obtain ⟨old, hold, rfl⟩ := Option.map_eq_some_iff.1 hknown
  exact List.forall_mem_cons.2 ⟨hd, (h.processes p).known old hold⟩

theorem deliver {r : Request} (h : Inv sha s) (hr : r ∈ s.requests) :
    Inv sha { s with objects := r.apply s.objects } := by
  have hgrows := grows_apply s.objects r
  have hok := h.requests r hr
  refine ⟨fun p => (h.processes p).mono hgrows, fun a t ht => (h.attempts a t ht).mono hgrows,
    fun r hr => (h.requests r hr).mono hgrows, fun x hx => ?_, fun c hc => ?_⟩
  · rcases mem_manifests_apply hx with hx | rfl
    · exact (h.manifests x hx).mono hgrows
    · exact Stored.mono hok hgrows
  · rcases mem_commits_apply hc with hc | rfl
    · exact (h.commits c hc).mono hgrows
    · exact HasManifest.mono hok hgrows

/-- A build: what it references is its own or was stored before. -/
theorem build {visits : List Visit} {now : Int} {generation : Nat} {sandboxId createdAt : Str}
    {built : BuiltManifest}
    (h : Inv sha s) (hbuild : (s.processes p).builder.build sha visits now generation sandboxId
    createdAt = some built) :
    AttemptInv sha s.objects
      { process := p, built := built,
        stage := .asking ((Dict.keys built.chunks).insertionSort (· ≤ ·)) } := by
  obtain ⟨hentries, hstamps⟩ := ManifestBuilder.build_covered hbuild (h.processes p).committed
  refine ⟨fun d hd => ?_, hstamps, fun q hq d hd => Or.inl ?_, by simp, by simp [Stage.verified]⟩
  · obtain ⟨e, he, hd⟩ := List.mem_flatMap.1 hd
    exact hentries e he d hd
  · obtain rfl := Option.some.inj hq
    exact List.mem_append_left _ ((List.mem_insertionSort _).2 hd)

/-- An existence question moves its digest to the missing ones unless it is stored. -/
theorem ask {rest : List Digest} (h : Inv sha s) (ht : AttemptInv sha s.objects t)
    (hstage : t.stage = .asking (digest :: rest)) :
    AttemptInv sha s.objects
      { t with stage := .asking rest
               missing :=
                 if s.hasChunk t.process digest then t.missing else t.missing ++ [digest] } := by
  have hpending := ht.pending (digest :: rest ++ t.missing) (by rw [hstage]; rfl)
  refine ⟨ht.references, ht.stamps, fun q hq d hd => ?_, ht.done, by simp [Stage.verified]⟩
  obtain rfl := Option.some.inj hq
  rcases hpending d hd with hmem | hd
  · simp only [List.cons_append, List.mem_cons, List.mem_append] at hmem
    rcases hmem with rfl | hmem | hmem
    · by_cases hhas : s.hasChunk t.process d = true
      · exact Or.inr (h.stored_of_hasChunk hhas)
      · exact Or.inl (by simp [hhas])
    · exact Or.inl (List.mem_append_left _ hmem)
    · exact Or.inl (List.mem_append_right _ (by split <;> simp [hmem]))
  · exact Or.inr hd

theorem act {action : Action} (h : Inv sha s) (ht : AttemptInv sha s.objects t)
    (hstep : s.act sha a t action = some s') :
    Inv sha s' := by
  cases action with
  | ask =>
    simp only [State.act] at hstep
    split at hstep
    · next hstage =>
      obtain rfl := Option.some.inj hstep
      exact h.setAttempt (h.ask ht hstage)
    · simp at hstep
  | beginUploads =>
    simp only [State.act, Option.ite_none_right_eq_some, Option.some.injEq] at hstep
    obtain ⟨hstage, rfl⟩ := hstep
    exact h.setAttempt (ht.advance (fun q hq => by
      obtain rfl := Option.some.inj hq
      simpa using ht.pending t.missing (by rw [hstage]; rfl)) (by simp [Stage.verified]))
  | upload digest =>
    simp only [State.act, Option.ite_none_right_eq_some] at hstep
    obtain ⟨-, hstep⟩ := hstep
    split at hstep
    · next hhas =>
      obtain rfl := Option.some.inj hstep
      exact h.setAttempt (ht.addDone (h.stored_of_hasChunk hhas))
    · obtain rfl := Option.some.inj hstep
      have hok : RequestOk s.objects (.chunk digest) := trivial
      exact (h.send hok).setAttempt ⟨ht.references, ht.stamps, ht.pending, ht.done, ht.verified⟩
  | uploaded digest =>
    simp only [State.act, Option.ite_none_right_eq_some, Option.some.injEq] at hstep
    obtain ⟨⟨-, -, hstored⟩, rfl⟩ := hstep
    exact (h.addKnown hstored).setAttempt (ht.addDone hstored)
  | endUploads =>
    simp only [State.act, Option.ite_none_right_eq_some, Option.some.injEq] at hstep
    obtain ⟨⟨hstage, hall⟩, rfl⟩ := hstep
    refine h.setAttempt (ht.advance (fun q _ d hd => Or.inr ?_) (by simp [Stage.verified]))
    rcases ht.pending t.missing (by rw [hstage]; rfl) d hd with hd | hd
    · exact ht.done d (hall d hd)
    · exact hd
  | sendManifest =>
    simp only [State.act, Option.ite_none_right_eq_some, Option.some.injEq] at hstep
    obtain ⟨hstage, rfl⟩ := hstep
    have hpending : t.stage.pending t.missing = some [] := by rw [hstage]; rfl
    have hok : RequestOk s.objects
        (.manifest t.built.manifest.generation ⟨t.built.manifest.digest sha, t.built.manifest⟩) :=
          ht.stored hpending
    exact (h.send hok).setAttempt (ht.next hpending (by simp [Stage.verified]))
  | manifestAnswered =>
    simp only [State.act, Option.ite_none_right_eq_some, Option.some.injEq] at hstep
    obtain ⟨⟨hstage, -⟩, rfl⟩ := hstep
    exact h.setAttempt (ht.next (by rw [hstage]; rfl) (by simp [Stage.verified]))
  | readManifest =>
    simp only [State.act, Option.ite_none_right_eq_some, Option.some.injEq, Option.any_eq_true,
      decide_eq_true_eq] at hstep
    obtain ⟨⟨hstage, hmanifest⟩, rfl⟩ := hstep
    exact h.setAttempt (ht.next (by rw [hstage]; rfl) fun _ => hmanifest)
  | readCommits =>
    simp only [State.act, Option.ite_none_right_eq_some, Option.some.injEq] at hstep
    obtain ⟨⟨hstage, -⟩, rfl⟩ := hstep
    exact h.setAttempt (ht.next (by rw [hstage]; rfl) fun _ => ht.verified (by rw [hstage]; rfl))
  | sendCommit committedAt =>
    simp only [State.act, Option.ite_none_right_eq_some, Option.some.injEq] at hstep
    obtain ⟨hstage, rfl⟩ := hstep
    have hok : RequestOk s.objects
        (.commit ⟨t.built.manifest.generation, t.built.manifest.digest sha, committedAt⟩) :=
      ht.verified (by rw [hstage]; rfl)
    exact (h.send hok).setAttempt (ht.next (by rw [hstage]; rfl) (by simp [Stage.verified]))
  | commitAnswered =>
    simp only [State.act, Option.ite_none_right_eq_some, Option.some.injEq] at hstep
    obtain ⟨⟨hstage, -⟩, rfl⟩ := hstep
    exact h.setAttempt (ht.next (by rw [hstage]; rfl) (by simp [Stage.verified]))
  | remember =>
    simp only [State.act, Option.ite_none_right_eq_some, Option.some.injEq] at hstep
    obtain ⟨hstage, rfl⟩ := hstep
    have hpending : t.stage.pending t.missing = some [] := by rw [hstage]; rfl
    have hbaseline : ProcessInv s.objects
        { s.processes t.process with
          builder := (s.processes t.process).builder.remember t.built } :=
      ⟨(h.processes t.process).known, fun key stamp e he d hd =>
        (ht.stamps key stamp e he d hd).elim (ht.keys_stored hpending d) id⟩
    exact (h.setProcess hbaseline).setAttempt (ht.next hpending (by simp [Stage.verified]))
  | fail =>
    simp only [State.act, Option.some.injEq] at hstep
    subst hstep
    exact h.setAttempt (ht.advance (by simp [Stage.pending]) (by simp [Stage.verified]))

theorem step {e : Event} (h : Inv sha s) (hstep : s.step sha e = some s') : Inv sha s' := by
  cases e with
  | build a p visits now generation sandboxId createdAt =>
    simp only [State.step] at hstep
    split at hstep
    · simp at hstep
    · obtain ⟨built, hbuild, rfl⟩ := Option.map_eq_some_iff.1 hstep
      exact h.setAttempt (h.build hbuild)
  | list p listed =>
    simp only [State.step, Option.ite_none_right_eq_some, Option.some.injEq] at hstep
    obtain ⟨hlisted, rfl⟩ := hstep
    refine h.setProcess ⟨fun known hknown => ?_, (h.processes p).committed⟩
    obtain rfl := Option.some.inj hknown
    exact hlisted
  | forget p =>
    simp only [State.step, Option.some.injEq] at hstep
    subst hstep
    refine h.setProcess ⟨(h.processes p).known, fun key stamp e he => ?_⟩
    exact absurd he List.not_mem_nil
  | deliver r =>
    simp only [State.step, Option.ite_none_right_eq_some, Option.some.injEq] at hstep
    obtain ⟨hr, rfl⟩ := hstep
    exact h.deliver hr
  | act a action =>
    simp only [State.step] at hstep
    split at hstep
    · next t ht => exact h.act (h.attempts a t ht) hstep
    · simp at hstep

theorem init (sha : Sha256) (chunkSize : Nat → { n : Nat // 0 < n }) :
    Inv sha (State.init chunkSize) := by
  refine ⟨fun p =>
    ⟨by simp [State.init], fun key stamp e he => ?_⟩, by simp [State.init], by simp [State.init],
    by simp [State.init], by simp [State.init]⟩
  exact absurd he List.not_mem_nil

end Inv

theorem inv_of_reachable (h : s.Reachable sha) : Inv sha s := by
  obtain ⟨chunkSize, hrun⟩ := h
  exact hrun.invariant (fun _ _ _ hI _ hstep => hI.step hstep) (Inv.init sha chunkSize)

theorem grows_step {e : Event} (hstep : s.step sha e = some s') : Grows s.objects s'.objects := by
  cases e with
  | deliver r =>
    simp only [State.step, Option.ite_none_right_eq_some, Option.some.injEq] at hstep
    obtain ⟨-, rfl⟩ := hstep
    exact grows_apply s.objects r
  | build a p visits now generation sandboxId createdAt =>
    simp only [State.step] at hstep
    split at hstep
    · simp at hstep
    · obtain ⟨built, -, rfl⟩ := Option.map_eq_some_iff.1 hstep
      exact Grows.refl _
  | list p listed =>
    simp only [State.step, Option.ite_none_right_eq_some, Option.some.injEq] at hstep
    obtain ⟨-, rfl⟩ := hstep
    exact Grows.refl _
  | forget p =>
    simp only [State.step, Option.some.injEq] at hstep
    subst hstep
    exact Grows.refl _
  | act a action =>
    have hobjects : s'.objects = s.objects := by
      simp only [State.step] at hstep
      split at hstep
      · cases action <;> simp only [State.act] at hstep <;> (repeat' split at hstep) <;>
          simp only [Option.some.injEq, reduceCtorEq] at hstep <;> subst hstep <;> rfl
      · simp at hstep
    rw [hobjects]
    exact Grows.refl _

theorem grows_run (h : Machine.Reaches (State.step sha) Machine.Any s s') :
    Grows s.objects s'.objects := by
  refine h.relation (R := fun s s' => Grows s.objects s'.objects) (fun s => Grows.refl _) ?_
  intro s₀ s e s' hI _ hstep
  exact hI.trans (grows_step hstep)

end Steps

/-! ## Commits -/

namespace FirstCheckpoint

open KiroCrew.Example

def manifest : PersistenceManifest := ((built 0).get (by decide)).manifest

/-- A checkpoint of one process, up to its commit. -/
def checkpoint : List Event :=
  [.build 0 0 (tree 0).visits 1000000000000000000 1 sandbox.text created.text, .list 0 [],
    .act 0 .ask, .act 0 .beginUploads,
    .act 0 (.upload emptyDigest), .deliver (.chunk emptyDigest), .act 0 (.uploaded emptyDigest),
    .act 0 .endUploads,
    .act 0 .sendManifest, .deliver (.manifest 1 ⟨manifestDigest, manifest⟩),
      .act 0 .manifestAnswered, .act 0 .readManifest,
    .act 0 .readCommits, .act 0 (.sendCommit ⟨0⟩), .deliver (.commit ⟨1, manifestDigest, ⟨0⟩⟩)]

theorem chunkBytes_pos : 0 < 4 * 1024 * 1024 := by decide

def start : State := State.init fun _ => ⟨4 * 1024 * 1024, chunkBytes_pos⟩

def committed : State :=
  (Machine.runAlong (State.step sha256) Machine.Any start checkpoint).get (by decide +kernel)

/-- The manifest put takes effect a second time, and the process remembers its build. -/
def later : State :=
  (Machine.runAlong (State.step sha256) Machine.Any committed
    [.deliver (.manifest 1 ⟨manifestDigest, manifest⟩), .act 0 .commitAnswered,
      .act 0 .remember]).get (by decide +kernel)

theorem reachable : committed.Reachable sha256 := ⟨_, .of_isSome _⟩

theorem reaches_later : Machine.Reaches (State.step sha256) Machine.Any committed later :=
  .of_isSome _

theorem commit_stored : committed.objects.commit? 1 = some ⟨1, manifestDigest, ⟨0⟩⟩ := by
  decide +kernel

end FirstCheckpoint

/-- A commit record names a stored manifest whose chunks are all stored, now and in every later
state. -/
theorem committed_generation_complete {sha : Sha256} {s s' : State} (h : s.Reachable sha)
    (hlater : Machine.Reaches (State.step sha) Machine.Any s s')
    {g : Nat} {c : CommitRecord} (hc : s.objects.commit? g = some c) :
    ∃ m, s.objects.manifest? g = some m ∧ m.digest = c.manifestDigest ∧
      (∀ d ∈ m.content.references, d ∈ s.objects.chunks) ∧
      s'.objects.commit? g = some c ∧ s'.objects.manifest? g = some m ∧
      ∀ d ∈ m.content.references, d ∈ s'.objects.chunks := by
  have hinv := inv_of_reachable h
  have hgrows := grows_run hlater
  obtain ⟨hmem, hgen⟩ := commit?_eq_some hc
  obtain ⟨m, hm, hdigest⟩ := hinv.commits c hmem
  rw [hgen] at hm
  have hstored := hinv.manifests (g, m) (mem_manifests hm)
  exact ⟨m, hm, hdigest, hstored, hgrows.commits g c hc, hgrows.manifests g m hm,
    hstored.mono hgrows⟩

open FirstCheckpoint KiroCrew.Example in
theorem committed_generation_complete_first :
    ∃ m, committed.objects.manifest? 1 = some m ∧ m.digest = manifestDigest ∧
      (∀ d ∈ m.content.references, d ∈ committed.objects.chunks) ∧
      later.objects.commit? 1 = some ⟨1, manifestDigest, ⟨0⟩⟩ ∧ later.objects.manifest? 1 = some m ∧
      ∀ d ∈ m.content.references, d ∈ later.objects.chunks :=
  committed_generation_complete reachable reaches_later commit_stored

end Attempts

end KiroCrew
