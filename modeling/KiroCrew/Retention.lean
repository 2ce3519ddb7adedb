import KiroCrew.Complete

/-!
# Garbage collection of checkpoints

`RetentionManager` keeps the last generations that were committed. `mark` notes what is a candidate
(older generations, chunks that no retained manifest references) and since when, forgetting what is
none any more; `sweep` marks and deletes what has been a candidate for the grace period.
`Collection` runs it beside the checkpoint attempts, each call one step. A container's chunk index
does not outlive a sweep here. `deleted` says how long a deleted object was a candidate;
`KiroCrew.Retained` says what is never deleted.
-/

namespace KiroCrew

namespace ManifestDecoder

open Json (Value)

def entryReferences : Value → Except DecodeError (List Digest)
  | .obj fields =>
    match digests? ((Value.get fields (Str.ofString "chunks")).getD (.arr [])) with
    | some digests => .ok digests
    | none => .error (.validation "Manifest chunk reference is invalid.")
  | _ => .error (.validation "Manifest entry is invalid.")

def chunkReferences (raw : Str) : Except DecodeError (List Digest) :=
  match Json.loads raw with
  | none => .error (.validation "Manifest JSON is invalid.")
  | some (.obj loaded) =>
    match get loaded "entries" with
    | .arr items => (items.mapM entryReferences).map List.flatten
    | _ => .error (.validation "Manifest entries are invalid.")
  | some _ => .error (.validation "Manifest root must be an object.")

theorem entryReferences_asDict {e : ManifestEntry} (h : Admissible e) : entryReferences e.asDict =
    .ok e.chunks := by
  simp only [entryReferences, ManifestEntry.asDict, get_chunks]
  rw [digests?_texts (chunks_of_shape h.shape)]

/-- What it reads from a manifest's text are the references of the manifest. -/
theorem chunkReferences_toJson {m : PersistenceManifest} (h : Writable m) :
    chunkReferences m.toJson = .ok m.references := by
  have hitems : ∀ entries : List ManifestEntry, (∀ e ∈ entries, Admissible e) →
      (entries.map ManifestEntry.asDict).mapM entryReferences = .ok (entries.map (·.chunks)) := by
    intro entries
    induction entries with
    | nil => exact fun _ => rfl
    | cons e entries ih =>
      intro hall
      rw [List.map_cons, List.mapM_cons, entryReferences_asDict (hall e List.mem_cons_self),
        ih fun e he => hall e (List.mem_cons_of_mem _ he)]
      rfl
  unfold chunkReferences
  rw [loads_toJson h]
  simp only [get_manifest.2.2.2.1, hitems m.entries h.admissible]
  rfl

end ManifestDecoder

/-! ## The manager -/

structure RetentionManager where
  retain : Nat
  grace : Int
  two_le : 2 ≤ retain
  grace_pos : 0 < grace

inductive ObjectKey
  | generation (g : Nat)
  | chunk (digest : Digest)
deriving DecidableEq

/-- `_marks` -/
abbrev Marks := Dict ObjectKey Int

structure GarbageCollectionPlan where
  retainedGenerations : List Nat
  generationCandidates : List Nat
  chunkCandidates : List Digest

def GarbageCollectionPlan.current (p : GarbageCollectionPlan) : List ObjectKey :=
  p.generationCandidates.map .generation ++ p.chunkCandidates.map .chunk

namespace RetentionManager

variable (r : RetentionManager) (o : Objects PersistenceManifest)

def committed : List Nat := (o.commits.map (·.generation)).insertionSort (· ≤ ·)

def retained : List Nat := (committed o).drop ((committed o).length - r.retain)

/-- The listings and the reads of `mark`; a retained manifest that is missing ends it. -/
def plan : Option GarbageCollectionPlan :=
  ((r.retained o).mapM o.manifest?).map fun manifests =>
    { retainedGenerations := r.retained o
      generationCandidates := (committed o).filter (· ∉ r.retained o)
      chunkCandidates := o.chunks.filter (· ∉ manifests.flatMap (·.content.references)) }

def mark (marks : Marks) (now : Int) : Option (GarbageCollectionPlan × Marks) :=
  (r.plan o).map fun p => (p, p.current.map fun key => (key, (Dict.get? marks key).getD now))

def overdue (marks : Marks) (now : Int) : List ObjectKey :=
  (marks.filter fun x => r.grace ≤ now - x.2).map (·.1)

end RetentionManager

namespace Objects

variable {M : Type}

/-- `remove_generation`, `remove_chunk` -/
def remove (o : Objects M) : ObjectKey → Objects M
  | .generation g =>
    { o with manifests := o.manifests.filter (·.1 ≠ g),
             commits := o.commits.filter (·.generation ≠ g) }
  | .chunk digest => { o with chunks := o.chunks.filter (· ≠ digest) }

def removeAll (o : Objects M) (keys : List ObjectKey) : Objects M := keys.foldl remove o

/-- Some object of the key is stored. -/
def has (o : Objects M) : ObjectKey → Bool
  | .generation g => (o.manifest? g).isSome || (o.commit? g).isSome
  | .chunk digest => decide (digest ∈ o.chunks)

variable {o : Objects M} {keys : List ObjectKey} {g : Nat} {digest : Digest} {key : ObjectKey}

theorem mem_chunks_removeAll : digest ∈ (o.removeAll keys).chunks ↔ digest ∈ o.chunks ∧
    .chunk digest ∉ keys := by
  induction keys generalizing o with
  | nil => simp [removeAll]
  | cons key keys ih =>
    show digest ∈ ((o.remove key).removeAll keys).chunks ↔ _
    rw [ih]
    cases key with
    | generation g => simp [remove]
    | chunk d =>
      simp only [remove, List.mem_filter, decide_eq_true_eq, List.mem_cons, ObjectKey.chunk.injEq,
        not_or, and_assoc]

theorem mem_commits_removeAll {c : CommitRecord} :
    c ∈ (o.removeAll keys).commits ↔ c ∈ o.commits ∧ .generation c.generation ∉ keys := by
  induction keys generalizing o with
  | nil => simp [removeAll]
  | cons key keys ih =>
    show c ∈ ((o.remove key).removeAll keys).commits ↔ _
    rw [ih]
    cases key with
    | chunk d => simp [remove]
    | generation g =>
      simp only [remove, List.mem_filter, decide_eq_true_eq, List.mem_cons,
        ObjectKey.generation.injEq, not_or, and_assoc]

theorem commits_removeAll_sublist : (o.removeAll keys).commits.Sublist o.commits := by
  induction keys generalizing o with
  | nil => exact List.Sublist.refl _
  | cons key keys ih =>
    refine (ih (o := o.remove key)).trans ?_
    cases key with
    | chunk d => exact List.Sublist.refl _
    | generation g => exact List.filter_sublist

theorem manifest?_removeAll (h : .generation g ∉ keys) : (o.removeAll keys).manifest? g =
    o.manifest? g := by
  induction keys generalizing o with
  | nil => rfl
  | cons key keys ih =>
    rw [List.mem_cons, not_or] at h
    refine (ih (o := o.remove key) h.2).trans ?_
    cases key with
    | chunk d => rfl
    | generation g' =>
      have hne : g' ≠ g := fun heq => h.1 (heq ▸ rfl)
      simp only [manifest?, remove, List.find?_filter]
      congr 2
      funext x
      by_cases hx : x.1 = g
      · simp [hx, Ne.symm hne]
      · simp [hx]

theorem has_removeAll (h : o.has key = true) (hgone : (o.removeAll keys).has key = false) :
    key ∈ keys := by
  by_contra hkey
  cases key with
  | chunk d =>
    simp only [has, decide_eq_true_eq, decide_eq_false_iff_not, mem_chunks_removeAll] at h hgone
    exact hgone ⟨h, hkey⟩
  | generation g =>
    simp only [has, Bool.or_eq_true, Bool.or_eq_false_iff, manifest?_removeAll hkey] at h hgone
    rcases h with h | h
    · rw [hgone.1] at h
      cases h
    · obtain ⟨c, hc⟩ := Option.isSome_iff_exists.1 h
      obtain ⟨hmem, rfl⟩ := commit?_eq_some hc
      have hkept := mem_commits_removeAll.2 ⟨hmem, hkey⟩
      have hnone := commit?_eq_none (Option.not_isSome_iff_eq_none.1 (by rw [hgone.2]; decide))
      exact hnone c hkept rfl

theorem Grows.has {o' : Objects M} (hgrows : Grows o o') (h : o.has key = true) :
    o'.has key = true := by
  cases key with
  | chunk d =>
    simp only [Objects.has, decide_eq_true_eq] at h ⊢
    exact hgrows.chunks d h
  | generation g =>
    simp only [Objects.has, Bool.or_eq_true, Option.isSome_iff_exists] at h ⊢
    exact h.imp (fun ⟨m, hm⟩ => ⟨m, hgrows.manifests g m hm⟩) fun ⟨c, hc⟩ =>
      ⟨c, hgrows.commits g c hc⟩

end Objects

/-! ## Collection beside checkpoints -/

/-- A mark, for the record. -/
structure Marked where
  time : Int
  candidates : List ObjectKey

structure Collection where
  attempts : Attempts.State
  marks : Marks := []
  log : List Marked := []

inductive Collection.Event
  | attempt (e : Attempts.Event)
  | mark (now : Int)
  /-- The clock is read by the mark it begins with and again after it. -/
  | sweep (marked now : Int)

namespace Collection

variable (r : RetentionManager) (sha : Sha256) (s : Collection)

/-- The objects after a sweep; every container lists the chunks anew. -/
def remove (keys : List ObjectKey) : Attempts.State :=
  { s.attempts with
    objects := s.attempts.objects.removeAll keys
    processes := fun p => { s.attempts.processes p with known := none } }

def mark (now : Int) : Option Collection :=
  (r.mark s.attempts.objects s.marks now).map fun (p, marks) =>
    { s with marks := marks, log := s.log ++ [⟨now, p.current⟩] }

def sweep (now : Int) : Collection :=
  { s with
    attempts := s.remove (r.overdue s.marks now)
    marks := s.marks.filter fun x => !decide (r.grace ≤ now - x.2) }

def step (s : Collection) : Event → Option Collection
  | .attempt e => (s.attempts.step sha e).map fun attempts => { s with attempts := attempts }
  | .mark now => s.mark r now
  | .sweep marked now => (s.mark r marked).map fun s => s.sweep r now

def start (chunkSize : Nat → { n : Nat // 0 < n }) : Collection where
  attempts := Attempts.State.init chunkSize

variable {r sha s} {s' : Collection} {event : Event} {now : Int} {key : ObjectKey}

/-- A candidate at every mark from one at `since` on. -/
def Throughout (log : List Marked) (key : ObjectKey) (since : Int) : Prop :=
  ∃ older first later, log = older ++ first :: later ∧ first.time = since ∧ ∀ m ∈ first :: later,
    key ∈ m.candidates

/-- Each mark is as old as the candidacy. -/
def MarksInv (s : Collection) : Prop :=
  ∀ key since, (key, since) ∈ s.marks → Throughout s.log key since

theorem MarksInv.mark (h : s.MarksInv) (hmark : s.mark r now = some s') : s'.MarksInv := by
  obtain ⟨⟨p, marks⟩, hp, rfl⟩ := Option.map_eq_some_iff.1 hmark
  obtain ⟨p, -, heq⟩ := Option.map_eq_some_iff.1 hp
  cases heq
  intro key since hmem
  obtain ⟨key, hcandidate, heq⟩ := List.mem_map.1 hmem
  cases heq
  cases hold : Dict.get? s.marks key with
  | none =>
    rw [Option.getD_none]
    exact ⟨s.log, ⟨now, p.current⟩, [], rfl, rfl, by simpa using hcandidate⟩
  | some since =>
    rw [Option.getD_some]
    obtain ⟨older, first, later, hlog, hsince, hall⟩ := h key since (Dict.mem_of_get? hold)
    refine ⟨older, first, later ++ [⟨now, p.current⟩], ?_, hsince, fun m hm => ?_⟩
    · show s.log ++ _ = _
      rw [hlog, List.append_assoc, List.cons_append]
    · rw [← List.cons_append, List.mem_append, List.mem_singleton] at hm
      rcases hm with hm | rfl
      · exact hall m hm
      · exact hcandidate

theorem MarksInv.step (h : s.MarksInv) (hstep : s.step r sha event = some s') : s'.MarksInv := by
  cases event with
  | attempt e =>
    obtain ⟨attempts, -, rfl⟩ := Option.map_eq_some_iff.1 hstep
    exact h
  | mark now => exact h.mark hstep
  | sweep marked now =>
    obtain ⟨s₁, hmark, rfl⟩ := Option.map_eq_some_iff.1 hstep
    exact fun key since hmem => h.mark hmark key since (List.mem_filter.1 hmem).1

/-- Whatever is gone after a step was removed by a sweep, a candidate throughout the grace
period. -/
theorem MarksInv.gone (h : s.MarksInv) (hstep : s.step r sha event = some s')
    (hhas : s.attempts.objects.has key = true)
    (hgone : s'.attempts.objects.has key = false) :
    ∃ marked now since, event = .sweep marked now ∧ r.grace ≤ now - since ∧
        Throughout s'.log key since := by
  cases event with
  | attempt e =>
    obtain ⟨attempts, hattempts, rfl⟩ := Option.map_eq_some_iff.1 hstep
    rw [(Attempts.grows_step hattempts).has hhas] at hgone
    cases hgone
  | mark now =>
    obtain ⟨x, -, rfl⟩ := Option.map_eq_some_iff.1 hstep
    rw [hhas] at hgone
    cases hgone
  | sweep marked now =>
    obtain ⟨s₁, hmark, rfl⟩ := Option.map_eq_some_iff.1 hstep
    have hobjects : s₁.attempts = s.attempts := by
      obtain ⟨x, -, rfl⟩ := Option.map_eq_some_iff.1 hmark
      rfl
    have hkey : key ∈ r.overdue s₁.marks now := Objects.has_removeAll (by rwa [hobjects]) hgone
    obtain ⟨⟨key', since⟩, hmem, rfl⟩ := List.mem_map.1 hkey
    obtain ⟨hmem, hgrace⟩ := List.mem_filter.1 hmem
    exact ⟨marked, now, since, rfl, of_decide_eq_true hgrace, h.mark hmark key' since hmem⟩

/-- On a clock that does not run backwards these are all the marks of the grace period. -/
theorem Throughout.of_monotone {log : List Marked} {since : Int} (h : Throughout log key since)
    (hclock : log.Pairwise fun m m' => m.time ≤ m'.time) {m : Marked} (hm : m ∈ log)
    (htime : since < m.time) :
    key ∈ m.candidates := by
  obtain ⟨older, first, later, rfl, rfl, hall⟩ := h
  rcases List.mem_append.1 hm with hm | hm
  · have hle : m.time ≤ first.time :=
      (List.pairwise_append.1 hclock).2.2 m hm first List.mem_cons_self
    omega
  · exact hall m hm

end Collection

end KiroCrew
