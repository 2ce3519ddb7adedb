import KiroCrew.ContainersInv

/-!
# Lineage of the committed generations

A commit is put without asking whether its container still holds the record; only the receipt is
conditional. `fenced_commit_restored` is the run where this matters: a container that was taken over
commits one more generation, its receipt is refused, and the next start restores that generation
although the record points to another container's. When every commit that takes effect is put by the
record's holder, the commits form one chain in which each generation descends from all before it
(`Linear`), and what a start installs descends from every accepted generation (`restore_descends`).
-/

namespace KiroCrew

namespace World

variable {w w' : World} {e : Event} {A : InstanceId} {parent parent' : Nat → Option Nat} {g a : Nat}

/-- `g` was committed on top of `a`, directly or through generations between them. -/
def Descends (parent : Nat → Option Nat) : Nat → Nat → Prop :=
  Relation.ReflTransGen fun g p => parent g = some p

theorem Descends.mono (h : ∀ g p, parent g = some p → parent' g = some p)
    (hd : Descends parent g a) :
    Descends parent' g a :=
  Relation.ReflTransGen.mono h _ _ hd

/-- The container's next commit put takes effect. -/
def commits (w : World) (A : InstanceId) : Bool :=
  match (w.containers A).phase with
  | .checked g _ => (w.objects.commit? g).isNone
  | _ => false

/-- Commits that take effect are the holder's, and no restore falls back past the newest
generation. -/
def holderCommits (w : World) : Event → Bool
  | .putCommit A _ => !w.commits A || decide (w.sys.item.holderInstance = some A)
  | .restore _ fallback => !fallback
  | _ => true

/-- One chain of commits, which the holder's working copy is at the end of. -/
structure Linear (w : World) : Prop where
  inv : w.Inv
  head : ∀ A, w.sys.item.holderInstance = some A → (w.containers A).phase.based = true →
    (w.containers A).head = w.objects.newest
  pending : ∀ A g, w.sys.item.holderInstance = some A → (w.containers A).phase.pending = some g →
    ∀ c ∈ w.objects.commits, c.generation < g
  chain : ∀ c ∈ w.objects.commits, ∃ g, w.objects.newest = some g ∧ Descends w.parent g c.generation
  parent : ∀ g p, w.parent g = some p → ∃ c ∈ w.objects.commits, c.generation = g

theorem Linear.init (ownerHash sandboxId : String) (session : SessionId) (version : String)
    (now : Instant) :
    Linear (World.init ownerHash sandboxId session version now) where
  inv := .init ownerHash sandboxId session version now
  head := by intro A _ hb; simp [World.init, Phase.based] at hb
  pending := by intro A g _ hp; simp [World.init, Phase.pending] at hp
  chain := by intro c hc; simp [World.init] at hc
  parent := by intro g p hp; simp [World.init] at hp

/-- The chain is kept where no object is put and the holder's phase and head are what they were. -/
theorem Linear.frame (h : Linear w) (hinv : w'.Inv) (hobjects : w'.objects = w.objects)
    (hparent : w'.parent = w.parent)
    (hholder : ∀ A, w'.sys.item.holderInstance = some A → (w'.containers A).phase.based = true →
      w.sys.item.holderInstance = some A ∧ (w.containers A).phase.based = true ∧
        (w'.containers A).head = (w.containers A).head ∧
        ∀ g, (w'.containers A).phase.pending = some g → (w.containers A).phase.pending = some g) :
    Linear w' where
  inv := hinv
  head := by
    intro A hA hb
    obtain ⟨hA', hb', hh, -⟩ := hholder A hA hb
    rw [hh, hobjects]
    exact h.head A hA' hb'
  pending := by
    intro A g hA hp
    have hb : (w'.containers A).phase.based = true := by
      cases hph : (w'.containers A).phase <;> simp [hph, Phase.pending, Phase.based] at hp ⊢
    obtain ⟨hA', -, -, hpend⟩ := hholder A hA hb
    rw [hobjects]
    exact h.pending A g hA' (hpend g hp)
  chain := by rw [hobjects, hparent]; exact h.chain
  parent := by rw [hobjects, hparent]; exact h.parent

theorem Linear.step (h : Linear w) (hC : w.holderCommits e = true) (he : w.step e = some w') :
    Linear w' := by
  have hinv : w'.Inv := h.inv.step he
  cases step_change he with
  | other hplain hs =>
    refine h.frame hinv rfl rfl fun A hA hb => ⟨?_, hb, rfl, fun _ hp => hp⟩
    rw [← plain_holder h.inv.sys hplain hs]
    exact hA
  | @read A session hphase =>
    refine h.frame hinv rfl rfl fun B hB hb => ?_
    have hBA : B ≠ A := by rintro rfl; simp [Phase.based] at hb
    simp only [set_containers, hBA, if_false] at hb ⊢
    exact ⟨hB, hb, trivial, fun _ hp => hp⟩
  | @acquire A now answered _ phase _ hphase hclaimed =>
    refine h.frame hinv (by simp [goto]) (by simp [goto]) fun B hB hb => ?_
    have hBA : B ≠ A := by rintro rfl; simp [goto, hphase] at hb
    simp only [goto, set_containers, hBA, if_false, set_sys, send_containers] at hb hB ⊢
    refine ⟨?_, hb, trivial, fun _ hp => hp⟩
    -- had the claim been applied, `A` would hold the record
    cases ha : w.applies (w.claimCall A) now with
    | true => rw [claim_holder ha] at hB; exact absurd (Option.some.inj hB).symm hBA
    | false => rwa [send_of_not_applies ha] at hB
  | @restored A fallback expected hphase =>
    have hfall : fallback = false := by simpa [holderCommits] using hC
    subst hfall
    refine ⟨hinv, fun B hB hb => ?_, fun B g hB hp => ?_, h.chain, h.parent⟩
    · by_cases hBA : B = A
      · simp [hBA, installed]
      · simp only [set_containers, hBA, if_false] at hb ⊢
        exact h.head B hB hb
    · by_cases hBA : B = A
      · simp [hBA, Phase.pending] at hp
      · simp only [set_containers, hBA, if_false] at hp
        exact h.pending B g hB hp
  | @markReady A outcome now answered phase hold hphase =>
    have hh : (w.send (w.readyCall A outcome) now).sys.item.holderInstance =
        w.sys.item.holderInstance :=
      send_holder h.inv.sys (by simp [readyCall])
    refine h.frame hinv (by simp [goto]) (by simp [goto]) fun B hB hb => ?_
    simp only [goto, set_sys, hh] at hB
    by_cases hBA : B = A
    · subst hBA
      refine ⟨hB, by rw [hold]; rfl, by simp [goto], fun g hp => ?_⟩
      rcases hphase with rfl | ⟨rfl, -⟩ <;> simp [goto, Phase.pending] at hp
    · simp only [goto, set_containers, hBA, if_false, send_containers] at hb ⊢
      exact ⟨hB, hb, trivial, fun _ hp => hp⟩
  | @number A hphase =>
    refine ⟨hinv, fun B hB hb => ?_, fun B g hB hp => ?_, h.chain, h.parent⟩
    · by_cases hBA : B = A
      · subst hBA
        simpa [goto] using h.head B hB (by rw [hphase]; rfl)
      · simp only [goto, set_containers, hBA, if_false] at hb ⊢
        exact h.head B hB hb
    · by_cases hBA : B = A
      · subst hBA
        simp only [goto, set_containers, if_true, Phase.pending, Option.some.injEq] at hp
        exact fun c hc => hp ▸ Objects.commit_lt_nextGeneration hc
      · simp only [goto, set_containers, hBA, if_false] at hp
        exact h.pending B g hB hp
  | @uploaded A g digest objects hphase hput =>
    obtain ⟨-, rfl⟩ := Objects.putManifest_eq_some hput
    -- a manifest changes no listing of commits
    refine ⟨hinv, fun B hB hb => ?_, fun B n hB hp => ?_, h.chain, h.parent⟩
    · by_cases hBA : B = A
      · subst hBA
        simp only [goto, set_containers, if_true]
        exact h.head B hB (by rw [hphase]; rfl)
      · simp only [goto, set_containers, hBA, if_false] at hb ⊢
        exact h.head B hB hb
    · by_cases hBA : B = A
      · subst hBA
        exact h.pending B n hB (by rw [hphase]; simpa [goto, Phase.pending] using hp)
      · simp only [goto, set_containers, hBA, if_false] at hp
        exact h.pending B n hB hp
  | @checked A g digest hphase hready =>
    refine h.frame hinv rfl rfl fun B hB hb => ?_
    by_cases hBA : B = A
    · subst hBA
      refine ⟨hB, by rw [hphase]; rfl, by simp [goto], fun n hp => ?_⟩
      rw [hphase]
      simpa [goto, Phase.pending] using hp
    · simp only [goto, set_containers, hBA, if_false] at hb ⊢
      exact ⟨hB, hb, trivial, fun _ hp => hp⟩
  | @committed A g digest committedAt objects hphase hput =>
    obtain ⟨hnew, hobjects⟩ := Objects.putCommit_eq_some hput
    have hcommits : w.commits A = true := by
      unfold commits
      rw [hphase]
      simp only [Option.isNone_iff_eq_none]
      by_contra hne
      obtain ⟨c, hc⟩ := Option.ne_none_iff_exists'.1 hne
      exact hnew c (Objects.commit?_eq_some hc).1 (Objects.commit?_eq_some hc).2
    have hA : w.sys.item.holderInstance = some A := by simpa [holderCommits, hcommits] using hC
    have hlt : ∀ c ∈ w.objects.commits, c.generation < g := h.pending A g hA (by rw [hphase]; rfl)
    have hhead : (w.containers A).head = w.objects.newest := h.head A hA (by rw [hphase]; rfl)
    have hnewest : objects.newest = some g := Objects.newest_putCommit hput hlt
    have hnone : w.parent g = none := by
      cases hp : w.parent g with
      | none => rfl
      | some p =>
        obtain ⟨c, hc, hcg⟩ := h.parent g p hp
        exact absurd hcg (hnew c hc)
    have hmono : ∀ n p, w.parent n = some p → Function.update w.parent g (w.containers A).head n =
        some p := by
      intro n p hp
      rw [Function.update_of_ne (by rintro rfl; simp [hnone] at hp)]
      exact hp
    refine ⟨hinv, fun B hB hb => ?_, fun B n hB hp => ?_, fun c hc => ?_, fun n p hp => ?_⟩
    · -- the holder is `A` alone
      obtain rfl : B = A := Option.some.inj (hB.symm.trans hA)
      simpa using hnewest.symm
    · obtain rfl : B = A := Option.some.inj (hB.symm.trans hA)
      simp [Phase.pending] at hp
    · refine ⟨g, hnewest, ?_⟩
      simp only [set_objects, hobjects, List.mem_cons] at hc
      rcases hc with rfl | hc
      · exact .refl
      · obtain ⟨n, hn, hd⟩ := h.chain c hc
        refine .head (b := n) ?_ (hd.mono hmono)
        simp [hhead, hn]
    · simp only [set_objects, hobjects]
      by_cases hng : n = g
      · exact ⟨_, List.mem_cons_self, hng.symm⟩
      · simp only [set_parent, Function.update_of_ne hng] at hp
        obtain ⟨c, hc, hcn⟩ := h.parent n p hp
        exact ⟨c, List.mem_cons_of_mem _ hc, hcn⟩
  | @accepted A g digest final hints now answered hphase happlies =>
    have hh : (w.send (w.receiptCall A g digest final hints) now).sys.item.holderInstance =
        w.sys.item.holderInstance := send_holder h.inv.sys (by simp [receiptCall])
    refine h.frame hinv (by simp) (by simp) fun B hB hb => ?_
    simp only [set_sys, hh] at hB
    by_cases hBA : B = A
    · subst hBA
      exact ⟨hB, by rw [hphase]; rfl, by simp, fun n hp => by simp [Phase.pending] at hp⟩
    · simp only [set_containers, hBA, if_false, send_containers] at hb ⊢
      exact ⟨hB, hb, trivial, fun _ hp => hp⟩
  | @ended e A phase hphase =>
    refine h.frame hinv rfl rfl fun B hB hb => ?_
    by_cases hBA : B = A
    · subst hBA
      rcases hphase with ⟨rfl, -⟩ | rfl | ⟨rfl, hready⟩
      · simp [goto, Phase.based] at hb
      · simp [goto, Phase.based] at hb
      · exact ⟨hB, Phase.based_of_ready
          hready, by simp [goto], fun g hp => by simp [goto, Phase.pending] at hp⟩
    · simp only [goto, set_containers, hBA, if_false] at hb ⊢
      exact ⟨hB, hb, trivial, fun _ hp => hp⟩
  | same => exact h

/-- In a run where commits are the holder's and restores do not fall back, what a restore installs
descends from every generation whose receipt was accepted before it. -/
theorem restore_descends {ownerHash sandboxId version : String} {session : SessionId}
    {now : Instant}
    {fallback : Bool}
    (hrun : Machine.Reaches step (fun w e => w.holderCommits e = true)
      (init ownerHash sandboxId session version now) w)
    (hC : w.holderCommits (.restore A fallback) = true)
      (he : w.step (.restore A fallback) = some w')
    (hdone : (w'.containers A).phase = .restored) (ha : a ∈ w.accepted) :
    ∃ g, (w'.containers A).head = some g ∧ Descends w.parent g a := by
  have hlin : Linear w := hrun.invariant (fun _ _ _ hs hC he => hs.step hC he)
    (.init ownerHash sandboxId session version now)
  obtain ⟨c, hc, rfl⟩ := hlin.inv.accepted a ha
  obtain ⟨g, hg, hd⟩ := hlin.chain c hc
  refine ⟨g, ?_, hd⟩
  have hfall : fallback = false := by simpa [holderCommits] using hC
  subst hfall
  rw [installed_of_step he hdone]
  simpa [installed] using hg

def digestOf (c : Char) : Digest := List.replicate 64 c

def newWorld : World := init "sub" "box" ⟨0⟩ "1" ⟨0⟩

/-- A new sandbox: container 10 commits generation 1, container 11 claims after its lease has run
out. -/
def takeoverRun : List Event :=
  [.other .read, .other (.acquireStart (newRecord "sub" "box" ⟨0⟩ "1" ⟨0⟩) ⟨7⟩ 90 false
    ⟨1⟩ ⟨1000000⟩),
    .readRecord ⟨10⟩ ⟨1⟩, .acquire ⟨10⟩ ⟨2000000⟩ true, .restore ⟨10⟩ false,
    .markReady ⟨10⟩ "INITIALIZED" ⟨3000000⟩ true,
    .number ⟨10⟩, .putManifest ⟨10⟩ (digestOf 'a'), .check ⟨10⟩, .putCommit ⟨10⟩ ⟨4000000⟩,
    .receipt ⟨10⟩ false {} ⟨5000000⟩ true,
    .readRecord ⟨11⟩ ⟨1⟩, .acquire ⟨11⟩ ⟨200000000⟩ true]

def claimedWorld : World :=
  (Machine.runAlong step (fun w e => w.holderCommits e = true) newWorld takeoverRun).get (by decide)

def restoredWorld : World := (claimedWorld.step (.restore ⟨11⟩ false)).get (by decide)

theorem restore_descends_takeover :
    ∃ g, (restoredWorld.containers ⟨11⟩).head = some g ∧ Descends claimedWorld.parent g 1 :=
  restore_descends (.of_isSome _) (by decide) (Option.some_get _).symm (by decide) (by decide)

/-- Container 11 commits generation 2 and gets its receipt, container 10 commits generation 3 and is
refused, container 12 claims. -/
def fencedRun : List Event :=
  [.markReady ⟨11⟩ "RESTORED" ⟨201000000⟩ true,
    .number ⟨11⟩, .putManifest ⟨11⟩ (digestOf 'b'), .check ⟨11⟩, .putCommit ⟨11⟩ ⟨202000000⟩,
    .receipt ⟨11⟩ false {} ⟨203000000⟩ true,
    .number ⟨10⟩, .putManifest ⟨10⟩ (digestOf 'c'), .check ⟨10⟩, .putCommit ⟨10⟩ ⟨204000000⟩,
    .receipt ⟨10⟩ false {} ⟨205000000⟩ true,
    .readRecord ⟨12⟩ ⟨1⟩, .acquire ⟨12⟩ ⟨400000000⟩ true]

def takenOver : World := (Machine.runAlong step Machine.Any restoredWorld fencedRun).get (by decide)

def restarted : World := (takenOver.step (.restore ⟨12⟩ false)).get (by decide)

/-- The third start installs generation 3, which does not descend from the accepted generation 2. -/
theorem fenced_commit_restored : ¬ ∀ (w w' : World) (A : InstanceId) (a : Nat),
    w.Reachable → w.step (.restore A false) = some w' → (w'.containers A).phase = .restored →
    w.accepted.head? = some a → ∃ g, (w'.containers A).head = some g ∧ Descends w.parent g a := by
  intro h
  have hclaimed : Machine.Reaches step Machine.Any newWorld claimedWorld :=
    (Machine.Reaches.of_isSome _).any
  have hrestored : Machine.Reaches step Machine.Any newWorld restoredWorld :=
    hclaimed.tail (e := .restore ⟨11⟩ false) trivial (Option.some_get _).symm
  have hreach : takenOver.Reachable := ⟨"sub", "box", ⟨0⟩, "1", ⟨0⟩, hrestored.trans (.of_isSome _)⟩
  obtain ⟨g, hg, hd⟩ :=
    h takenOver restarted ⟨12⟩ 2 hreach (Option.some_get _).symm (by decide) (by decide)
  have hg3 : (restarted.containers ⟨12⟩).head = some 3 := by decide
  obtain rfl : g = 3 := Option.some.inj (hg.symm.trans hg3)
  -- generation 3 was committed on generation 1, generation 1 on nothing
  rcases hd.cases_head with heq | ⟨p, hp, hd⟩
  · simp at heq
  · have h1 : takenOver.parent 3 = some 1 := by decide
    obtain rfl : p = 1 := Option.some.inj (hp.symm.trans h1)
    rcases hd.cases_head with heq | ⟨p, hp, -⟩
    · simp at heq
    · have h0 : takenOver.parent 1 = none := by decide
      rw [h0] at hp
      simp at hp

end World

end KiroCrew
