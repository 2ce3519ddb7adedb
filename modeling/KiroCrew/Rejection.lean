import KiroCrew.Control

/-!
# The reason of a refused claim

`_claim_rejection` explains a refused `acquireInit` without the request's session. The clause it
blames has really failed (`blames_iff`), unless the state is claimable and it was the session clause
that failed, or the owner clause for an owner without an expiry (`Unexplained`): then the state is
blamed all the same.
-/

namespace KiroCrew

/-! ## The clauses of the condition -/

/-- `#state IN (:starting, :restoring) OR (#state = :ready AND …)` -/
def stateClause (item : Item) (owner : InstanceId) (now : Instant) : Prop :=
  (item.state = .starting ∨ item.state = .restoring) ∨
    item.state = .ready ∧
      (item.leaseExpiresAt = none ∨ item.leaseExpiresAt.any (·.isoLt now) ∨
        (item.holderInstance ≠ none ∧ item.holderInstance ≠ some owner) ∧
          item.lastServedAt.any (·.isoLt (now.subSeconds takeoverIdle)))

/-- `attribute_not_exists(initOwner) OR initOwner = :owner OR initExpiresAt < :now` -/
def ownerClause (item : Item) (owner : InstanceId) (now : Instant) : Prop :=
  item.initOwner = none ∨ item.initOwner = some owner ∨ item.initExpiresAt.any (· < now.epoch)

theorem acquireInitAllowed_clauses {item : Item} {session : SessionId} {owner : InstanceId}
    {now : Instant} :
    acquireInitAllowed item session owner now ↔
      item.runtimeSessionId = session ∧ stateClause item owner now ∧ ownerClause item owner now :=
      Iff.rfl

/-- Another container is initializing and its lease has not run out. -/
def otherInitializing (item : Item) (owner : InstanceId) (now : Instant) : Prop :=
  item.initOwner ≠ none ∧ item.initOwner ≠ some owner ∧ item.initExpiresAt.any (now.epoch ≤ ·)

/-- A record in `READY` whose start lease has not run out. -/
def leaseHeld (item : Item) (now : Instant) : Prop :=
  item.state = .ready ∧ item.leaseExpiresAt.any (fun lease => !lease.isoLt now)

def elsewhereText : String := "Another container owns this sandbox initialization."
def heldText : String := "A live container still holds this sandbox; its lease has not expired."
def notClaimableText (state : SandboxState) : String :=
  "Sandbox is not claimable from state " ++ state.value ++ "."

/-- The clause that a reason blames has failed; a reason that blames none has not to. -/
structure Blames (reason : String) (item : Item) (owner : InstanceId) (now : Instant) : Prop where
  elsewhere : reason = elsewhereText → ¬ ownerClause item owner now
  held : reason = heldText → ¬ stateClause item owner now
  notClaimable : ∀ state, reason = notClaimableText state → ¬ stateClause item owner now

variable {item : Item} {session : SessionId} {owner : InstanceId} {now : Instant}

theorem otherInitializing.not_ownerClause (h : otherInitializing item owner now) :
    ¬ ownerClause item owner now := by
  obtain ⟨hsome, hother, hlive⟩ := h
  rintro (hnone | hself | hexpired)
  · exact hsome hnone
  · exact hother hself
  · cases hexpires : item.initExpiresAt with
    | none => simp [hexpires] at hexpired
    | some expires =>
      simp only [hexpires, Option.any_some, decide_eq_true_eq] at hlive hexpired
      omega

/-- The reasons are told apart by how they begin. -/
theorem text_ne (state : SandboxState) : notClaimableText state ≠ elsewhereText ∧
    notClaimableText state ≠ heldText := by
  cases state <;> decide

theorem claimRejection_cases : claimRejection (some item) owner now = elsewhereText ∧
    otherInitializing item owner now ∨
    ¬ otherInitializing item owner now ∧
      (claimRejection (some item) owner now = heldText ∨ claimRejection (some item) owner now =
      notClaimableText item.state) := by
  unfold claimRejection
  by_cases hother : otherInitializing item owner now
  · exact Or.inl ⟨if_pos hother, hother⟩
  · refine Or.inr ⟨hother, ?_⟩
    by_cases hheld : leaseHeld item now
    · exact Or.inl ((if_neg hother).trans (if_pos hheld))
    · exact Or.inr ((if_neg hother).trans (if_neg hheld))

/-- The state is claimable, and what failed has no reason of its own. -/
def Unexplained (item : Item) (session : SessionId) (owner : InstanceId) (now : Instant) : Prop :=
  stateClause item owner now ∧
    (item.runtimeSessionId ≠ session ∧ ¬ otherInitializing item owner now ∨
      item.initOwner ≠ none ∧ item.initOwner ≠ some owner ∧ item.initExpiresAt = none)

theorem ownerClause_of_not_otherInitializing (h : ¬ otherInitializing item owner now)
    (hexpires : ¬ (item.initOwner ≠ none ∧ item.initOwner ≠ some owner ∧
    item.initExpiresAt = none)) : ownerClause item owner now := by
  by_contra hfailed
  obtain ⟨hsome, hother, hlive⟩ : item.initOwner ≠ none ∧ item.initOwner ≠ some owner ∧
      ¬ item.initExpiresAt.any (· < now.epoch) := by
    simpa only [ownerClause, not_or] using hfailed
  cases hwhen : item.initExpiresAt with
  | none => exact hexpires ⟨hsome, hother, hwhen⟩
  | some expires =>
    refine h ⟨hsome, hother, ?_⟩
    simp only [hwhen, Option.any_some, decide_eq_true_eq] at hlive ⊢
    omega

/-- When another container is initializing, or the state is not claimable, the blamed clause has
failed, and only then. -/
theorem blames_claimRejection : Blames (claimRejection (some item) owner now) item owner now ↔
    otherInitializing item owner now ∨ ¬ stateClause item owner now := by
  have hheld : heldText ≠ elsewhereText := by decide
  rcases @claimRejection_cases item owner now with ⟨htext, hother⟩ | ⟨hother, htext⟩
  · rw [htext]
    refine ⟨fun _ => Or.inl hother, fun _ =>
      ⟨fun _ => hother.not_ownerClause, fun heq => absurd heq.symm hheld, fun state heq => ?_⟩⟩
    exact absurd heq.symm (text_ne state).1
  · constructor
    · intro hblames
      rcases htext with htext | htext
      · exact Or.inr (hblames.held htext)
      · exact Or.inr (hblames.notClaimable _ htext)
    · rintro (hother' | hstate)
      · exact absurd hother' hother
      · refine ⟨fun heq => ?_, fun _ => hstate, fun _ _ => hstate⟩
        rcases htext with htext | htext
        · exact absurd (htext.symm.trans heq) hheld
        · exact absurd (htext.symm.trans heq) (text_ne _).1

/-- A refused claim is told a clause that has failed, unless what failed has no reason of its
own. -/
theorem blames_iff (item : Item) (session : SessionId) (owner : InstanceId) (now : Instant) :
    (¬ acquireInitAllowed item session owner now →
    Blames (claimRejection (some item) owner now) item owner now) ↔
      ¬ Unexplained item session owner now := by
  rw [blames_claimRejection]
  constructor
  · rintro htold ⟨hstate, hwhy⟩
    have hother : ¬ otherInitializing item owner now := by
      rcases hwhy with ⟨-, hother⟩ | ⟨-, -, hnone⟩
      · exact hother
      · intro hother
        simpa [hnone] using hother.2.2
    have hrefused : ¬ acquireInitAllowed item session owner now := by
      rintro ⟨hsession, -, howner⟩
      rcases hwhy with ⟨hne, -⟩ | ⟨hsome, helse, hnone⟩
      · exact hne hsession
      · rcases howner with howner | howner | howner
        · exact hsome howner
        · exact helse howner
        · simp [hnone] at howner
    exact (htold hrefused).elim hother fun hnot => hnot hstate
  · intro hexplained hrefused
    by_contra hnot
    obtain ⟨hother, hstate⟩ := not_or.1 hnot
    have hstate := Classical.not_not.1 hstate
    have hsession : item.runtimeSessionId = session := by
      by_contra hne
      exact hexplained ⟨hstate, Or.inl ⟨hne, hother⟩⟩
    refine hrefused ⟨hsession, hstate, ownerClause_of_not_otherInitializing hother fun hnone => ?_⟩
    exact hexplained ⟨hstate, Or.inr hnone⟩

/-- A record that a start has just rotated to another session. -/
def rotatedRecord : Item :=
  match acquireStart (newRecord "owner" "sbx" ⟨1⟩ "0.2.0" ⟨0⟩) ⟨1⟩ 90 false ⟨2⟩ ⟨1000000⟩ with
  | .rotate updated => updated.item
  | _ => (newRecord "owner" "sbx" ⟨1⟩ "0.2.0" ⟨0⟩).item

theorem rotated_session_blames_state : ¬ ∀ item session owner now,
    ¬ acquireInitAllowed item session owner now →
    Blames (claimRejection (some item) owner now) item owner now := by
  intro h
  have hblames := h rotatedRecord ⟨1⟩ ⟨7⟩ ⟨2000000⟩ (by decide)
  exact hblames.notClaimable .starting (by decide) (Or.inl (Or.inl (by decide)))

end KiroCrew
