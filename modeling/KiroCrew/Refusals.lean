import KiroCrew.Engine

/-!
# What a restore raises

The loop of `restore` expects what the file system raises (`caught_of_isOs`) and what the store
does, but for a manifest object that is nested too deep for `json.loads` (`getManifest_caught`).
-/

namespace KiroCrew

open Restore (restoreStage)

/-! ## What the file system refuses -/

/-- An `OSError`. -/
def Raised.IsOs : Raised → Prop
  | .os _ => True
  | _ => False

namespace Os

variable {W : Type} {os : Os W} {p : Path} {c : Call}

open Act

theorem does_only : Only Raised.IsOs (os.does c) := Only.mapError fun _ => trivial

theorem mkdirExistOk_only : Only Raised.IsOs (os.mkdirExistOk p) := by
  refine does_only.attempt fun e he => ?_
  cases e with
  | os error =>
    refine Only.ite (Only.raise trivial) (Only.look.bind fun isDir => ?_)
    exact Only.ite Only.pure (Only.raise trivial)
  | _ => exact absurd he id

theorem mkdirParentsRev_only : ∀ names : List Str, Only Raised.IsOs (os.mkdirParentsRev names)
  | [] => mkdirExistOk_only
  | name :: above => by
    refine does_only.attempt fun e he => ?_
    cases e with
    | os error =>
      refine Only.ite ((mkdirParentsRev_only above).bind fun _ => mkdirExistOk_only)
        (Only.look.bind fun isDir => ?_)
      exact Only.ite Only.pure (Only.raise trivial)
    | _ => exact absurd he id

theorem mkdirParents_only : Only Raised.IsOs (os.mkdirParents p) := mkdirParentsRev_only _

end Os

namespace RestoreEngine

variable {W : Type} {engine : RestoreEngine W} {p : Path} {committed : CommittedGeneration}
    {w w' : W}

open Act Os

/-! ## What the store refuses -/

theorem caught_of_isOs {e : Raised} (h : e.IsOs) : e.caught = true := by
  cases e with
  | os error => rfl
  | _ => exact absurd h id

theorem readBlob_caught {raw : Bytes} {error : StoreError}
    (h : Bucket.readBlob raw = .error error) :
    error = Bucket.manifestMalformed := by
  unfold Bucket.readBlob at h
  repeat' split at h
  all_goals cases h <;> rfl

theorem getManifest_caught {b : Bucket} {g : Nat} {limits : Json.Limits} {error : StoreError}
    (h : b.getManifest g limits = .error error) :
    (Raised.store error).caught = true ∨ error = .limit .nesting := by
  unfold Bucket.getManifest at h
  split at h
  · cases h
    exact Or.inl rfl
  · unfold Bucket.readManifest at h
    split at h
    · cases h
      exact Or.inl rfl
    · cases h
      exact Or.inr rfl
    · rw [readBlob_caught h]
      exact Or.inl rfl

theorem decrypt_caught {cipher : SandboxCipher} {blob : EncryptedBlob} {error : StoreError}
    (h : cipher.decrypt blob = .error error) :
    (Raised.store error).caught = true := by
  unfold SandboxCipher.decrypt at h
  repeat' split at h
  all_goals cases h <;> rfl

theorem fetchChunk_caught {digest : Digest} {error : StoreError}
    (h : engine.fetchChunk digest = .error error) :
    (Raised.store error).caught = true := by
  unfold fetchChunk Bucket.getChunk at h
  cases hget : Dict.get? engine.store.chunks digest with
  | none =>
    rw [hget] at h
    cases h
    rfl
  | some raw =>
    rw [hget] at h
    exact decrypt_caught h

/-! ## Writing out -/

variable {e : ManifestEntry} {r : Raised} {s : Step}

theorem mem_chunkSteps {written : Bytes} {digests : List Digest}
    (h : s ∈ engine.chunkSteps p e written digests) :
    (∃ data, s = .write p data) ∨ s = .chmod p e.mode ∨ s = .utime p e.mtimeNs true ∨
    ∃ r, s = .raise r := by
  induction digests generalizing written with
  | nil =>
    unfold chunkSteps at h
    split at h
    · exact Or.inr (Or.inr (Or.inr ⟨_, List.mem_singleton.1 h⟩))
    · simp only [List.mem_cons, List.not_mem_nil, or_false] at h
      exact Or.inr (h.imp_right Or.inl)
  | cons digest digests ih =>
    unfold chunkSteps at h
    split at h
    · exact Or.inr (Or.inr (Or.inr ⟨_, List.mem_singleton.1 h⟩))
    · rcases List.mem_cons.1 h with rfl | h
      · exact Or.inl ⟨_, rfl⟩
      · exact ih h

theorem raise_mem_chunkSteps {written : Bytes} {digests : List Digest}
    (h : .raise r ∈ engine.chunkSteps p e written digests) :
    r.caught = true := by
  induction digests generalizing written with
  | nil =>
    unfold chunkSteps at h
    split at h
    · cases List.mem_singleton.1 h
      rfl
    · simp at h
  | cons digest digests ih =>
    unfold chunkSteps at h
    split at h
    · next hfetch =>
      cases List.mem_singleton.1 h
      exact fetchChunk_caught hfetch
    · exact ih (by simpa using h)

theorem call_error (h : s.call engine.os w = (w', .error r)) : r.IsOs ∨ s = .raise r := by
  cases s with
  | raise r' =>
    cases h
    exact Or.inr rfl
  | mkdirParents p => exact Or.inl (mkdirParents_only _ _ _ h)
  | mkdir p => exact Or.inl (mkdirExistOk_only _ _ _ h)
  | _ => exact Or.inl (does_only _ _ _ h)

/-- The file is what its entry says exactly when its steps raise nothing of their own. -/
theorem chunkSteps_raise {written : Bytes} {digests : List Digest} :
    (∀ r, .raise r ∉ engine.chunkSteps p e written digests) ↔
    ∃ data : List Bytes, digests.map engine.fetchChunk = data.map .ok ∧
    (written ++ data.flatten).length = e.size ∧
      some (engine.cipher.sha.hexdigest (written ++ data.flatten)) = e.digest := by
  induction digests generalizing written with
  | nil =>
    unfold chunkSteps
    constructor
    · intro h
      split at h
      · exact absurd (List.mem_singleton_self _) (h contentMismatch)
      · next hfits =>
        push Not at hfits
        exact ⟨[], rfl, by simpa using hfits.1, by simpa using hfits.2⟩
    · rintro ⟨data, hdata, hlength, hdigest⟩ r
      obtain rfl : data = [] := by simpa using hdata.symm
      have hfits : ¬ (written.length ≠ e.size ∨ some (engine.cipher.sha.hexdigest written) ≠
          e.digest) := by
        push Not
        exact ⟨by simpa using hlength, by simpa using hdigest⟩
      rw [if_neg hfits]
      simp
  | cons digest digests ih =>
    unfold chunkSteps
    cases hfetch : engine.fetchChunk digest with
    | error error =>
      constructor
      · intro h
        exact absurd (List.mem_singleton_self _) (h (.store error))
      · rintro ⟨data, hdata, -⟩
        cases data with
        | nil => simp at hdata
        | cons chunk data => simp [hfetch] at hdata
    | ok chunk =>
      have hrest := @ih (written ++ chunk)
      simp only [List.mem_cons, reduceCtorEq, false_or] at hrest ⊢
      rw [hrest]
      constructor
      · rintro ⟨data, hdata, hlength, hdigest⟩
        exact ⟨chunk :: data, by simp [hfetch, hdata], by simpa using hlength, by
            simpa using hdigest⟩
      · rintro ⟨data, hdata, hlength, hdigest⟩
        cases data with
        | nil => simp at hdata
        | cons chunk' data =>
          simp only [List.map_cons, List.cons.injEq, hfetch, Except.ok.injEq] at hdata
          obtain ⟨rfl, hdata⟩ := hdata
          exact ⟨data, hdata, by simpa using hlength, by simpa using hdigest⟩

/-! ## One attempt -/

theorem restoreGeneration_eq {manifest : PersistenceManifest}
    (hread : engine.readGeneration committed = .ok manifest) :
    engine.restoreGeneration committed = (engine.makeStage >>= fun _ =>
      (engine.fillAndInstall committed manifest.entries).always
          (engine.os.removeTree restoreStage)) := by
  unfold restoreGeneration
  rw [hread]

theorem restoreGeneration_of_error (hread : engine.readGeneration committed = .error r) :
    engine.restoreGeneration committed w = (w, .error r) := by
  unfold restoreGeneration
  rw [hread]
  rfl

end RestoreEngine

end KiroCrew
