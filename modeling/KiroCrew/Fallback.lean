import KiroCrew.Attempt
import KiroCrew.Times

/-!
# When restore falls back

What a restore should do with the last two of the listed commits (`FallsBack`) against what
`restore` does: it reads every commit record before it tries one, and its loop does not catch
everything a generation can raise. A generation is valid (`FullyValid`) and installed (`Installed`)
by what the store and the workspace hold. The workspace is on one file system and in order, and no
entry lies below a link of its manifest (`Unlinked`).
-/

namespace KiroCrew

open Restore (agentcore persistenceJson restoreStage stateDestination)

theorem ManifestDecoder.shaped_of_decode {raw sandboxId : Str} {generation : Nat}
    {limits : Json.Limits} {m : PersistenceManifest}
    (h : ManifestDecoder.decode raw sandboxId generation limits = .ok m)
    (hunlinked : RestoreEngine.Unlinked m.entries) : RestoreEngine.Shaped m.entries := by
  have hadmitted := ManifestDecoder.decode_admitted h
  have houtside : ∀ e ∈ m.entries, ∃ name rest, e.parts = name :: rest ∧ name ≠ agentcore ∧
      name ≠ [] := by
    intro e he
    have hincludes := (hadmitted e he).includes
    have hrelative :=
      PersistencePolicy.relative_of_covers (PersistencePolicy.covers_of_includes hincludes)
    rw [hrelative] at hincludes
    obtain ⟨root, hroot, rest, hrest⟩ :=
      PersistencePolicy.covers_relative (PersistencePolicy.covers_of_includes hincludes)
    have hheads : ∀ r ∈ PersistencePolicy.roots, r ≠ [] ∧ r.head? ≠ some agentcore ∧
        r.head? ≠ some [] := by
      decide
    obtain ⟨hne, hhead, hhead'⟩ := hheads root hroot
    cases root with
    | nil => exact absurd rfl hne
    | cons name root =>
      exact ⟨name, root ++ rest, hrest.symm, by simpa using hhead, by simpa using hhead'⟩
  have hjoin : ∀ e ∈ m.entries, e.path = PosixPath.join e.parts := by
    intro e he
    have hnormal := (hadmitted e he).normal
    rw [PersistencePolicy.relative_of_covers
      (PersistencePolicy.covers_of_includes (hadmitted e he).includes)] at hnormal
    obtain ⟨name, rest, hparts, -, hname⟩ := houtside e he
    have hne : PosixPath.join e.parts ≠ [] := by
      obtain ⟨text, htext⟩ := PosixPath.join_cons name rest
      rw [hparts, htext]
      simp [hname]
    refine hnormal.trans ?_
    show (if [] ++ PosixPath.join e.parts = [] then [46] else [] ++ PosixPath.join e.parts) = _
    rw [List.nil_append, if_neg hne]
  refine ⟨fun e he => ?_, fun e he => ?_, ?_, fun e he => (hadmitted e he).target, hunlinked⟩
  · obtain ⟨name, rest, hparts, -⟩ := houtside e he
    rw [hparts]
    simp
  · obtain ⟨name, rest, hparts, hname, -⟩ := houtside e he
    rw [hparts, List.cons_prefix_cons]
    exact fun hle => hname hle.1.symm
  · refine (ManifestDecoder.decode_paths h).imp_of_mem fun {d e} hd he hlt => ?_
    rw [hjoin d hd, hjoin e he] at hlt
    rintro ⟨rest, hrest⟩
    refine hlt.2 (le_antisymm hlt.1 ?_)
    rw [← hrest]
    exact PosixPath.join_le_append _ _

namespace RestoreEngine

open Act

/-! ## What a restore should do -/

section Expected

variable {W : Type} (engine : RestoreEngine W) (x : Nat × Bytes) (committed : CommittedGeneration)
  (manifest : PersistenceManifest)

/-- The text of the manifest that a record names, where its object and its cipher are in order. -/
def Opens (text : Str) : Prop := ∃ blob plaintext,
  engine.store.getManifest committed.generation engine.limits = .ok blob ∧
    blob.digest = committed.manifestDigest.text ∧ engine.cipher.decrypt blob = .ok plaintext ∧
      Bytes.decodeJson (plaintext.map UInt8.toNat) = some text

/-- The manifest that a record names. -/
def Names : Prop := ∃ text, engine.Opens committed text ∧
  ManifestDecoder.decode text engine.cipher.sandboxId.text committed.generation engine.limits =
    .ok manifest

/-- Record, manifest and chunks of a listed commit are in order. -/
structure FullyValid : Prop where
  record : Bucket.readCommit engine.iso x.1 x.2 engine.limits = .ok committed
  names : engine.Names committed manifest
  fits : engine.Fits manifest.entries

/-- The listed commits, oldest first. -/
def listed : List (Nat × Bytes) := engine.store.commits.insertionSort fun x y => x.1 ≤ y.1

/-- The last two, newest first. -/
def newest : List (Nat × Bytes) := engine.listed.reverse.take 2

/-- A listed commit that is not valid. -/
def Damaged : Prop := ∀ committed manifest, ¬ engine.FullyValid x committed manifest

/-- Every listed record can be read. -/
def Readable : Prop := ∀ x ∈ engine.store.commits, ∃ committed,
  Bucket.readCommit engine.iso x.1 x.2 engine.limits = .ok committed

/-- Reading the manifest comes upon what the loop does not expect: a depth or a number that
`json.loads` does not take, or a type without a hash. -/
def StumblesReading : Prop :=
  engine.store.getManifest committed.generation engine.limits = .error (.limit .nesting) ∨
    ∃ text, engine.Opens committed text ∧ ∃ error,
      ManifestDecoder.decode text engine.cipher.sandboxId.text committed.generation engine.limits =
        .error error ∧ (error = .unhashable ∨ ∃ limit, error = .limit limit)

end Expected

section Workspace

variable (engine : RestoreEngine FileSystem) (x : Nat × Bytes) (existing : Bool)
  (conditions : RestoreConditions) (fs fs' : FileSystem)

/-- No condition asks for a restore, and the state file names the generation of the commit. -/
def Matches : Prop :=
  (conditions.managedSessionExpired = false ∧ conditions.runtimeVersionReset = false ∧
    conditions.localIntegrityOk = true) ∧
  ∃ committed mode mtimeNs data fields,
    Bucket.readCommit engine.iso x.1 x.2 engine.limits = .ok committed ∧
    fs.node stateDestination = some (.file mode mtimeNs data) ∧
      loadsBytes data = some (.obj fields) ∧
    ManifestDecoder.equalsNumber (ManifestDecoder.get fields "generation") committed.generation =
      true ∧
    ManifestDecoder.equalsStr (ManifestDecoder.get fields "manifestDigest")
      committed.manifestDigest.text = true ∧
    ManifestDecoder.equalsStr (ManifestDecoder.get fields "runtimeVersion") engine.runtimeVersion =
      true

/-- The restore raises, and outside of `.agentcore` nothing has changed. -/
def Raises : Prop :=
  ∃ r, engine.restore existing conditions fs = (fs', .error r) ∧ Unmoved fs fs'

/-- The restore returns a report that says this, and has written it. -/
def Returns (outcome : RestoreOutcome) (generation : Option Nat) (fallbackUsed : Bool)
    (attempts : List Nat) : Prop :=
  ∃ report, engine.restore existing conditions fs = (fs', .ok report) ∧ report.outcome = outcome ∧
    report.generation = generation ∧ report.fallbackUsed = fallbackUsed ∧
    report.attemptedGenerations = attempts ∧ ∃ mode mtimeNs, fs'.node reportPath =
      some (.file mode mtimeNs ((Json.dumps report.asDict ++ [10]).map UInt8.ofNat))

/-- What a restore should do where the local state does not match: the newer one of the last two
generations that is valid is installed and reported, and it raises only if there is none. -/
structure Recovers (x : Nat × Bytes) (rest : List (Nat × Bytes)) : Prop where
  restored : ∀ committed manifest, engine.FullyValid x committed manifest → ∃ fs',
    engine.Returns existing conditions fs fs' .restored (some x.1) false [x.1] ∧
      Installed engine committed manifest.entries fs'
  fallback : engine.Damaged x → ∀ y ∈ rest, ∀ committed manifest,
    engine.FullyValid y committed manifest → ∃ fs',
      engine.Returns existing conditions fs fs' .fallback (some y.1) true [x.1, y.1] ∧
        Installed engine committed manifest.entries fs'
  raised : engine.Damaged x → (∀ y ∈ rest, engine.Damaged y) →
    ∃ fs', engine.Raises existing conditions fs fs'

/-- The restore does what it should. -/
def FallsBack : Prop :=
  match engine.newest with
  | [] =>
    if existing then ∃ fs', engine.Raises existing conditions fs fs'
    else ∃ fs', engine.Returns existing conditions fs fs' .initialized none false [] ∧
      Unmoved fs fs'
  | x :: rest =>
    (engine.Matches x conditions fs → ∃ fs',
      engine.Returns existing conditions fs fs' .local (some x.1) false [] ∧ Unmoved fs fs') ∧
    (¬ engine.Matches x conditions fs → engine.Recovers existing conditions fs x rest)

/-- It should raise: there is no commit of a sandbox that exists, or neither of the last two is
valid. -/
def MustRaise : Prop :=
  match engine.newest with
  | [] => existing = true
  | x :: rest => ¬ engine.Matches x conditions fs ∧ engine.Damaged x ∧ ∀ y ∈ rest, engine.Damaged y

/-- `json.loads` takes the state file, or finds it malformed. -/
def StateReadable : Prop := ∀ mode mtimeNs data,
  fs.node stateDestination = some (.file mode mtimeNs data) →
    exceededBytes engine.limits data = none

/-- The attempt on a commit comes upon what the loop does not expect. -/
def StumblesOn (committed : CommittedGeneration) : Prop :=
  engine.StumblesReading committed ∨
    ∃ manifest, engine.Names committed manifest ∧ engine.StumblesWriting manifest.entries

/-- The attempt on the newest commit does. -/
def NewestStumbles : Prop := ∃ x ∈ engine.newest.head?, ¬ engine.Matches x conditions fs ∧
  ∃ committed, Bucket.readCommit engine.iso x.1 x.2 engine.limits = .ok committed ∧
    engine.StumblesOn committed

end Workspace

/-- In the last two manifests no entry lies below a link. -/
def LinksApart {W : Type} (engine : RestoreEngine W) : Prop :=
  ∀ x ∈ engine.newest, ∀ committed manifest,
    Bucket.readCommit engine.iso x.1 x.2 engine.limits = .ok committed →
      engine.Names committed manifest → Unlinked manifest.entries

/-! ## The listed commits -/

section Listed

variable {W : Type} {engine : RestoreEngine W} {x : Nat × Bytes} {existing : Bool}
  {conditions : RestoreConditions} {w w' : W} {rest : List (Nat × Bytes)} {report : RestoreReport}

theorem readCommit_generation {iso : IsoFormat} {g : Nat} {raw : Bytes} {limits : Json.Limits}
    {committed : CommittedGeneration} (h : Bucket.readCommit iso g raw limits = .ok committed) :
    committed.generation = g := by
  unfold Bucket.readCommit at h
  split at h
  · cases h
  · unfold Bucket.readRecord at h
    repeat' split at h
    all_goals cases h <;> rfl

/-- What the record says, where it can be read. -/
def generationOf (engine : RestoreEngine W) (x : Nat × Bytes) : CommittedGeneration :=
  match Bucket.readCommit engine.iso x.1 x.2 engine.limits with
  | .ok committed => committed
  | .error _ => { generation := x.1, manifestDigest := [], committedAt := 0 }

theorem generationOf_eq {committed : CommittedGeneration}
    (h : Bucket.readCommit engine.iso x.1 x.2 engine.limits = .ok committed) :
    engine.generationOf x = committed := by
  unfold generationOf
  rw [h]

theorem generation_generationOf : (engine.generationOf x).generation = x.1 := by
  unfold generationOf
  cases h : Bucket.readCommit engine.iso x.1 x.2 engine.limits with
  | ok committed => exact readCommit_generation h
  | error _ => rfl

theorem mapM_readCommit {commits : List (Nat × Bytes)} (h : ∀ x ∈ commits, ∃ committed,
    Bucket.readCommit engine.iso x.1 x.2 engine.limits = .ok committed) :
    commits.mapM (fun x => Bucket.readCommit engine.iso x.1 x.2 engine.limits) =
      .ok (commits.map engine.generationOf) := by
  induction commits with
  | nil => rfl
  | cons x commits ih =>
    obtain ⟨committed, hx⟩ := h x List.mem_cons_self
    rw [List.mapM_cons, hx, ih fun y hy => h y (List.mem_cons_of_mem _ hy), List.map_cons,
      generationOf_eq hx]
    rfl

theorem committedGenerations_eq (h : engine.Readable) :
    engine.store.committedGenerations engine.iso engine.limits =
      .ok (engine.listed.map engine.generationOf) := by
  unfold Bucket.committedGenerations
  rw [mapM_readCommit h]
  refine congrArg Except.ok ?_
  rw [listed, List.map_insertionSort (fun x y : Nat × Bytes => x.1 ≤ y.1)
    (fun c c' : CommittedGeneration => c.generation ≤ c'.generation) engine.generationOf]
  intro x _ y _
  rw [generation_generationOf, generation_generationOf]

theorem readable_of_mapM {commits : List (Nat × Bytes)} {read : List CommittedGeneration}
    (h : commits.mapM (fun x => Bucket.readCommit engine.iso x.1 x.2 engine.limits) = .ok read)
    (hx : x ∈ commits) :
    ∃ committed, Bucket.readCommit engine.iso x.1 x.2 engine.limits = .ok committed := by
  induction commits generalizing read with
  | nil => cases hx
  | cons y commits ih =>
    rw [List.mapM_cons] at h
    cases hy : Bucket.readCommit engine.iso y.1 y.2 engine.limits with
    | error error =>
      rw [hy] at h
      cases h
    | ok committed =>
      cases hrest : commits.mapM fun x => Bucket.readCommit engine.iso x.1 x.2 engine.limits with
      | error error =>
        rw [hy, hrest] at h
        cases h
      | ok read =>
        rcases List.mem_cons.1 hx with rfl | hx
        · exact ⟨committed, hy⟩
        · exact ih hrest hx

theorem committedGenerations_error (h : ¬ engine.Readable) :
    ∃ error, engine.store.committedGenerations engine.iso engine.limits = .error error := by
  unfold Bucket.committedGenerations
  cases hread : engine.store.commits.mapM
      fun x => Bucket.readCommit engine.iso x.1 x.2 engine.limits with
  | error error => exact ⟨error, rfl⟩
  | ok committed => exact absurd (fun x hx => readable_of_mapM hread hx) h

theorem mem_commits_of_newest (hx : x ∈ engine.newest) : x ∈ engine.store.commits :=
  (List.mem_insertionSort _).1 (List.mem_reverse.1 (List.mem_of_mem_take hx))

theorem getLast?_listed : engine.listed.getLast? = engine.newest.head? := by
  rw [newest, List.head?_take, if_neg (by decide), List.head?_reverse]

/-! ## The whole restore -/

/-- The report is written and returned. -/
def finish (engine : RestoreEngine W) (report : RestoreReport) : Effect W RestoreReport :=
  engine.writeReport report >>= fun _ => pure report

theorem report_of_finish {report' : RestoreReport}
    (h : engine.finish report w = (w', .ok report')) :
    report' = report := by
  obtain ⟨w₁, u, -, hreturn⟩ := bind_ok h
  cases hreturn
  rfl

theorem restore_of_unreadable (h : ¬ engine.Readable) :
    ∃ r, engine.restore existing conditions w = (w, .error r) := by
  obtain ⟨error, herror⟩ := committedGenerations_error h
  refine ⟨.store error, ?_⟩
  unfold restore
  rw [herror]
  rfl

theorem restore_nil (h : engine.Readable) (hnewest : engine.newest = []) :
    engine.restore existing conditions =
      if existing then
        engine.writeReport
          (engine.report .failed none false [Str.ofString "no-retained-generation"] []) >>= fun _ =>
            Act.raise (.failed (Str.ofString "PERSISTENCE_RESTORE_FAILED"))
      else engine.os.mkdirParents [] >>= fun _ =>
        engine.finish (engine.report .initialized none false [Str.ofString "new-sandbox"] []) := by
  have hlast : (engine.listed.map engine.generationOf).getLast? = none := by
    rw [List.getLast?_map, getLast?_listed, hnewest]
    rfl
  unfold restore
  rw [committedGenerations_eq h]
  simp only [hlast]
  rfl

theorem restore_cons {committed : CommittedGeneration} (h : engine.Readable)
    (hnewest : engine.newest = x :: rest)
    (hrecord : Bucket.readCommit engine.iso x.1 x.2 engine.limits = .ok committed) :
    engine.restore existing conditions =
      (engine.restoreReasons committed conditions >>= fun reasons =>
        if reasons = [] then engine.finish (engine.report .local (some x.1) false [] [])
        else engine.tryGenerations [] reasons (committed :: rest.map engine.generationOf)) := by
  have hlast : (engine.listed.map engine.generationOf).getLast? = some committed := by
    rw [List.getLast?_map, getLast?_listed, hnewest, List.head?_cons, Option.map_some,
      generationOf_eq hrecord]
  have htaken : (engine.listed.map engine.generationOf).reverse.take 2 =
      committed :: rest.map engine.generationOf := by
    rw [← List.map_reverse, ← List.map_take, ← generationOf_eq hrecord, ← List.map_cons, ← hnewest]
    rfl
  unfold restore
  rw [committedGenerations_eq h]
  simp only [hlast, htaken, readCommit_generation hrecord]
  rfl

variable {committed : CommittedGeneration} {attempts : List Nat} {reasons : List Str}
  {more : List CommittedGeneration} {r : Raised}

theorem tryGenerations_ok (h : engine.restoreGeneration committed w = (w', .ok ())) :
    engine.tryGenerations attempts reasons (committed :: more) w =
      engine.finish (engine.report (if attempts.isEmpty then .restored else .fallback)
        (some committed.generation) (!attempts.isEmpty) reasons
          (attempts ++ [committed.generation])) w' := by
  unfold tryGenerations
  rw [h]
  cases attempts <;> rfl

theorem tryGenerations_error (h : engine.restoreGeneration committed w = (w', .error r)) :
    engine.tryGenerations attempts reasons (committed :: more) w =
      if r.caught then
        engine.tryGenerations (attempts ++ [committed.generation])
          (reasons ++ [failureText committed.generation r]) more w'
      else (w', .error r) := by
  simp only [tryGenerations, h]

theorem tryGenerations_outcome {generations : List CommittedGeneration}
    (h : engine.tryGenerations attempts reasons generations w = (w', .ok report)) :
    report.outcome = .restored ∨ report.outcome = .fallback := by
  induction generations generalizing attempts reasons w with
  | nil =>
    obtain ⟨w₁, u, -, hraise⟩ := bind_ok h
    cases hraise
  | cons committed more ih =>
    rcases hrun : engine.restoreGeneration committed w with ⟨w₁, r | u⟩
    · rw [tryGenerations_error hrun] at h
      split at h
      · exact ih h
      · cases h
    · rw [tryGenerations_ok hrun] at h
      rw [report_of_finish h]
      cases attempts
      · exact Or.inl rfl
      · exact Or.inr rfl

/-- A sandbox that exists is never initialized empty, whatever its store holds. -/
theorem existing_not_initialized (h : engine.restore true conditions w = (w', .ok report)) :
    report.outcome ≠ .initialized := by
  by_cases hreadable : engine.Readable
  · cases hnewest : engine.newest with
    | nil =>
      rw [restore_nil hreadable hnewest, if_pos rfl] at h
      obtain ⟨w₁, u, -, hraise⟩ := bind_ok h
      cases hraise
    | cons x rest =>
      obtain ⟨committed, hrecord⟩ :=
        hreadable x (mem_commits_of_newest (hnewest ▸ List.mem_cons_self))
      rw [restore_cons hreadable hnewest hrecord] at h
      obtain ⟨w₁, reasons, -, h⟩ := bind_ok h
      split at h
      · rw [report_of_finish h]
        exact nofun
      · rcases tryGenerations_outcome h with heq | heq
        · rw [heq]
          exact nofun
        · rw [heq]
          exact nofun
  · obtain ⟨r, hraised⟩ := @restore_of_unreadable _ _ true conditions w hreadable
    rw [hraised] at h
    cases h

/-! ## Reading a manifest -/

variable {manifest manifest' : PersistenceManifest} {text : Str}

theorem opens_unique {text' : Str} (h : engine.Opens committed text)
    (h' : engine.Opens committed text') :
    text = text' := by
  obtain ⟨blob, plaintext, hget, -, hdecrypt, htext⟩ := h
  obtain ⟨blob', plaintext', hget', -, hdecrypt', htext'⟩ := h'
  rw [hget] at hget'
  cases hget'
  rw [hdecrypt] at hdecrypt'
  cases hdecrypt'
  rw [htext] at htext'
  exact Option.some.inj htext'

theorem names_unique (h : engine.Names committed manifest) (h' : engine.Names committed manifest') :
    manifest = manifest' := by
  obtain ⟨text, hopens, hdecode⟩ := h
  obtain ⟨text', hopens', hdecode'⟩ := h'
  rw [opens_unique hopens' hopens, hdecode] at hdecode'
  exact Except.ok.inj hdecode'

theorem readGeneration_of_opens (h : engine.Opens committed text) :
    engine.readGeneration committed =
      match ManifestDecoder.decode text engine.cipher.sandboxId.text committed.generation
          engine.limits with
      | .error (.validation message) => .error (.validation message)
      | .error .unhashable => .error .type
      | .error (.limit limit) => .error (.limit limit)
      | .ok manifest => .ok manifest := by
  obtain ⟨blob, plaintext, hget, hdigest, hdecrypt, htext⟩ := h
  have hdigest' : ¬ blob.digest ≠ committed.manifestDigest.text := not_not.2 hdigest
  unfold readGeneration
  rcases hdecode : ManifestDecoder.decode text engine.cipher.sandboxId.text committed.generation
    engine.limits with (message | _ | limit) | manifest <;>
  simp only [hget, if_neg hdigest', hdecrypt, htext, hdecode]

theorem readGeneration_of_names (h : engine.Names committed manifest) :
    engine.readGeneration committed = .ok manifest := by
  obtain ⟨text, hopens, hdecode⟩ := h
  rw [readGeneration_of_opens hopens, hdecode]

/-- A manifest object that does not come to a text. -/
theorem readGeneration_of_closed (h : ∀ text, ¬ engine.Opens committed text) : ∃ r,
    engine.readGeneration committed = .error r ∧ (r.caught = false ↔
      engine.store.getManifest committed.generation engine.limits = .error (.limit .nesting)) := by
  unfold readGeneration
  cases hget : engine.store.getManifest committed.generation engine.limits with
  | error error =>
    refine ⟨.store error, rfl, ?_⟩
    rcases getManifest_caught hget with hcaught | rfl
    · rw [hcaught]
      refine iff_of_false (by simp) ?_
      rintro ⟨⟩
      cases hcaught
    · exact iff_of_true rfl rfl
  | ok blob =>
    dsimp only
    split
    · exact ⟨_, rfl, by simp [Raised.caught]⟩
    · next hdigest =>
      rw [not_not] at hdigest
      cases hdecrypt : engine.cipher.decrypt blob with
      | error error => exact ⟨_, rfl, by simp [decrypt_caught hdecrypt]⟩
      | ok plaintext =>
        cases htext : Bytes.decodeJson (plaintext.map UInt8.toNat) with
        | none => exact ⟨_, by simp only [htext]; rfl, by simp [Raised.caught]⟩
        | some text => exact absurd ⟨blob, plaintext, hget, hdigest, hdecrypt, htext⟩ (h text)

/-- The manifest is named, or what is raised is what the loop expects if the reading does not
stumble. -/
theorem readGeneration_cases (engine : RestoreEngine W) (committed : CommittedGeneration) :
    (∃ manifest, engine.Names committed manifest ∧ ¬ engine.StumblesReading committed) ∨
    ∃ r, engine.readGeneration committed = .error r ∧
      (∀ manifest, ¬ engine.Names committed manifest) ∧
      (r.caught = false ↔ engine.StumblesReading committed) := by
  by_cases hopens : ∃ text, engine.Opens committed text
  · obtain ⟨text, hopens⟩ := hopens
    have hget : engine.store.getManifest committed.generation engine.limits ≠
        .error (.limit .nesting) := by
      obtain ⟨blob, plaintext, hget, -⟩ := hopens
      rw [hget]
      exact nofun
    cases hdecode : ManifestDecoder.decode text engine.cipher.sandboxId.text committed.generation
        engine.limits with
    | ok manifest =>
      refine Or.inl ⟨manifest, ⟨text, hopens, hdecode⟩, ?_⟩
      rintro (hnesting | ⟨text', hopens', error, herror, -⟩)
      · exact hget hnesting
      · rw [opens_unique hopens' hopens, hdecode] at herror
        cases herror
    | error error =>
      have hstumbles : engine.StumblesReading committed ↔ error = .unhashable ∨
          ∃ limit, error = .limit limit := by
        constructor
        · rintro (hnesting | ⟨text', hopens', error', herror, hcase⟩)
          · exact absurd hnesting hget
          · rw [opens_unique hopens' hopens, hdecode] at herror
            exact Except.error.inj herror ▸ hcase
        · exact fun hcase => Or.inr ⟨text, hopens, error, hdecode, hcase⟩
      have hnames : ∀ manifest, ¬ engine.Names committed manifest := by
        rintro manifest ⟨text', hopens', hdecode'⟩
        rw [opens_unique hopens' hopens, hdecode] at hdecode'
        cases hdecode'
      right
      rw [readGeneration_of_opens hopens, hdecode, hstumbles]
      rcases error with message | _ | limit
      · exact ⟨.validation message, rfl, hnames, by simp [Raised.caught]⟩
      · exact ⟨.type, rfl, hnames, by simp [Raised.caught]⟩
      · exact ⟨.limit limit, rfl, hnames, by simp [Raised.caught]⟩
  · rw [not_exists] at hopens
    obtain ⟨r, hread, hcaught⟩ := readGeneration_of_closed hopens
    refine Or.inr ⟨r, hread, fun manifest hnames => ?_, hcaught.trans ⟨Or.inl, ?_⟩⟩
    · obtain ⟨text, htext, -⟩ := hnames
      exact hopens text htext
    · rintro (hnesting | ⟨text, htext, -⟩)
      · exact hnesting
      · exact absurd htext (hopens text)

end Listed

/-! ## On one file system -/

section Runs

variable {engine : RestoreEngine FileSystem} {x y : Nat × Bytes} {rest : List (Nat × Bytes)}
  {existing : Bool} {conditions : RestoreConditions} {committed : CommittedGeneration}
  {manifest : PersistenceManifest} {fs fs' : FileSystem} {report : RestoreReport}

open FileSystem

theorem Unmoved.trans {fs₁ fs₂ fs₃ : FileSystem} (h : Unmoved fs₁ fs₂) (h' : Unmoved fs₂ fs₃) :
    Unmoved fs₁ fs₃ :=
  fun name rest hname => (h' name rest hname).trans (h name rest hname)

/-- A report leaves what was installed. -/
theorem Installed.reported {entries : List ManifestEntry}
    (h : Installed engine committed entries fs)
    (hshaped : Shaped entries) (hclosed : fs.Closed) (hreported : Reported report fs fs') :
    Installed engine committed entries fs' where
  placed := fun e he => by
    obtain ⟨name, rest, hparts, hname⟩ := hshaped.outside he
    have hplaced := h.placed e he
    rw [hparts] at hplaced ⊢
    rw [hreported.outside name rest hname, hplaced]
  above := fun e he r hr hne => by
    obtain ⟨name, rest, hparts, hname⟩ := hshaped.outside he
    have habove := h.above e he r hr hne
    cases r with
    | nil =>
      obtain ⟨mode, mtimeNs, hfile⟩ := h.state
      exact hreported.root (hclosed.above (r := stateDestination) (by decide) (by simp [hfile]))
    | cons name' rest' =>
      rw [hparts] at hr
      obtain ⟨rfl, -⟩ := List.cons_prefix_cons.1 hr
      rw [isDirectory_congr (hreported.outside name' rest' hname), habove]
  only := fun name rest hname hsome => by
    rw [hreported.outside name rest hname] at hsome
    exact h.only name rest hname hsome
  state := by
    rw [hreported.state]
    exact h.state

theorem FullyValid.unique {committed' : CommittedGeneration} {manifest' : PersistenceManifest}
    (h : engine.FullyValid x committed manifest) (h' : engine.FullyValid x committed' manifest') :
    committed' = committed ∧ manifest' = manifest := by
  have hrecord := h'.record
  rw [h.record] at hrecord
  obtain rfl := Except.ok.inj hrecord
  exact ⟨rfl, names_unique h'.names h.names⟩

/-- The state that the file names. -/
def stateFields (fs : FileSystem) : Option ManifestDecoder.Fields :=
  match fs.node stateDestination with
  | some (.file _ _ data) =>
    match loadsBytes data with
    | some (.obj fields) => some fields
    | _ => none
  | _ => none

theorem stateFields_eq_some {fields : ManifestDecoder.Fields} : stateFields fs = some fields ↔
    ∃ mode mtimeNs data, fs.node stateDestination = some (.file mode mtimeNs data) ∧
      loadsBytes data = some (.obj fields) := by
  unfold stateFields
  cases hnode : fs.node stateDestination with
  | none => simp
  | some n =>
    cases n with
    | file mode mtimeNs data =>
      dsimp only
      split
      · next fields' hloads => simp [hloads]
      · next hloads => simpa using fun h => hloads _ h
    | _ => simp

theorem append_if_eq_nil {α : Type} {c : Prop} [Decidable c] {l : List α} {a : α} :
    (if c then l ++ [a] else l) = [] ↔ l = [] ∧ ¬ c := by
  split
  · next hc => simp [hc]
  · next hc => simp [hc]

/-- No reason is left exactly if the state matches. -/
theorem reasonsOf_eq_nil {W : Type} {engine : RestoreEngine W}
    {state : Option ManifestDecoder.Fields} :
    engine.reasonsOf committed conditions state = [] ↔
      (conditions.managedSessionExpired = false ∧ conditions.runtimeVersionReset = false ∧
        conditions.localIntegrityOk = true) ∧ ∃ fields, state = some fields ∧
      ManifestDecoder.equalsNumber (ManifestDecoder.get fields "generation") committed.generation =
        true ∧
      ManifestDecoder.equalsStr (ManifestDecoder.get fields "manifestDigest")
        committed.manifestDigest.text = true ∧
      ManifestDecoder.equalsStr (ManifestDecoder.get fields "runtimeVersion")
          engine.runtimeVersion = true := by
  have hswap : ∀ l : List Str, (if conditions.localIntegrityOk = true then l
      else l ++ [Str.ofString "local-integrity-failed"]) = [] ↔
        l = [] ∧ conditions.localIntegrityOk = true := by
    intro l
    rw [← ite_not, append_if_eq_nil, not_not]
  have hreset : ∀ l : List Str,
      (l = [] ∧ ¬ (conditions.runtimeVersionReset && !decide (versionReset ∈ l)) = true) ↔
      l = [] ∧ conditions.runtimeVersionReset = false := by
    intro l
    refine and_congr_right fun hl => ?_
    simp [hl]
  unfold reasonsOf
  rw [hswap, append_if_eq_nil, hreset, append_if_eq_nil]
  cases state with
  | none => simp
  | some fields =>
    simp only [List.append_eq_nil_iff, ite_eq_left_iff, List.cons_ne_nil, imp_false, not_not,
      Bool.and_eq_true, Bool.not_eq_true, Bool.not_eq_false, Option.some.injEq, exists_eq_left']
    constructor
    · rintro ⟨⟨⟨⟨⟨hgeneration, hdigest⟩, hversion⟩, hexpired⟩, hversionReset⟩, hintegrity⟩
      exact ⟨⟨hexpired, hversionReset, hintegrity⟩, hgeneration, hdigest, hversion⟩
    · rintro ⟨⟨hexpired, hversionReset, hintegrity⟩, hgeneration, hdigest, hversion⟩
      exact ⟨⟨⟨⟨⟨hgeneration, hdigest⟩, hversion⟩, hexpired⟩, hversionReset⟩, hintegrity⟩

theorem matches_iff (hrecord : Bucket.readCommit engine.iso x.1 x.2 engine.limits = .ok committed) :
    engine.Matches x conditions fs ↔
      engine.reasonsOf committed conditions (stateFields fs) = [] := by
  rw [reasonsOf_eq_nil]
  unfold Matches
  constructor
  · rintro ⟨hconditions, committed', mode, mtimeNs, data, fields, hrecord', hnode, hloads, hequal⟩
    rw [hrecord] at hrecord'
    obtain rfl := Except.ok.inj hrecord'
    exact ⟨hconditions, fields, stateFields_eq_some.2 ⟨mode, mtimeNs, data, hnode, hloads⟩, hequal⟩
  · rintro ⟨hconditions, fields, hstate, hequal⟩
    obtain ⟨mode, mtimeNs, data, hnode, hloads⟩ := stateFields_eq_some.1 hstate
    exact ⟨hconditions, committed, mode, mtimeNs, data, fields, hrecord, hnode, hloads, hequal⟩

/-- A restore that raises does what it should exactly if it should raise. -/
theorem fallsBack_of_raised {r : Raised}
    (h : engine.restore existing conditions fs = (fs', .error r))
    (hunmoved : Unmoved fs fs') :
    engine.FallsBack existing conditions fs ↔ engine.MustRaise existing conditions fs := by
  have hraises : ∃ fs', engine.Raises existing conditions fs fs' := ⟨fs', r, h, hunmoved⟩
  have hnot : ∀ {fs'' outcome generation fallbackUsed attempts},
      ¬ engine.Returns existing conditions fs fs'' outcome generation fallbackUsed attempts := by
    rintro fs'' outcome generation fallbackUsed attempts ⟨report, hrun, -⟩
    rw [h] at hrun
    cases hrun
  unfold FallsBack MustRaise
  cases engine.newest with
  | nil =>
    cases existing with
    | true => exact iff_of_true hraises rfl
    | false => exact iff_of_false (fun ⟨_, hreturns, _⟩ => hnot hreturns) nofun
  | cons x rest =>
    constructor
    · rintro ⟨hlocal, hrecovers⟩
      have hmatches : ¬ engine.Matches x conditions fs := fun hm => by
        obtain ⟨fs'', hreturns, -⟩ := hlocal hm
        exact hnot hreturns
      have hdamaged : engine.Damaged x := fun committed manifest hvalid => by
        obtain ⟨fs'', hreturns, -⟩ := (hrecovers hmatches).restored committed manifest hvalid
        exact hnot hreturns
      refine ⟨hmatches, hdamaged, fun y hy committed manifest hvalid => ?_⟩
      obtain ⟨fs'', hreturns, -⟩ :=
        (hrecovers hmatches).fallback hdamaged y hy committed manifest hvalid
      exact hnot hreturns
    · rintro ⟨hmatches, hdamaged, hrest⟩
      exact ⟨fun hm => absurd hm hmatches, fun _ =>
        ⟨fun committed manifest hvalid => absurd hvalid (hdamaged committed manifest),
          fun _ y hy committed manifest hvalid => absurd hvalid (hrest y hy committed manifest),
          fun _ _ => hraises⟩⟩

section Disk

variable (hos : engine.os = disk .none)

include hos

/-- The state file is read, or it has more in it than `json.loads` takes. -/
theorem localState_run (h : Orderly fs) :
    engine.StateReadable fs ∧ engine.localState fs = (fs, .ok (stateFields fs)) ∨
      ¬ engine.StateReadable fs ∧ ∃ limit, engine.localState fs = (fs, .error (.limit limit)) := by
  unfold localState stateFields StateReadable
  rw [bind_of_ok look_apply, hos]
  rcases h.state with hnone | ⟨mode, mtimeNs, data, hfile⟩
  · have hisFile : (disk .none).isFile stateDestination fs = false := by simp [disk, hnone]
    rw [hisFile]
    simp only [hnone]
    exact Or.inl ⟨by simp, rfl⟩
  · have hisFile : (disk .none).isFile stateDestination fs = true := by
      simp [disk, hfile, Node.kind]
    have hread : ((disk .none).read stateDestination).mapError Raised.os fs = (fs, .ok data) := by
      simp [Act.mapError, disk, hfile]
    rw [hisFile, if_pos rfl]
    unfold Act.attempt
    rw [bind_of_ok hread]
    simp only [hfile, Option.some.injEq, Node.file.injEq, and_imp]
    cases hlimit : exceededBytes engine.limits data with
    | some limit => exact Or.inr ⟨by simp [hlimit], limit, rfl⟩
    | none =>
      refine Or.inl ⟨fun mode mtimeNs data' _ _ heq => heq ▸ hlimit, ?_⟩
      rcases loadsBytes data with _ | v
      · rfl
      · cases v <;> rfl

/-- The reasons to restore, of a state that can be read. -/
theorem restoreReasons_run (h : Orderly fs) (committed : CommittedGeneration)
    (conditions : RestoreConditions) :
    engine.StateReadable fs ∧ engine.restoreReasons committed conditions fs =
        (fs, .ok (engine.reasonsOf committed conditions (stateFields fs))) ∨
      ¬ engine.StateReadable fs ∧ ∃ limit,
        engine.restoreReasons committed conditions fs = (fs, .error (.limit limit)) := by
  rcases localState_run hos h with ⟨hstate, hrun⟩ | ⟨hstate, limit, hrun⟩
  · exact Or.inl ⟨hstate, bind_of_ok hrun⟩
  · exact Or.inr ⟨hstate, limit, bind_of_error hrun⟩

omit hos in
theorem not_stumblesOn (hnames : engine.Names committed manifest)
    (hreading : ¬ engine.StumblesReading committed) (hfits : engine.Fits manifest.entries) :
    ¬ engine.StumblesOn committed := by
  rintro (hstumbles | ⟨manifest', hnames',
    ⟨done, e, later, hsplit, -, hrefused⟩ | ⟨-, e, he, htime⟩⟩)
  · exact hreading hstumbles
  · obtain rfl := names_unique hnames hnames'
    exact not_placeable_of_refused hrefused
      (hfits e (hsplit ▸ List.mem_append_right _ List.mem_cons_self)).1
  · obtain rfl := names_unique hnames hnames'
    rw [(hfits e he).2] at htime
    cases htime

/-- An attempt installs a valid generation, and leaves a damaged one alone. -/
theorem attempt_run (h : Orderly fs)
    (hrecord : Bucket.readCommit engine.iso x.1 x.2 engine.limits = .ok committed)
    (hlinks : ∀ manifest, engine.Names committed manifest → Unlinked manifest.entries) :
    (∃ manifest fs', engine.FullyValid x committed manifest ∧ ¬ engine.StumblesOn committed ∧
      engine.restoreGeneration committed fs = (fs', .ok ()) ∧ Shaped manifest.entries ∧
        Installed engine committed manifest.entries fs' ∧ Reportable fs') ∨
    engine.Damaged x ∧ ∃ fs' r, engine.restoreGeneration committed fs = (fs', .error r) ∧
      Orderly fs' ∧ Unmoved fs fs' ∧ (r.caught = false ↔ engine.StumblesOn committed) := by
  have hdamaged : (∀ manifest, ¬ (engine.Names committed manifest ∧ engine.Fits manifest.entries)) →
      engine.Damaged x := by
    intro hnot committed' manifest hvalid
    have hrecord' := hvalid.record
    rw [hrecord] at hrecord'
    obtain rfl := Except.ok.inj hrecord'
    exact hnot manifest ⟨hvalid.names, hvalid.fits⟩
  rcases engine.readGeneration_cases committed with
    ⟨manifest, hnames, hreading⟩ | ⟨r, hread, hnames, hcaught⟩
  · have hread := readGeneration_of_names hnames
    have hshaped : Shaped manifest.entries := by
      have hunlinked := hlinks manifest hnames
      obtain ⟨text, -, hdecode⟩ := hnames
      exact ManifestDecoder.shaped_of_decode hdecode hunlinked
    by_cases hfits : engine.Fits manifest.entries
    · obtain ⟨fs', hrun, hinstalled, hreportable⟩ := attempt_valid hos h hread hshaped hfits
      exact Or.inl ⟨manifest, fs', ⟨hrecord, hnames, hfits⟩,
        not_stumblesOn hnames hreading hfits, hrun, hshaped, hinstalled, hreportable⟩
    · obtain ⟨fs', r, hrun, horderly, hunmoved, hcaught⟩ :=
        attempt_invalid hos h hread hshaped hfits
      refine Or.inr ⟨hdamaged fun manifest' ⟨hnames', hfits'⟩ =>
        hfits (names_unique hnames hnames' ▸ hfits'), fs', r, hrun, horderly, hunmoved,
          hcaught.trans ?_⟩
      constructor
      · exact fun hstumbles => Or.inr ⟨manifest, hnames, hstumbles⟩
      · rintro (hstumbles | ⟨manifest', hnames', hstumbles⟩)
        · exact absurd hstumbles hreading
        · rwa [names_unique hnames hnames']
  · refine Or.inr ⟨hdamaged fun manifest ⟨hnames', _⟩ => hnames manifest hnames', fs, r,
      restoreGeneration_of_error hread, h, fun _ _ _ => rfl, hcaught.trans ⟨Or.inl, ?_⟩⟩
    rintro (hstumbles | ⟨manifest, hnames', -⟩)
    · exact hstumbles
    · exact absurd hnames' (hnames manifest)

/-! ## The ends of a restore -/

theorem finish_run (h : Reportable fs) (report : RestoreReport) : ∃ fs',
    engine.finish report fs = (fs', .ok report) ∧ Reported report fs fs' := by
  obtain ⟨fs', hrun, hreported⟩ := writeReport_run hos h report
  exact ⟨fs', bind_of_ok hrun, hreported⟩

/-- After the last attempt the report is written and the restore raises. -/
theorem giveUp_run (h : Reportable fs) (reasons : List Str) (attempts : List Nat) : ∃ fs' r,
    engine.giveUp reasons attempts fs = (fs', .error r) ∧ Unmoved fs fs' := by
  obtain ⟨fs', hrun, hreported⟩ :=
    writeReport_run hos h (engine.report .failed none false reasons attempts)
  exact ⟨fs', _, bind_of_ok hrun, hreported.outside⟩

/-- The workspace directory of a new sandbox. -/
theorem root_run (h : Reportable fs) : ∃ fs', engine.os.mkdirParents [] fs = (fs', .ok ()) ∧
    Reportable fs' ∧ Unmoved fs fs' := by
  obtain ⟨fs', hroot⟩ := h.mkdirParents_root
  have hsame : ∀ q, q ≠ [] → fs'.node q = fs.node q :=
    fun q hq => mkdirParents_same hroot (by simpa using hq)
  refine ⟨fs', ?_, ⟨h.closed.mkdirParents hroot, Or.inr (mkdirParents_isDirectory hroot),
    ?_, ?_, ?_⟩,
    fun name rest _ => hsame _ (by simp)⟩
  · rw [hos]
    exact mkdirParents_of_some h.closed hroot
  · rw [isDirectory_congr (hsame _ (by simp)), hsame _ (by simp)]
    exact h.agent
  · rw [hsame _ (by simp [reportTemporary])]
    exact h.temporary
  · rw [isDirectory_congr (hsame _ (by simp [reportPath]))]
    exact h.report

/-- The report on what was installed. -/
theorem finish_installed (h : Installed engine committed manifest.entries fs)
    (hshaped : Shaped manifest.entries) (hreportable : Reportable fs) (report : RestoreReport) :
    ∃ fs',
      engine.finish report fs = (fs', .ok report) ∧
      Installed engine committed manifest.entries fs' ∧
        ∃ mode mtimeNs, fs'.node reportPath =
          some (.file mode mtimeNs ((Json.dumps report.asDict ++ [10]).map UInt8.ofNat)) := by
  obtain ⟨fs', hrun, hreported⟩ := finish_run hos hreportable report
  exact ⟨fs', hrun, h.reported hshaped hreportable.closed hreported, hreported.written⟩

section Newest

variable (hreadable : engine.Readable) (hlinks : engine.LinksApart)
    (hnewest : engine.newest = x :: rest)

include hreadable hlinks hnewest

/-- The loop after the newest commit was found damaged. -/
theorem previous_run (h : Orderly fs) (reasons : List Str) (g : Nat) :
    (∃ y committed manifest fs', rest = [y] ∧ engine.FullyValid y committed manifest ∧
      engine.tryGenerations [g] reasons (rest.map engine.generationOf) fs =
        (fs', .ok (engine.report .fallback (some y.1) true reasons [g, y.1])) ∧
      Installed engine committed manifest.entries fs' ∧ ∃ mode mtimeNs, fs'.node reportPath =
        some (.file mode mtimeNs ((Json.dumps
          (engine.report .fallback (some y.1) true reasons [g, y.1]).asDict ++ [10]).map
            UInt8.ofNat))) ∨
    (∀ y ∈ rest, engine.Damaged y) ∧ ∃ fs' r,
      engine.tryGenerations [g] reasons (rest.map engine.generationOf) fs = (fs', .error r) ∧
        Unmoved fs fs' := by
  have hshort : (x :: rest).length ≤ 2 := hnewest ▸ List.length_take_le 2 _
  cases rest with
  | nil =>
    obtain ⟨fs', r, hrun, hunmoved⟩ := giveUp_run hos h.toReportable reasons [g]
    exact Or.inr ⟨by simp, fs', r, hrun, hunmoved⟩
  | cons y rest =>
    obtain rfl : rest = [] := List.length_eq_zero_iff.1 (by simpa using hshort)
    have hy : y ∈ engine.newest := hnewest ▸ List.mem_cons_of_mem _ List.mem_cons_self
    obtain ⟨committed, hrecord⟩ := hreadable y (mem_commits_of_newest hy)
    have hgeneration := readCommit_generation hrecord
    rw [List.map_cons, generationOf_eq hrecord, List.map_nil]
    rcases attempt_run hos h hrecord fun manifest => hlinks y hy committed manifest hrecord with
      ⟨manifest, fs₁, hvalid, -, hrun, hshaped, hinstalled, hreportable⟩ |
        ⟨hdamaged, fs₁, r, hrun, horderly, hunmoved, -⟩
    · obtain ⟨fs', hfinish, hinstalled', hwritten⟩ :=
        finish_installed hos hinstalled hshaped hreportable
        (engine.report .fallback (some y.1) true reasons [g, y.1])
      refine Or.inl ⟨y, committed, manifest, fs', rfl, hvalid, ?_, hinstalled', hwritten⟩
      rw [tryGenerations_ok hrun, hgeneration]
      exact hfinish
    · refine Or.inr ⟨by simpa using hdamaged, ?_⟩
      rw [tryGenerations_error hrun]
      split
      · obtain ⟨fs', r', hgiveUp, hunmoved'⟩ := giveUp_run hos horderly.toReportable
          (reasons ++ [failureText committed.generation r]) ([g] ++ [committed.generation])
        exact ⟨fs', r', hgiveUp, hunmoved.trans hunmoved'⟩
      · exact ⟨fs₁, r, rfl, hunmoved⟩

/-- The loop over the last two generations does what it should, or the newest one stumbles. -/
theorem recovers_run (h : Orderly fs) {reasons : List Str}
    (hrecord : Bucket.readCommit engine.iso x.1 x.2 engine.limits = .ok committed)
    (hrestore : engine.restore existing conditions fs =
      engine.tryGenerations [] reasons (committed :: rest.map engine.generationOf) fs) :
    ¬ engine.StumblesOn committed ∧ engine.Recovers existing conditions fs x rest ∨
      engine.StumblesOn committed ∧ ∃ fs' r,
        engine.restore existing conditions fs = (fs', .error r) ∧ Unmoved fs fs' := by
  have hgeneration := readCommit_generation hrecord
  rcases attempt_run hos h hrecord fun manifest =>
      hlinks x (hnewest ▸ List.mem_cons_self) committed manifest hrecord with
    ⟨manifest, fs₁, hvalid, hstumbles, hrun, hshaped, hinstalled, hreportable⟩ |
      ⟨hdamaged, fs₁, r, hrun, horderly, hunmoved, hcaught⟩
  · left
    obtain ⟨fs', hfinish, hinstalled', hwritten⟩ :=
      finish_installed hos hinstalled hshaped hreportable
      (engine.report .restored (some x.1) false reasons [x.1])
    rw [tryGenerations_ok hrun, hgeneration] at hrestore
    refine ⟨hstumbles, ⟨fun committed' manifest' hvalid' => ?_, fun hnot => ?_, fun hnot => ?_⟩⟩
    · obtain ⟨rfl, rfl⟩ := hvalid.unique hvalid'
      exact ⟨fs', ⟨_, hrestore.trans hfinish, rfl, rfl, rfl, rfl, hwritten⟩, hinstalled'⟩
    · exact absurd hvalid (hnot committed manifest)
    · exact absurd hvalid (hnot committed manifest)
  · rw [tryGenerations_error hrun] at hrestore
    by_cases hstumbles : engine.StumblesOn committed
    · rw [hcaught.2 hstumbles] at hrestore
      exact Or.inr ⟨hstumbles, fs₁, r, hrestore, hunmoved⟩
    · left
      rw [Bool.eq_true_of_not_eq_false (hcaught.not.2 hstumbles), if_pos rfl,
        hgeneration] at hrestore
      refine ⟨hstumbles, ?_⟩
      rcases previous_run hos hreadable hlinks hnewest horderly
          (reasons ++ [failureText x.1 r]) x.1 with
        ⟨y, committed', manifest, fs', rfl, hvalid, hfallback, hinstalled, hwritten⟩ |
          ⟨hrest, fs', r', herror, hunmoved'⟩
      · refine ⟨fun committed' manifest' hvalid' => ?_, fun _ z hz committed'' manifest' hvalid' =>
          ?_,
          fun _ hnot => ?_⟩
        · exact absurd hvalid' (hdamaged committed' manifest')
        · obtain rfl := List.mem_singleton.1 hz
          obtain ⟨rfl, rfl⟩ := hvalid.unique hvalid'
          exact ⟨fs', ⟨_, hrestore.trans hfallback, rfl, rfl, rfl, rfl, hwritten⟩, hinstalled⟩
        · exact absurd hvalid (hnot y List.mem_cons_self committed' manifest)
      · refine ⟨fun committed' manifest' hvalid' => ?_, fun _ z hz committed'' manifest' hvalid' =>
          ?_,
          fun _ _ => ?_⟩
        · exact absurd hvalid' (hdamaged committed' manifest')
        · exact absurd hvalid' (hrest z hz committed'' manifest')
        · exact ⟨fs', r', hrestore.trans herror, hunmoved.trans hunmoved'⟩

end Newest

/-- Without commits a sandbox that exists makes a restore raise, and a new one is initialized. -/
theorem fallsBack_nil (h : Orderly fs) (hreadable : engine.Readable)
    (hnewest : engine.newest = []) :
    engine.FallsBack existing conditions fs := by
  have hrestore := @restore_nil _ engine existing conditions hreadable hnewest
  cases existing with
  | true =>
    obtain ⟨fs', hrun, hreported⟩ := writeReport_run hos h.toReportable
      (engine.report .failed none false [Str.ofString "no-retained-generation"] [])
    rw [fallsBack_of_raised ((congrFun hrestore fs).trans (bind_of_ok hrun)) hreported.outside]
    unfold MustRaise
    rw [hnewest]
  | false =>
    obtain ⟨fs₁, hroot, hreportable, hunmoved⟩ := root_run hos h.toReportable
    obtain ⟨fs', hrun, hreported⟩ := finish_run hos hreportable
      (engine.report .initialized none false [Str.ofString "new-sandbox"] [])
    unfold FallsBack
    rw [hnewest]
    exact ⟨fs', ⟨_, (congrFun hrestore fs).trans ((bind_of_ok hroot).trans hrun), rfl,
      rfl, rfl, rfl,
      hreported.written⟩, hunmoved.trans hreported.outside⟩

/-- With commits whose records can be read, and a state file that can. -/
theorem fallsBack_cons (h : Orderly fs) (hreadable : engine.Readable) (hlinks : engine.LinksApart)
    (hnewest : engine.newest = x :: rest) (hstate : engine.StateReadable fs) :
    engine.FallsBack existing conditions fs ↔
      engine.MustRaise existing conditions fs ∨ ¬ engine.NewestStumbles conditions fs := by
  obtain ⟨committed, hrecord⟩ :=
    hreadable x (mem_commits_of_newest (hnewest ▸ List.mem_cons_self))
  have hrestore : engine.restore existing conditions fs = _ :=
    congrFun (restore_cons hreadable hnewest hrecord) fs
  have hstumbles : engine.NewestStumbles conditions fs ↔
      ¬ engine.Matches x conditions fs ∧ engine.StumblesOn committed := by
    simp only [NewestStumbles, hnewest, List.head?_cons, Option.mem_some_iff,
      exists_eq_left', hrecord,
      Except.ok.injEq]
  rcases restoreReasons_run hos h committed conditions with
    ⟨-, hrun⟩ | ⟨hlimit, -⟩
  · rw [bind_of_ok hrun] at hrestore
    by_cases hm : engine.Matches x conditions fs
    · rw [if_pos ((matches_iff hrecord).1 hm)] at hrestore
      obtain ⟨fs', hfinish, hreported⟩ := finish_run hos h.toReportable
        (engine.report .local (some x.1) false [] [])
      refine iff_of_true ?_ (Or.inr fun hs => (hstumbles.1 hs).1 hm)
      unfold FallsBack
      rw [hnewest]
      exact ⟨fun _ => ⟨fs', ⟨_, hrestore.trans hfinish, rfl, rfl, rfl, rfl, hreported.written⟩,
        hreported.outside⟩, fun hnot => absurd hm hnot⟩
    · rw [if_neg ((matches_iff hrecord).not.1 hm)] at hrestore
      rcases recovers_run hos hreadable hlinks hnewest h hrecord hrestore with
        ⟨hnot, hrecovers⟩ | ⟨hon, fs', r, herror, hunmoved⟩
      · refine iff_of_true ?_ (Or.inr fun hs => hnot (hstumbles.1 hs).2)
        unfold FallsBack
        rw [hnewest]
        exact ⟨fun hm' => absurd hm' hm, fun _ => hrecovers⟩
      · rw [fallsBack_of_raised herror hunmoved, hstumbles]
        simp [hm, hon]
  · exact absurd hstate hlimit

/-- A state file with more in it than `json.loads` takes keeps the newest commit from being
compared. -/
theorem restore_of_limit (h : Orderly fs) (hreadable : engine.Readable)
    (hnewest : engine.newest = x :: rest) (hstate : ¬ engine.StateReadable fs) :
    ∃ r, engine.restore existing conditions fs = (fs, .error r) := by
  obtain ⟨committed, hrecord⟩ :=
    hreadable x (mem_commits_of_newest (hnewest ▸ List.mem_cons_self))
  rcases restoreReasons_run hos h committed conditions with
    ⟨hreadable', -⟩ | ⟨-, limit, hrun⟩
  · exact absurd hreadable' hstate
  · exact ⟨_, (congrFun (restore_cons hreadable hnewest hrecord) fs).trans (bind_of_error hrun)⟩

end Disk

end Runs

namespace Sample

open KiroCrew.Example Restore.Sample

/-- The SHA-256 of the manifest of an empty workspace. -/
def emptyManifestDigest : Digest :=
  "73deac0d37a2a05ed54086010a3125f9463054a22c9414a74bf330669506c3b9".toList

/-- SHA-256 on the one input that occurs. -/
def manifestSha : Sha256 where
  hexdigest := fun _ => emptyManifestDigest
  isDigest := fun _ => by decide

def emptyManifest : PersistenceManifest where
  schemaVersion := 1
  generation := 1
  sandboxId := sandbox.text
  createdAt := created.text
  entries := []

theorem emptyManifest_writable : ManifestDecoder.Writable emptyManifest where
  schema := rfl
  sandboxId := sandbox.safe
  createdAt := Str.safe_of_ascii created.ascii
  admissible := by simp [emptyManifest]
  sorted := by simp [emptyManifest]
  nodup := by simp [emptyManifest]

/-- The manifest under a cipher that adds a nonce and a tag. -/
def manifestBlob : EncryptedBlob where
  digest := emptyManifestDigest.text
  ciphertext := List.replicate 12 0 ++ dumpsBytes emptyManifest.asDict ++ List.replicate 16 0

def firstRecord : Bytes := dumpsBytes (.obj (Bucket.commitFields 1 emptyManifestDigest ⟨0⟩))

/-- The time of what `isoformat` printed, from the start of 1970. -/
def readIso (s : Str) : Option ℤ :=
  some (((DateTime.fromisoformat (s.map Char.ofNat)).map fun t => (t.micros : ℤ) -
    62135596800000000).getD 0)

theorem readIso_reads (t : Instant) : ∃ micros, readIso ((t.iso.map Char.toNat).flatMap
    fun c => if c = 90 then Str.ofString "+00:00" else [c]) = some micros := ⟨_, rfl⟩

/-- A store whose first generation is complete. -/
def engineOf (commits : Dict Nat Bytes) : RestoreEngine FileSystem where
  os := FileSystem.disk .none
  store :=
    { manifests := [(1, dumpsBytes (.obj (Bucket.manifestFields manifestBlob)))]
      commits := commits }
  cipher :=
    { sha := manifestSha
      aead := fun _ ciphertext _ => some (ciphertext.take (ciphertext.length - 16))
      sandboxId := sandbox }
  iso :=
    { read := readIso
      reads := readIso_reads }
  runtimeVersion := Str.ofString "1"
  now := ⟨0⟩

/-- The record of the second generation is empty. -/
def damagedEngine : RestoreEngine FileSystem := engineOf [(1, firstRecord), (2, [])]

variable {commits : Dict Nat Bytes} {committed : CommittedGeneration}

theorem decrypt_manifestBlob :
    (engineOf commits).cipher.decrypt manifestBlob = .ok (dumpsBytes emptyManifest.asDict) := by
  have hlength : ¬ manifestBlob.ciphertext.length < 13 := by simp [manifestBlob]
  have hplain : ((manifestBlob.ciphertext.drop 12).take
      ((manifestBlob.ciphertext.drop 12).length - 16)) = dumpsBytes emptyManifest.asDict := by
    simp [manifestBlob, List.drop_append]
  simp only [SandboxCipher.decrypt, engineOf, if_neg hlength, hplain]
  exact if_pos rfl

theorem first_opens (h : committed.generation = 1)
    (hdigest : committed.manifestDigest = emptyManifestDigest) :
    (engineOf commits).Opens committed (Json.dumps emptyManifest.asDict) := by
  refine ⟨manifestBlob, dumpsBytes emptyManifest.asDict, ?_, by rw [hdigest]; rfl,
    decrypt_manifestBlob,
    Bucket.decodeJson_dumps (ManifestDecoder.plain_manifest emptyManifest_writable)⟩
  have hraw : Dict.get? (engineOf commits).store.manifests 1 =
      some (dumpsBytes (.obj (Bucket.manifestFields manifestBlob))) := by
    simp [engineOf, Dict.get?]
  rw [h, Bucket.getManifest, hraw]
  exact Bucket.readManifest_payload (by decide)

/-- The first generation is valid. -/
theorem first_valid (commits : Dict Nat Bytes) : ∃ committed, (engineOf commits).FullyValid
    (1, firstRecord) committed emptyManifest := by
  obtain ⟨committed, hrecord, hgeneration, hdigest⟩ := Bucket.readCommit_payload
    (f := (engineOf commits).iso) (g := 1) (t := ⟨0⟩)
      (show isDigest emptyManifestDigest = true by decide)
  have hdecode : ManifestDecoder.decode (Json.dumps emptyManifest.asDict) sandbox.text 1 =
      .ok emptyManifest :=
    (ManifestDecoder.decode_toJson emptyManifest_writable).2
      ⟨⟨by simp [emptyManifest], by simp [emptyManifest], by decide⟩, rfl⟩
  refine ⟨committed, hrecord, ⟨_, first_opens hgeneration hdigest, ?_⟩, nofun⟩
  rw [hgeneration]
  exact hdecode

theorem previous_orderly : Orderly previous.toFileSystem where
  closed := previous.closed
  root := previous_clean.root
  agent := previous_clean.agent
  temporary := Or.inl (by decide)
  report := by decide
  noSpecial := previous_clean.noSpecial
  state := Or.inl (by decide)
  collision := previous_clean.collision

end Sample

open Sample Restore.Sample

end RestoreEngine

end KiroCrew
