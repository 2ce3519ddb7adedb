import KiroCrew.OneDisk
import KiroCrew.Refusals

/-!
# Writing out a manifest on one file system

What becomes of the calls of `_materialize` on an empty stage, for any entries in the order of their
paths: they all succeed and leave what the entries describe (`materialize_fits`), or they come upon
a name, a link target or a time that Python refuses (`materialize_stumbles`), or something is raised
that a restore expects (`materialize_damaged`). Which of the three is a question about the entries
and the chunks in the store (`Fits`, `StumblesWriting`).
-/

namespace KiroCrew

open Restore (Materializing Staged Materialized)

/-- The names of the path of an entry. -/
def ManifestEntry.parts (e : ManifestEntry) : Path := (PosixPath.parse e.path).parts

/-- The step works below `d`. -/
def Step.Below (d : Path) : Step → Prop
  | .mkdirParents p => d <+: p
  | .mkdir p | .symlink _ p | .openWrite p | .write p _ | .chmod p _ | .utime p _ _ =>
    d <+: p ∧ p ≠ d
  | .raise _ => True

namespace RestoreEngine

section Definitions

variable {W : Type} (engine : RestoreEngine W) (entries : List ManifestEntry) (e : ManifestEntry)

def fetched (digest : Digest) : Option Bytes := (engine.fetchChunk digest).toOption

/-- The bytes of a file, if its chunks can be fetched and make up what the entry says. -/
def contents : Option Bytes :=
  (e.chunks.mapM engine.fetched).bind fun chunks =>
    if chunks.flatten.length = e.size ∧ some (engine.cipher.sha.hexdigest chunks.flatten) =
        e.digest then
      some chunks.flatten
    else none

/-- What an entry describes. -/
def nodeOf : Option Node :=
  match e.type with
  | .directory => some (.directory e.mode e.mtimeNs)
  | .symlink => e.symlinkTarget.map (.symlink 0o777 e.mtimeNs)
  | .file => (engine.contents e).map (.file e.mode e.mtimeNs)

/-- No file of the manifest lies above the entry. -/
def Clear : Prop := ∀ d ∈ entries, d.parts <+: e.parts → d.parts ≠ e.parts → d.type ≠ .file

/-- The operating system takes the target of a link. -/
def Linkable : Prop := e.type = .symlink → ∀ target ∈ e.symlinkTarget, isEncodable target = true

/-- The entry can be written out, but for the time of a directory, which is set in the end. -/
structure Placeable : Prop where
  clear : Clear entries e
  encodable : e.parts.all isEncodable = true
  whole : (engine.nodeOf e).isSome
  linkable : Linkable e
  timed : e.type ≠ .directory → isTime e.mtimeNs = true

/-- All entries can be written out. -/
def Fits : Prop := ∀ e ∈ entries, engine.Placeable entries e ∧ isTime e.mtimeNs = true

/-- Python refuses something of the entry before a damage shows. -/
def Refused : Prop :=
  e.parts.dropLast.all isEncodable = false ∨ Clear entries e ∧
    (e.parts.all isEncodable = false ∨ e.type ≠ .directory ∧ (engine.nodeOf e).isSome ∧
      ¬ (Linkable e ∧ isTime e.mtimeNs = true))

/-- Python refuses something before a damage shows: of an entry, or the time of a directory. -/
def StumblesWriting : Prop :=
  (∃ done e later, entries = done ++ e :: later ∧ (∀ d ∈ done, engine.Placeable entries d) ∧
    engine.Refused entries e) ∨
  (∀ e ∈ entries, engine.Placeable entries e) ∧ ∃ e ∈ entries, isTime e.mtimeNs = false

end Definitions

/-- No entry lies below a link. -/
def Unlinked (entries : List ManifestEntry) : Prop :=
  ∀ d ∈ entries, ∀ e ∈ entries, d.parts <+: e.parts → d.parts ≠ e.parts → d.type ≠ .symlink

/-- Entries in the order of their paths, which lie below the workspace, outside of `.agentcore`, and
none below a link. -/
structure Shaped (entries : List ManifestEntry) : Prop where
  nonempty : ∀ e ∈ entries, e.parts ≠ []
  apart : ∀ e ∈ entries, ¬ [Restore.agentcore] <+: e.parts
  order : entries.Pairwise fun d e => ¬ e.parts <+: d.parts
  targets : ∀ e ∈ entries, e.type = .symlink → e.symlinkTarget.isSome
  unlinked : Unlinked entries

/-- A path with what its entry describes. -/
def located {W : Type} (engine : RestoreEngine W) (e : ManifestEntry) : Path × Node :=
  (e.parts, (engine.nodeOf e).getD .special)

variable {engine : RestoreEngine FileSystem} {stage p : Path} {entries done : List ManifestEntry}
  {e : ManifestEntry} {fs fs' fs₀ : FileSystem} {st st' : Materializing}

open Act FileSystem

/-! ## What an entry describes -/

theorem mapM_fetched {digests : List Digest} {datas : List Bytes} :
    digests.mapM engine.fetched = some datas ↔ digests.map engine.fetched = datas.map some := by
  induction digests generalizing datas with
  | nil => cases datas <;> simp
  | cons digest digests ih =>
    cases hfirst : engine.fetched digest with
    | none => cases datas <;> simp [List.mapM_cons, hfirst]
    | some data =>
      cases datas with
      | nil => simp [List.mapM_cons, hfirst, Option.bind_eq_some_iff]
      | cons data' datas => simp [List.mapM_cons, hfirst, Option.bind_eq_some_iff, ih, and_comm]

theorem contents_eq_some {data : Bytes} : engine.contents e = some data ↔
    (∃ datas : List Bytes, e.chunks.map engine.fetched = datas.map some ∧ datas.flatten = data) ∧
      data.length = e.size ∧ some (engine.cipher.sha.hexdigest data) = e.digest := by
  unfold contents
  simp only [Option.bind_eq_some_iff, mapM_fetched, Option.ite_none_right_eq_some,
    Option.some.injEq]
  constructor
  · rintro ⟨datas, hfetch, ⟨hlength, hdigest⟩, rfl⟩
    exact ⟨⟨datas, hfetch, rfl⟩, hlength, hdigest⟩
  · rintro ⟨⟨datas, hfetch, rfl⟩, hlength, hdigest⟩
    exact ⟨datas, hfetch, ⟨hlength, hdigest⟩, rfl⟩

theorem isDirectory_located (h : (engine.nodeOf e).isSome) :
    (engine.located e).2.isDirectory = true ↔ e.type = .directory := by
  obtain ⟨n, hn⟩ := Option.isSome_iff_exists.1 h
  unfold located
  rw [hn, Option.getD_some]
  unfold nodeOf at hn
  cases htype : e.type with
  | directory =>
    rw [htype] at hn
    obtain rfl := Option.some.inj hn
    simp [Node.isDirectory]
  | symlink =>
    rw [htype] at hn
    obtain ⟨target, -, rfl⟩ := Option.map_eq_some_iff.1 hn
    simp [Node.isDirectory]
  | file =>
    rw [htype] at hn
    obtain ⟨data, -, rfl⟩ := Option.map_eq_some_iff.1 hn
    simp [Node.isDirectory]

theorem describes_located (h : (engine.nodeOf e).isSome) :
    Restore.Describes engine.cipher.sha engine.fetched (engine.located e) e := by
  obtain ⟨n, hn⟩ := Option.isSome_iff_exists.1 h
  have hlocated : engine.located e = (e.parts, n) := by rw [located, hn, Option.getD_some]
  rw [hlocated]
  unfold nodeOf at hn
  cases htype : e.type with
  | directory =>
    rw [htype] at hn
    obtain rfl := Option.some.inj hn
    exact ⟨rfl, rfl, htype, rfl⟩
  | symlink =>
    rw [htype] at hn
    obtain ⟨target, htarget, rfl⟩ := Option.map_eq_some_iff.1 hn
    exact ⟨rfl, rfl, rfl, htype, htarget⟩
  | file =>
    rw [htype] at hn
    obtain ⟨data, hdata, rfl⟩ := Option.map_eq_some_iff.1 hn
    obtain ⟨hdatas, hlength, hdigest⟩ := contents_eq_some.1 hdata
    exact ⟨rfl, rfl, htype, rfl, hlength.symm, hdigest.symm, hdatas⟩

/-- What lies above a clear entry is a directory. -/
theorem Shaped.directory_above {d : ManifestEntry} (h : Shaped entries) (hd : d ∈ entries)
    (he : e ∈ entries)
    (hclear : Clear entries e) (hle : d.parts <+: e.parts) (hne : d.parts ≠ e.parts) :
    d.type = .directory := by
  cases htype : d.type with
  | directory => rfl
  | symlink => exact absurd htype (h.unlinked d hd e he hle hne)
  | file => exact absurd htype (hclear d hd hle hne)

theorem Shaped.order_located (h : Shaped entries) (hsub : done.Sublist entries)
    (hplaceable : ∀ e ∈ done, engine.Placeable entries e) :
    (done.map engine.located).Pairwise
      fun y x => ¬ x.1 <+: y.1 ∧ (y.1 <+: x.1 → y.2.isDirectory = true) := by
  rw [List.pairwise_map]
  refine (h.order.sublist hsub).imp_of_mem fun {d e} hd he hde => ⟨hde, fun hle => ?_⟩
  rw [isDirectory_located (hplaceable d hd).whole]
  exact h.directory_above (hsub.subset hd) (hsub.subset he) (hplaceable e he).clear hle
    fun heq => hde (show e.parts <+: d.parts from heq ▸ List.prefix_rfl)

/-! ## The calls of an entry -/

section Runs

variable (hos : engine.os = disk .none)

include hos

theorem run_of_not_refused {s : Step} (h : s.refused = none) :
    s.run engine.os = s.call (disk .none) := by
  rw [Step.run, h, hos]

theorem run_of_change {s : Step} {c : Call} (h : s.refused = none)
    (hcall : s.call (disk .none) = (disk .none).does c) (hc : fs.change c = some fs') :
    s.run engine.os fs = (fs', .ok ()) := by
  rw [run_of_not_refused hos h, hcall, does_of_some hc]

/-- The chunks are written as `writeChunk` writes them. -/
theorem chunkSteps_run {digests : List Digest} {acc acc' : FileSystem × Restore.Futures × Bytes}
    (h : digests.foldlM (Restore.writeChunk engine.fetched p) acc = some acc') :
    Act.each (Step.run engine.os) (engine.chunkSteps p e acc.2.2 digests) acc.1 =
      Act.each (Step.run engine.os) (engine.chunkSteps p e acc'.2.2 []) acc'.1 := by
  induction digests generalizing acc with
  | nil =>
    obtain rfl := Option.some.inj h
    rfl
  | cons digest digests ih =>
    rw [List.foldlM_cons] at h
    obtain ⟨acc₁, hstep, hrest⟩ := Option.bind_eq_some_iff.1 h
    simp only [Restore.writeChunk, Option.bind_eq_some_iff, Option.map_eq_some_iff] at hstep
    obtain ⟨⟨chunk, futures⟩, hresult, fs₁, hwrite, rfl⟩ := hstep
    have hfetch : engine.fetchChunk digest = .ok chunk := by
      unfold Restore.Futures.result at hresult
      split at hresult
      · obtain ⟨chunk', hfetched, heq⟩ := Option.map_eq_some_iff.1 hresult
        obtain ⟨rfl, -⟩ := Prod.mk.inj heq
        unfold fetched at hfetched
        cases hchunk : engine.fetchChunk digest with
        | error error =>
          rw [hchunk] at hfetched
          cases hfetched
        | ok data =>
          rw [hchunk] at hfetched
          exact congrArg Except.ok (Option.some.inj hfetched)
      · cases hresult
    have hsteps : engine.chunkSteps p e acc.2.2 (digest :: digests) =
        .write p chunk :: engine.chunkSteps p e (acc.2.2 ++ chunk) digests := by
      rw [chunkSteps, hfetch]
    rw [hsteps, each_cons, bind_of_ok (run_of_change hos (c := .write p chunk) rfl rfl hwrite)]
    exact ih hrest

variable (hstage : stage.all isEncodable = true)

include hstage

omit hos in
theorem all_isEncodable (h : p.all isEncodable = true) : (stage ++ p).all isEncodable = true := by
  rw [List.all_append, hstage, h]
  rfl

/-- The calls for an entry that can be written out do what `materializeEntry` says. -/
theorem entrySteps_run (hclosed : st.fs.Closed) (hplaceable : engine.Placeable entries e)
    (hne : e.parts ≠ [])
    (h : Restore.materializeEntry engine.cipher.sha engine.fetched stage st e = some st') :
    Act.each (Step.run engine.os) (engine.entrySteps stage e) st.fs = (st'.fs, .ok ()) := by
  have hdestination := all_isEncodable hstage hplaceable.encodable
  have hparent : (stage ++ e.parts).dropLast.all isEncodable = true :=
    List.all_eq_true.2 fun name hname => List.all_eq_true.1 hdestination name
      (List.mem_of_mem_dropLast hname)
  unfold Restore.materializeEntry at h
  obtain ⟨fs₁, hparents, h⟩ := Option.bind_eq_some_iff.1 h
  have hfirst : (Step.mkdirParents (stage ++ e.parts).dropLast).run engine.os st.fs =
      (fs₁, .ok ()) := by
    rw [run_of_not_refused hos (by rw [Step.refused, if_pos hparent])]
    exact mkdirParents_of_some hclosed hparents
  have hclosed₁ := hclosed.mkdirParents hparents
  unfold entrySteps
  rw [each_cons]
  refine (bind_of_ok hfirst).trans ?_
  cases htype : e.type with
  | directory =>
    rw [htype] at h
    obtain ⟨fs₂, hmkdir, rfl⟩ := Option.map_eq_some_iff.1 h
    have hrun : (Step.mkdir (stage ++ e.parts)).run engine.os fs₁ = (fs₂, .ok ()) := by
      rw [run_of_not_refused hos (by rw [Step.refused, if_pos hdestination])]
      unfold FileSystem.mkdirExistOk at hmkdir
      split at hmkdir
      · next hdir =>
        obtain rfl := Option.some.inj hmkdir
        exact mkdirExistOk_of_isDirectory hclosed₁ hdir
      · exact mkdirExistOk_of_some (by rwa [makeDir_ne (by simp [hne])])
    exact bind_of_ok hrun
  | symlink =>
    rw [htype] at h
    obtain ⟨target, htarget, h⟩ := Option.bind_eq_some_iff.1 h
    obtain ⟨fs₃, hlink, rfl⟩ := Option.map_eq_some_iff.1 h
    obtain ⟨fs₂, hsymlink, hutime⟩ := Option.bind_eq_some_iff.1 hlink
    have hencodable := hplaceable.linkable htype target htarget
    have htimed := hplaceable.timed (by simp [htype])
    have hrun : (Step.symlink target (stage ++ e.parts)).run engine.os fs₁ = (fs₂, .ok ()) :=
      run_of_change hos (c := .symlink target (stage ++ e.parts))
        (by simp [Step.refused, hencodable, hdestination]) rfl hsymlink
    have hrun' : (Step.utime (stage ++ e.parts) e.mtimeNs false).run engine.os fs₂ =
        (fs₃, .ok ()) :=
      run_of_change hos (c := .utime (stage ++ e.parts) e.mtimeNs false)
        (by simp [Step.refused, htimed, hdestination]) rfl hutime
    simp only [htarget]
    exact (bind_of_ok hrun).trans (bind_of_ok hrun')
  | file =>
    rw [htype] at h
    unfold Restore.materializeFile at h
    obtain ⟨fs₂, hopen, h⟩ := Option.bind_eq_some_iff.1 h
    obtain ⟨⟨fs₃, futures, written⟩, hchunks, h⟩ := Option.bind_eq_some_iff.1 h
    split at h
    · cases h
    · next hwhole =>
      obtain ⟨fs₅, hset, rfl⟩ := Option.map_eq_some_iff.1 h
      obtain ⟨fs₄, hchmod, hutime⟩ := Option.bind_eq_some_iff.1 hset
      have htimed := hplaceable.timed (by simp [htype])
      have hrun : (Step.openWrite (stage ++ e.parts)).run engine.os fs₁ = (fs₂, .ok ()) :=
        run_of_change hos (c := .openWrite (stage ++ e.parts))
          (by rw [Step.refused, if_pos hdestination]) rfl hopen
      have hmode : (Step.chmod (stage ++ e.parts) e.mode).run engine.os fs₃ = (fs₄, .ok ()) :=
        run_of_change hos (c := .chmod (stage ++ e.parts) e.mode)
          (by rw [Step.refused, if_pos hdestination]) rfl hchmod
      have htime : (Step.utime (stage ++ e.parts) e.mtimeNs true).run engine.os fs₄ =
          (fs₅, .ok ()) :=
        run_of_change hos (c := .utime (stage ++ e.parts) e.mtimeNs true)
          (by simp [Step.refused, htimed, hdestination]) rfl hutime
      have hlast : engine.chunkSteps (stage ++ e.parts) e written [] =
          [.chmod (stage ++ e.parts) e.mode, .utime (stage ++ e.parts) e.mtimeNs true] := by
        rw [chunkSteps, if_neg hwhole]
      refine (bind_of_ok hrun).trans ((chunkSteps_run hos hchunks).trans ?_)
      show Act.each (Step.run engine.os) (engine.chunkSteps (stage ++ e.parts) e written []) fs₃ = _
      rw [hlast]
      exact (bind_of_ok hmode).trans (bind_of_ok htime)

/-! ## Several entries -/

omit hstage in
theorem run_keeps {d : Path} {s : Step} (hs : s.Below d) :
    Act.Keeps (Within d fs₀) (s.run engine.os) := by
  unfold Step.run
  split
  · exact Act.Keeps.raise
  · rw [hos]
    cases s with
    | mkdirParents p => exact Within.mkdirParents hs
    | mkdir p => exact Within.mkdirExistOk (Or.inl hs.1)
    | symlink target p => exact Within.does (fun _ _ => symlink_edits) hs.1 hs.2
    | openWrite p => exact Within.does (fun _ _ => openWrite_edits) hs.1 hs.2
    | write p data => exact Within.does (fun _ _ => write_edits) hs.1 hs.2
    | chmod p mode => exact Within.does (fun _ _ => chmod_edits) hs.1 hs.2
    | utime p mtimeNs followSymlinks => exact Within.does (fun _ _ => utime_edits) hs.1 hs.2
    | raise r => exact Act.Keeps.raise

omit hos hstage in
theorem below_chunkSteps {d : Path} {s : Step} {written : Bytes} {digests : List Digest}
    (hd : d <+: p) (hne : p ≠ d) (hs : s ∈ engine.chunkSteps p e written digests) : s.Below d := by
  rcases mem_chunkSteps hs with ⟨data, rfl⟩ | rfl | rfl | ⟨r, rfl⟩
  · exact ⟨hd, hne⟩
  · exact ⟨hd, hne⟩
  · exact ⟨hd, hne⟩
  · trivial

omit hos hstage in
theorem below_entrySteps {s : Step} (hne : e.parts ≠ []) (hs : s ∈ engine.entrySteps stage e) :
    s.Below stage := by
  have hd : stage <+: stage ++ e.parts := List.prefix_append _ _
  have hne' : stage ++ e.parts ≠ stage := by simpa using hne
  rcases List.mem_cons.1 hs with rfl | hs
  · exact Restore.prefix_dropLast hd hne'.symm
  · cases htype : e.type with
    | directory =>
      rw [htype] at hs
      rw [List.mem_singleton.1 hs]
      exact ⟨hd, hne'⟩
    | symlink =>
      rw [htype] at hs
      cases htarget : e.symlinkTarget with
      | none =>
        rw [htarget] at hs
        rw [List.mem_singleton.1 hs]
        trivial
      | some target =>
        simp only [htarget, List.mem_cons, List.not_mem_nil, or_false] at hs
        rcases hs with rfl | rfl
        · exact ⟨hd, hne'⟩
        · exact ⟨hd, hne'⟩
    | file =>
      rw [htype] at hs
      rcases List.mem_cons.1 hs with rfl | hs
      · exact ⟨hd, hne'⟩
      · exact below_chunkSteps hd hne' hs

omit hstage in
theorem entrySteps_keeps (hne : e.parts ≠ []) :
    Act.Keeps (Within stage fs₀) (Act.each (Step.run engine.os) (engine.entrySteps stage e)) :=
  Act.Keeps.each fun _ hs => run_keeps hos (below_entrySteps hne hs)

/-- The entries of a part that can be written out. -/
theorem entries_run {part : List ManifestEntry} (hin : Within stage fs₀ st.fs)
    (hpart : ∀ e ∈ part, engine.Placeable entries e ∧ e.parts ≠ [])
    (h : part.foldlM (Restore.materializeEntry engine.cipher.sha engine.fetched stage) st =
      some st') :
    Act.each (Step.run engine.os) (part.flatMap (engine.entrySteps stage)) st.fs =
      (st'.fs, .ok ()) ∧
      Within stage fs₀ st'.fs := by
  induction part generalizing st with
  | nil =>
    obtain rfl := Option.some.inj h
    exact ⟨rfl, hin⟩
  | cons e part ih =>
    rw [List.foldlM_cons] at h
    obtain ⟨st₁, hentry, hrest⟩ := Option.bind_eq_some_iff.1 h
    obtain ⟨hplaceable, hne⟩ := hpart e List.mem_cons_self
    have hrun := entrySteps_run hos hstage hin.closed hplaceable hne hentry
    have hin₁ := entrySteps_keeps hos hne st.fs hin
    rw [hrun] at hin₁
    obtain ⟨hrun', hin'⟩ := ih hin₁ (fun e he => hpart e (List.mem_cons_of_mem _ he)) hrest
    refine ⟨?_, hin'⟩
    rw [List.flatMap_cons, each_append, bind_of_ok hrun, hrun']

/-- The first entries, as far as they can be written out. -/
theorem staged_done (hin : Within stage fs fs) (hempty : ∀ r, r ≠ [] → fs.node (stage ++ r) = none)
    (hshaped : Shaped entries) (hsub : done.Sublist entries)
    (hplaceable : ∀ e ∈ done, engine.Placeable entries e) (rest : List Digest) :
    ∃ st, Staged stage fs (done.map engine.located) st rest ∧
      Act.each (Step.run engine.os) (done.flatMap (engine.entrySteps stage)) fs = (st.fs, .ok ()) ∧
      Within stage fs st.fs := by
  have hnonempty : ∀ e ∈ done, e.parts ≠ [] := fun e he => hshaped.nonempty e (hsub.subset he)
  have hstart := Staged.start hin.base hempty (done.flatMap Restore.usedChunks ++ rest)
  have hnonempty' : ∀ x ∈ done.map engine.located, x.1 ≠ [] := by
    intro x hx
    obtain ⟨e, he, rfl⟩ := List.mem_map.1 hx
    exact hnonempty e he
  obtain ⟨st, hrun, hstaged⟩ := hstart.run hnonempty'
    (by simpa using hshaped.order_located hsub hplaceable)
    (by
      rw [List.forall₂_map_left_iff, List.forall₂_same]
      exact fun e he => describes_located (hplaceable e he).whole)
  obtain ⟨hrun', hin'⟩ :=
    entries_run hos hstage hin (fun e he => ⟨hplaceable e he, hnonempty e he⟩) hrun
  exact ⟨st, by simpa using hstaged, hrun', hin'⟩

/-! ## Where it stops -/

omit hos hstage in
theorem run_of_refused {s : Step} {r : Raised} (h : s.refused = some r) :
    s.run engine.os fs = (fs, .error r) := by
  rw [Step.run, h]
  rfl

omit hos hstage in
/-- Where Python refuses no step, the loop expects what is raised. -/
theorem each_caught {steps : List Step} {r : Raised} (hrefused : ∀ s ∈ steps, s.refused = none)
    (hcaught : ∀ r, .raise r ∈ steps → r.caught = true)
    (h : Act.each (Step.run engine.os) steps fs = (fs', .error r)) : r.caught = true := by
  obtain ⟨before, s, after, fs₁, rfl, -, hraise⟩ := each_error h
  have hs : s ∈ before ++ s :: after := List.mem_append_right _ List.mem_cons_self
  rw [Step.run, hrefused s hs] at hraise
  rcases call_error hraise with hIsOs | rfl
  · exact caught_of_isOs hIsOs
  · exact hcaught r hs

omit hos hstage in
theorem fetched_eq_some {digest : Digest} {data : Bytes} :
    engine.fetched digest = some data ↔ engine.fetchChunk digest = .ok data := by
  unfold fetched
  cases engine.fetchChunk digest <;> simp [Except.toOption]

omit hos hstage in
theorem map_fetched {digests : List Digest} {datas : List Bytes} :
    digests.map engine.fetched = datas.map some ↔ digests.map engine.fetchChunk =
    datas.map .ok := by
  induction digests generalizing datas with
  | nil => cases datas <;> simp
  | cons digest digests ih =>
    cases datas with
    | nil => simp
    | cons data datas => simp [fetched_eq_some, ih]

omit hos hstage in
/-- A file is whole exactly when nothing is raised for its chunks. -/
theorem whole_iff (htype : e.type = .file) :
    (engine.nodeOf e).isSome ↔ ∀ r, .raise r ∉ engine.chunkSteps p e [] e.chunks := by
  have hnode : (engine.nodeOf e).isSome ↔ ∃ data, engine.contents e = some data := by
    simp only [nodeOf, htype, Option.isSome_map, Option.isSome_iff_exists]
  rw [hnode, chunkSteps_raise]
  simp only [contents_eq_some, map_fetched, List.nil_append]
  constructor
  · rintro ⟨data, ⟨datas, hfetch, rfl⟩, hlength, hdigest⟩
    exact ⟨datas, hfetch, hlength, hdigest⟩
  · rintro ⟨datas, hfetch, hlength, hdigest⟩
    exact ⟨datas.flatten, ⟨datas, hfetch, rfl⟩, hlength, hdigest⟩

omit hos hstage in
/-- Before a damage shows, Python refuses nothing of the chunks. -/
theorem refused_chunkSteps {written : Bytes} {digests : List Digest} {r : Raised} {s : Step}
    (h : .raise r ∈ engine.chunkSteps p e written digests)
    (hs : s ∈ engine.chunkSteps p e written digests) : s.refused = none := by
  induction digests generalizing written with
  | nil =>
    unfold chunkSteps at h hs
    split at h
    · next hdamaged =>
      rw [if_pos hdamaged] at hs
      rw [List.mem_singleton.1 hs, Step.refused]
    · simp at h
  | cons digest digests ih =>
    unfold chunkSteps at h hs
    cases hfetch : engine.fetchChunk digest with
    | error error =>
      rw [hfetch] at hs
      rw [List.mem_singleton.1 hs, Step.refused]
    | ok chunk =>
      rw [hfetch] at h hs
      rcases List.mem_cons.1 hs with rfl | hs
      · rw [Step.refused]
      · exact ih (by simpa using h) hs

omit hos hstage in
/-- The time of a file is set last. -/
theorem chunkSteps_utime {written : Bytes} {digests : List Digest}
    (h : ∀ r, .raise r ∉ engine.chunkSteps p e written digests) : ∃ before, ∀ t,
      engine.chunkSteps p { e with mtimeNs := t } written digests = before ++
      [.utime p t true] := by
  induction digests generalizing written with
  | nil =>
    refine ⟨[.chmod p e.mode], fun t => ?_⟩
    unfold chunkSteps at h ⊢
    split at h
    · exact absurd List.mem_cons_self (h contentMismatch)
    · next hfits => exact if_neg hfits
  | cons digest digests ih =>
    unfold chunkSteps at h ⊢
    cases hfetch : engine.fetchChunk digest with
    | error error =>
      rw [hfetch] at h
      exact absurd List.mem_cons_self (h (.store error))
    | ok chunk =>
      rw [hfetch] at h
      obtain ⟨before, hbefore⟩ := ih fun r hr => h r (List.mem_cons_of_mem _ hr)
      exact ⟨.write p chunk :: before, fun t => congrArg (Step.write p chunk :: ·) (hbefore t)⟩

omit hos hstage in
/-- The time of a whole file or of a link is set last. -/
theorem entrySteps_utime (stage : Path) (hwhole : (engine.nodeOf e).isSome)
    (htype : e.type ≠ .directory) :
    ∃ before followSymlinks, ∀ t, engine.entrySteps stage { e with mtimeNs := t } =
      before ++ [.utime (stage ++ e.parts) t followSymlinks] := by
  cases htype' : e.type with
  | directory => exact absurd htype' htype
  | symlink =>
    obtain ⟨target, htarget⟩ : ∃ target, e.symlinkTarget = some target := by
      simpa [nodeOf, htype', Option.isSome_iff_exists] using hwhole
    refine ⟨[.mkdirParents (stage ++ e.parts).dropLast, .symlink target (stage ++ e.parts)], false,
      fun t => ?_⟩
    simp only [entrySteps, htarget]
    rfl
  | file =>
    obtain ⟨before, hbefore⟩ :=
      chunkSteps_utime ((whole_iff (p := stage ++ e.parts) htype').1 hwhole)
    refine ⟨.mkdirParents (stage ++ e.parts).dropLast :: .openWrite (stage ++ e.parts) :: before,
      true, fun t => ?_⟩
    simp only [htype'] at hbefore
    exact congrArg (fun steps => _ :: _ :: steps) (hbefore t)

omit hos hstage in
/-- Above a clear entry there are the directories of the stage only. -/
theorem located_above {later : List ManifestEntry} (hshaped : Shaped entries)
    (hsplit : entries = done ++ e :: later) (hdone : ∀ d ∈ done, engine.Placeable entries d)
    (hclear : Clear entries e) : ∀ y ∈ done.map engine.located,
      ¬ e.parts <+: y.1 ∧ (y.1 <+: e.parts → y.2.isDirectory = true) := by
  intro y hy
  obtain ⟨d, hd, rfl⟩ := List.mem_map.1 hy
  have hd' : d ∈ entries := hsplit ▸ List.mem_append_left _ hd
  have he : e ∈ entries := hsplit ▸ List.mem_append_right _ List.mem_cons_self
  have horder : ¬ e.parts <+: d.parts := by
    have hpairs := hshaped.order
    rw [hsplit] at hpairs
    exact (List.pairwise_append.1 hpairs).2.2 d hd e List.mem_cons_self
  refine ⟨horder, fun hle => ?_⟩
  rw [isDirectory_located (hdone d hd).whole]
  exact hshaped.directory_above hd' he hclear hle fun heq => horder (heq ▸ List.prefix_rfl)

omit hos hstage in
/-- A file of the manifest above the entry is written out before it, and no directory. -/
theorem blocked {later : List ManifestEntry} {rest : List Digest} (hshaped : Shaped entries)
    (hsplit : entries = done ++ e :: later) (hdone : ∀ d ∈ done, engine.Placeable entries d)
    (hclosed : st.fs.Closed) (hstaged : Staged stage fs₀ (done.map engine.located) st rest)
    (hclear : ¬ Clear entries e) : st.fs.mkdirParents (stage ++ e.parts).dropLast ≠ some fs' := by
  intro hparents
  unfold Clear at hclear
  push Not at hclear
  obtain ⟨d, hd, hle, hne, htype⟩ := hclear
  have hdone' : d ∈ done := by
    rw [hsplit] at hd
    rcases List.mem_append.1 hd with hd | hd
    · exact hd
    · have hpairs := hshaped.order
      rw [hsplit] at hpairs
      rcases List.mem_cons.1 hd with rfl | hd
      · exact absurd rfl hne
      · exact absurd hle ((List.pairwise_cons.1 (List.pairwise_append.1 hpairs).2.1).1 d hd)
  have hfile : (engine.located d).2.isDirectory = false := by
    rw [Bool.eq_false_iff, ne_eq, isDirectory_located (hdone d hdone').whole, htype]
    exact nofun
  have hnode := hstaged.placed _ (List.mem_map_of_mem hdone') hfile
  have hbelow : stage ++ d.parts <+: (stage ++ e.parts).dropLast :=
    Restore.prefix_dropLast ((List.prefix_append_right_inj _).2 hle) (by simpa using hne)
  have hdir := isDirectory_above_mkdirParents hclosed hparents hbelow (by
    show st.fs.node (stage ++ (engine.located d).1) ≠ none
    rw [hnode]
    exact nofun)
  have hdir' : st.fs.isDirectory (stage ++ (engine.located d).1) = true := hdir
  rw [FileSystem.isDirectory, hnode, Option.any_some, hfile] at hdir'
  cases hdir'

omit hos hstage in
/-- Python refuses a name or a link target with the second call. -/
theorem second_refused (htargets : e.type = .symlink → e.symlinkTarget.isSome)
    (h : e.parts.all isEncodable = false ∨ ¬ Linkable e) : ∃ s rest,
      engine.entrySteps stage e = .mkdirParents (stage ++ e.parts).dropLast :: s :: rest ∧
        s.refused = some .value := by
  have hname : e.parts.all isEncodable = false → (stage ++ e.parts).all isEncodable = false :=
    fun hparts => by rw [List.all_append, hparts, Bool.and_false]
  cases htype : e.type with
  | directory =>
    have hparts :=
      hname (h.resolve_right fun hlink => hlink fun hsymlink => by simp [htype] at hsymlink)
    refine ⟨.mkdir (stage ++ e.parts), [], by simp only [entrySteps, htype]; rfl, ?_⟩
    simp [Step.refused, hparts]
  | file =>
    have hparts :=
      hname (h.resolve_right fun hlink => hlink fun hsymlink => by simp [htype] at hsymlink)
    refine ⟨.openWrite (stage ++ e.parts), _, by simp only [entrySteps, htype]; rfl, ?_⟩
    simp [Step.refused, hparts]
  | symlink =>
    obtain ⟨target, htarget⟩ := Option.isSome_iff_exists.1 (htargets htype)
    refine ⟨.symlink target (stage ++ e.parts), _, by simp only [entrySteps, htype, htarget]; rfl,
      ?_⟩
    rcases h with hparts | hlink
    · simp [Step.refused, hname hparts]
    · have hunencodable : isEncodable target = false := by
        by_contra hencodable
        refine hlink fun _ t ht => ?_
        rw [htarget] at ht
        obtain rfl := Option.some.inj ht
        simpa using hencodable
      simp [Step.refused, hunencodable]

section Entry

variable {later : List ManifestEntry} {rest : List Digest} (hshaped : Shaped entries)
  (hsplit : entries = done ++ e :: later) (hdone : ∀ d ∈ done, engine.Placeable entries d)
  (hclosed : st.fs.Closed)
  (hstaged : Staged stage fs₀ (done.map engine.located) st (Restore.usedChunks e ++ rest))

include hshaped hsplit hdone hclosed hstaged

/-- The directories above a clear entry are made. -/
theorem parents_run (hclear : Clear entries e)
    (hparents : e.parts.dropLast.all isEncodable = true) :
    ∃ fs₁, (Step.mkdirParents (stage ++ e.parts).dropLast).run engine.os st.fs = (fs₁, .ok ()) := by
  have hne := hshaped.nonempty e (hsplit ▸ List.mem_append_right _ List.mem_cons_self)
  have habove := located_above hshaped hsplit hdone hclear
  obtain ⟨fs₁, hmade, -⟩ :=
    hstaged.parents (x := engine.located e) hne fun y hy => (habove y hy).2
  refine ⟨fs₁, ?_⟩
  have hencodable : (stage ++ e.parts).dropLast.all isEncodable = true := by
    rw [Restore.dropLast_append hne]
    exact all_isEncodable hstage hparents
  rw [run_of_not_refused hos (by rw [Step.refused, if_pos hencodable])]
  exact mkdirParents_of_some hclosed hmade

/-- A time beyond `time_t` is come upon last. -/
theorem untimed_overflow (hclear : Clear entries e) (hencodable : e.parts.all isEncodable = true)
    (hwhole : (engine.nodeOf e).isSome) (htype : e.type ≠ .directory) (hlink : Linkable e)
    (htime : isTime e.mtimeNs = false) : ∃ fs',
      Act.each (Step.run engine.os) (engine.entrySteps stage e) st.fs =
        (fs', .error .overflow) := by
  have hne := hshaped.nonempty e (hsplit ▸ List.mem_append_right _ List.mem_cons_self)
  have habove := located_above hshaped hsplit hdone hclear
  obtain ⟨before, followSymlinks, hsteps⟩ := entrySteps_utime stage hwhole htype
  -- the same entry with a time that fits
  have hwhole₀ : (engine.nodeOf { e with mtimeNs := 0 }).isSome := by
    cases htype' : e.type with
    | directory => exact absurd htype' htype
    | symlink => simpa only [nodeOf, htype', Option.isSome_map] using hwhole
    | file =>
      simp only [nodeOf, htype', Option.isSome_map] at hwhole ⊢
      exact hwhole
  have hplaceable : engine.Placeable entries { e with mtimeNs := 0 } :=
    ⟨hclear, hencodable, hwhole₀, hlink, fun _ => rfl⟩
  obtain ⟨st', hentry, -⟩ := hstaged.step (x := engine.located { e with mtimeNs := 0 })
    (e := { e with mtimeNs := 0 }) hne (fun y hy => (habove y hy).1) (fun y hy => (habove y hy).2)
    (describes_located hwhole₀)
  have hrun := entrySteps_run hos hstage hclosed hplaceable hne hentry
  rw [hsteps 0, each_append] at hrun
  obtain ⟨fs₂, u, hbefore, -⟩ := bind_ok hrun
  have hrefused : (Step.utime (stage ++ e.parts) e.mtimeNs followSymlinks).refused =
      some .overflow := by
    simp [Step.refused, all_isEncodable hstage hencodable, htime]
  refine ⟨fs₂, ?_⟩
  rw [show engine.entrySteps stage e = _ from hsteps e.mtimeNs]
  exact each_of_error hbefore (run_of_refused hrefused)

omit hos hdone hclosed hstaged in
/-- A file that is not what its entry says. -/
theorem damaged_caught (hencodable : e.parts.all isEncodable = true)
    (hparents : e.parts.dropLast.all isEncodable = true) (hwhole : ¬ (engine.nodeOf e).isSome) :
    ∃ fs' r, Act.each (Step.run engine.os) (engine.entrySteps stage e) st.fs = (fs', .error r) ∧
      r.caught = true := by
  have he : e ∈ entries := hsplit ▸ List.mem_append_right _ List.mem_cons_self
  have hne := hshaped.nonempty e he
  have htype : e.type = .file := by
    cases htype : e.type with
    | file => rfl
    | directory => simp [nodeOf, htype] at hwhole
    | symlink => simp [nodeOf, htype, hshaped.targets e he htype] at hwhole
  have hsteps : engine.entrySteps stage e = .mkdirParents (stage ++ e.parts).dropLast ::
      .openWrite (stage ++ e.parts) :: engine.chunkSteps (stage ++ e.parts) e [] e.chunks := by
    simp only [entrySteps, htype]
    rfl
  have hdestination := all_isEncodable hstage hencodable
  rw [whole_iff (p := stage ++ e.parts) htype] at hwhole
  push Not at hwhole
  obtain ⟨r₀, hr₀⟩ := hwhole
  rcases hrun : Act.each (Step.run engine.os) (engine.entrySteps stage e) st.fs with ⟨fs', r | u⟩
  · refine ⟨fs', r, rfl, ?_⟩
    rw [hsteps] at hrun
    refine each_caught (fun s hs => ?_) (fun r hr => ?_) hrun
    · rcases List.mem_cons.1 hs with rfl | hs
      · rw [Step.refused, Restore.dropLast_append hne, if_pos (all_isEncodable hstage hparents)]
      · rcases List.mem_cons.1 hs with rfl | hs
        · rw [Step.refused, if_pos hdestination]
        · exact refused_chunkSteps hr₀ hs
    · simp only [List.mem_cons, reduceCtorEq, false_or] at hr
      exact raise_mem_chunkSteps hr
  · exfalso
    rw [hsteps] at hrun
    obtain ⟨fs₁, fs₂, hraise⟩ := each_ok hrun
      (List.mem_cons_of_mem _ (List.mem_cons_of_mem _ hr₀))
    cases hraise

/-- Below a file of the manifest nothing can be made. -/
theorem blocked_caught (hparents : e.parts.dropLast.all isEncodable = true)
    (hclear : ¬ Clear entries e) : ∃ fs' r,
      Act.each (Step.run engine.os) (engine.entrySteps stage e) st.fs = (fs', .error r) ∧
        r.caught = true := by
  have hne := hshaped.nonempty e (hsplit ▸ List.mem_append_right _ List.mem_cons_self)
  have hencodable : (stage ++ e.parts).dropLast.all isEncodable = true := by
    rw [Restore.dropLast_append hne]
    exact all_isEncodable hstage hparents
  have hcall : (Step.mkdirParents (stage ++ e.parts).dropLast).run engine.os =
      (disk .none).mkdirParents (stage ++ e.parts).dropLast :=
    run_of_not_refused hos (by rw [Step.refused, if_pos hencodable])
  rcases hrun : (disk .none).mkdirParents (stage ++ e.parts).dropLast st.fs with ⟨fs', r | u⟩
  · refine ⟨fs', r, ?_, caught_of_isOs (Os.mkdirParents_only _ _ _ hrun)⟩
    rw [← hcall] at hrun
    exact bind_of_error hrun
  · exact absurd ((mkdirParents_iff hclosed).1 hrun)
      (blocked hshaped hsplit hdone hclosed hstaged hclear)

/-- An entry that cannot be written out: Python refuses something of it, or the loop expects what is
raised. -/
theorem entry_stops (h : ¬ engine.Placeable entries e) : ∃ fs' r,
    Act.each (Step.run engine.os) (engine.entrySteps stage e) st.fs = (fs', .error r) ∧
      (r.caught = false ↔ engine.Refused entries e) := by
  have he : e ∈ entries := hsplit ▸ List.mem_append_right _ List.mem_cons_self
  have hne := hshaped.nonempty e he
  by_cases hparents : e.parts.dropLast.all isEncodable = true
  · by_cases hclear : Clear entries e
    · by_cases hearly : e.parts.all isEncodable = false ∨ ¬ Linkable e
      · obtain ⟨fs₁, hmade⟩ :=
          parents_run hos hstage hshaped hsplit hdone hclosed hstaged hclear hparents
        obtain ⟨s, steps, hsteps, hrefused⟩ := second_refused (hshaped.targets e he) hearly
        refine ⟨fs₁, .value, ?_,
          iff_of_true rfl (Or.inr ⟨hclear, hearly.imp_right fun hlink => ?_⟩)⟩
        · rw [hsteps]
          exact (bind_of_ok hmade).trans (bind_of_error (run_of_refused hrefused))
        · have htype : e.type = .symlink := by
            by_contra htype
            exact hlink fun hsymlink => absurd hsymlink htype
          refine ⟨by simp [htype], ?_, fun hboth => hlink hboth.1⟩
          simpa [nodeOf, htype] using hshaped.targets e he htype
      · push Not at hearly
        obtain ⟨hencodable, hlink⟩ := hearly
        rw [ne_eq, Bool.not_eq_false] at hencodable
        by_cases hwhole : (engine.nodeOf e).isSome
        · -- all is in order but a time
          have htimed : ¬ (e.type ≠ .directory → isTime e.mtimeNs = true) :=
            fun htimed => h ⟨hclear, hencodable, hwhole, hlink, htimed⟩
          push Not at htimed
          obtain ⟨htype, htime⟩ := htimed
          rw [ne_eq, Bool.not_eq_true] at htime
          obtain ⟨fs', hrun⟩ :=
            untimed_overflow hos hstage hshaped hsplit hdone hclosed hstaged hclear
            hencodable hwhole htype hlink htime
          refine ⟨fs', .overflow, hrun,
            iff_of_true rfl (Or.inr ⟨hclear, Or.inr ⟨htype, hwhole, ?_⟩⟩)⟩
          simp [htime]
        · obtain ⟨fs', r, hrun, hcaught⟩ : ∃ fs' r, Act.each (Step.run engine.os)
              (engine.entrySteps stage e) st.fs = (fs', .error r) ∧ r.caught = true :=
            damaged_caught hstage hshaped hsplit hencodable hparents hwhole
          refine ⟨fs', r, hrun, iff_of_false (by simp [hcaught]) ?_⟩
          rintro (hparents' | ⟨-, hparts | ⟨-, hwhole', -⟩⟩)
          · simp [hparents] at hparents'
          · simp [hencodable] at hparts
          · exact hwhole hwhole'
    · obtain ⟨fs', r, hrun, hcaught⟩ :=
        blocked_caught hos hstage hshaped hsplit hdone hclosed hstaged hparents hclear
      refine ⟨fs', r, hrun, iff_of_false (by simp [hcaught]) ?_⟩
      rintro (hparents' | ⟨hclear', -⟩)
      · simp [hparents] at hparents'
      · exact hclear hclear'
  · rw [Bool.not_eq_true] at hparents
    refine ⟨st.fs, .value, ?_, iff_of_true rfl (Or.inl hparents)⟩
    refine bind_of_error (run_of_refused ?_)
    show (Step.mkdirParents (stage ++ e.parts).dropLast).refused = some .value
    rw [Step.refused, Restore.dropLast_append hne, List.all_append, hparents, Bool.and_false]
    rfl

end Entry

/-! ## The times of the directories -/

omit hstage in
theorem retime_run {d : Path × ManifestEntry} (hencodable : d.1.all isEncodable = true)
    (htime : isTime d.2.mtimeNs = true) (h : Restore.retime fs d = some fs') :
    Act.each (Step.run engine.os) [.chmod d.1 d.2.mode, .utime d.1 d.2.mtimeNs true] fs =
      (fs', .ok ()) := by
  obtain ⟨fs₁, hchmod, hutime⟩ := Option.bind_eq_some_iff.1 h
  have hmode : (Step.chmod d.1 d.2.mode).run engine.os fs = (fs₁, .ok ()) :=
    run_of_change hos (c := .chmod d.1 d.2.mode)
      (by rw [Step.refused, if_pos hencodable]) rfl hchmod
  have htimed : (Step.utime d.1 d.2.mtimeNs true).run engine.os fs₁ = (fs', .ok ()) :=
    run_of_change hos (c := .utime d.1 d.2.mtimeNs true)
      (by simp [Step.refused, hencodable, htime]) rfl hutime
  exact (bind_of_ok hmode).trans (bind_of_ok htimed)

/-- The last loop, over directories whose times fit. -/
theorem directories_run {ds : List ManifestEntry}
    (hds : ∀ d ∈ ds, d.parts.all isEncodable = true ∧ isTime d.mtimeNs = true)
    (h : (ds.map fun d => (stage ++ d.parts, d)).foldlM Restore.retime fs = some fs') :
    Act.each (Step.run engine.os) (ds.flatMap (directorySteps stage)) fs = (fs', .ok ()) := by
  induction ds generalizing fs with
  | nil =>
    obtain rfl := Option.some.inj h
    rfl
  | cons d ds ih =>
    rw [List.map_cons, List.foldlM_cons] at h
    obtain ⟨fs₁, hretime, hrest⟩ := Option.bind_eq_some_iff.1 h
    obtain ⟨hencodable, htime⟩ := hds d List.mem_cons_self
    have hrun := retime_run hos (all_isEncodable hstage hencodable) htime hretime
    rw [List.flatMap_cons, each_append]
    exact (bind_of_ok hrun).trans (ih (fun d hd => hds d (List.mem_cons_of_mem _ hd)) hrest)

/-- The last loop comes upon the first time beyond `time_t`. -/
theorem directories_overflow {ds : List ManifestEntry}
    (hds : ∀ d ∈ ds, d.parts.all isEncodable = true ∧ fs.isDirectory (stage ++ d.parts) = true)
    (huntimed : ∃ d ∈ ds, isTime d.mtimeNs = false) : ∃ fs',
      Act.each (Step.run engine.os) (ds.flatMap (directorySteps stage)) fs =
        (fs', .error .overflow) := by
  induction ds generalizing fs with
  | nil =>
    obtain ⟨d, hd, -⟩ := huntimed
    cases hd
  | cons d ds ih =>
    obtain ⟨hencodable, hdir⟩ := hds d List.mem_cons_self
    have hdestination := all_isEncodable hstage hencodable
    rw [List.flatMap_cons]
    cases htime : isTime d.mtimeNs with
    | false =>
      obtain ⟨fs₁, hretime, -⟩ := Restore.retime_eq (d := (stage ++ d.parts, d)) hdir
      obtain ⟨fs₂, hchmod, -⟩ := Option.bind_eq_some_iff.1 hretime
      have hmode : (Step.chmod (stage ++ d.parts) d.mode).run engine.os fs = (fs₂, .ok ()) :=
        run_of_change hos (c := .chmod (stage ++ d.parts) d.mode)
          (by rw [Step.refused, if_pos hdestination]) rfl hchmod
      refine ⟨fs₂, (bind_of_ok hmode).trans (bind_of_error (run_of_refused ?_))⟩
      show (Step.utime (stage ++ d.parts) d.mtimeNs true).refused = some .overflow
      simp [Step.refused, hdestination, htime]
    | true =>
      obtain ⟨fs₁, hretime, hnode, hsame⟩ := Restore.retime_eq (d := (stage ++ d.parts, d)) hdir
      have hrun := retime_run hos hdestination htime hretime
      obtain ⟨d', hd', htime'⟩ := huntimed
      have hmem : d' ∈ ds := by
        rcases List.mem_cons.1 hd' with rfl | hmem
        · exact absurd (htime.symm.trans htime') nofun
        · exact hmem
      have hds₁ : ∀ d ∈ ds, d.parts.all isEncodable = true ∧
          fs₁.isDirectory (stage ++ d.parts) = true := by
        intro d₁ hd₁
        obtain ⟨hencodable₁, hdir₁⟩ := hds d₁ (List.mem_cons_of_mem _ hd₁)
        refine ⟨hencodable₁, ?_⟩
        by_cases heq : stage ++ d₁.parts = stage ++ d.parts
        · rw [heq]
          exact isDirectory_iff.2 ⟨_, _, hnode⟩
        · rw [isDirectory_congr (hsame _ heq), hdir₁]
      obtain ⟨fs', hrest⟩ := ih hds₁ ⟨d', hmem, htime'⟩
      refine ⟨fs', ?_⟩
      rw [each_append]
      exact (bind_of_ok hrun).trans hrest

/-! ## The whole manifest -/

omit hstage in
theorem materialize_keeps (hshaped : Shaped entries) :
    Act.Keeps (Within stage fs₀) (engine.materialize stage entries) := by
  refine Act.Keeps.each fun s hs => run_keeps hos ?_
  rcases List.mem_append.1 hs with hs | hs
  · obtain ⟨e, he, hs⟩ := List.mem_flatMap.1 hs
    exact below_entrySteps (hshaped.nonempty e he) hs
  · obtain ⟨e, he, hs⟩ := List.mem_flatMap.1 hs
    have hne := hshaped.nonempty e (List.mem_of_mem_filter (List.mem_reverse.1 he))
    have hd : stage <+: stage ++ e.parts ∧ stage ++ e.parts ≠ stage :=
      ⟨List.prefix_append _ _, by simpa using hne⟩
    rcases List.mem_cons.1 hs with rfl | hs
    · exact hd
    · rw [List.mem_singleton.1 hs]
      exact hd

omit hos hstage in
theorem not_placeable_of_refused (h : engine.Refused entries e) : ¬ engine.Placeable entries e := by
  intro hplaceable
  rcases h with hparents | ⟨-, hparts | ⟨htype, -, hnot⟩⟩
  · have hall : e.parts.dropLast.all isEncodable = true := List.all_eq_true.2 fun name hname =>
      List.all_eq_true.1 hplaceable.encodable name (List.mem_of_mem_dropLast hname)
    rw [hall] at hparents
    cases hparents
  · rw [hplaceable.encodable] at hparts
    cases hparts
  · exact hnot ⟨hplaceable.linkable, hplaceable.timed htype⟩

section Whole

variable (hin : Within stage fs fs) (hempty : ∀ r, r ≠ [] → fs.node (stage ++ r) = none)
  (hshaped : Shaped entries)

include hin hempty hshaped

/-- Entries that can be written out are. -/
theorem materialize_fits (hfits : engine.Fits entries) : ∃ fs',
    engine.materialize stage entries fs = (fs', .ok ()) ∧
      Materialized stage fs (entries.map engine.located) fs' := by
  have hplaceable : ∀ e ∈ entries, engine.Placeable entries e := fun e he => (hfits e he).1
  have hnonempty : ∀ x ∈ entries.map engine.located, x.1 ≠ [] := by
    intro x hx
    obtain ⟨e, he, rfl⟩ := List.mem_map.1 hx
    exact hshaped.nonempty e he
  have hdescribes : List.Forall₂ (Restore.Describes engine.cipher.sha engine.fetched)
      (entries.map engine.located) entries := by
    rw [List.forall₂_map_left_iff, List.forall₂_same]
    exact fun e he => describes_located (hplaceable e he).whole
  obtain ⟨fs', hrun, hmaterialized⟩ := Restore.materialize_staged hin.base hempty hnonempty
    (hshaped.order_located (List.Sublist.refl _) hplaceable) hdescribes
  obtain ⟨st, hentries, hretime⟩ := Option.bind_eq_some_iff.1 hrun
  have hpart : ∀ e ∈ entries, engine.Placeable entries e ∧ e.parts ≠ [] :=
    fun e he => ⟨hplaceable e he, hshaped.nonempty e he⟩
  obtain ⟨hrun₁, -⟩ := entries_run hos hstage hin hpart hentries
  rw [Restore.foldlM_directories hentries, List.nil_append, ← List.map_reverse] at hretime
  refine ⟨fs', ?_, hmaterialized⟩
  unfold materialize materializeSteps
  rw [each_append]
  refine (bind_of_ok hrun₁).trans (directories_run hos hstage (fun d hd => ?_) hretime)
  have hd' := List.mem_of_mem_filter (List.mem_reverse.1 hd)
  exact ⟨(hplaceable d hd').encodable, (hfits d hd').2⟩

/-- The writing out stops at the first entry that cannot be written out. -/
theorem materialize_stops {later : List ManifestEntry} (hsplit : entries = done ++ e :: later)
    (hdone : ∀ d ∈ done, engine.Placeable entries d) (h : ¬ engine.Placeable entries e) : ∃ fs' r,
    engine.materialize stage entries fs = (fs', .error r) ∧
      (r.caught = false ↔ engine.Refused entries e) := by
  have hsub : done.Sublist entries := hsplit ▸ List.sublist_append_left _ _
  obtain ⟨st, hstaged, hrun, hin₁⟩ :=
    staged_done hos hstage hin hempty hshaped hsub hdone (Restore.usedChunks e)
  rw [← List.append_nil (Restore.usedChunks e)] at hstaged
  obtain ⟨fs', r, hstops, hcaught⟩ :=
    entry_stops hos hstage hshaped hsplit hdone hin₁.closed hstaged h
  refine ⟨fs', r, ?_, hcaught⟩
  have hsteps : engine.materializeSteps stage entries = done.flatMap (engine.entrySteps stage) ++
      (engine.entrySteps stage e ++ (later.flatMap (engine.entrySteps stage) ++
        (entries.filter (·.type = .directory)).reverse.flatMap (directorySteps stage))) := by
    conv_lhs => rw [materializeSteps, hsplit]
    simp [hsplit]
  unfold materialize
  rw [hsteps, each_append, bind_of_ok hrun, each_append]
  exact bind_of_error hstops

/-- Python refuses something before a damage shows: the loop does not expect what is raised. -/
theorem materialize_stumbles (h : engine.StumblesWriting entries) : ∃ fs' r,
    engine.materialize stage entries fs = (fs', .error r) ∧ r.caught = false := by
  rcases h with ⟨done, e, later, hsplit, hdone, hrefused⟩ | ⟨hplaceable, huntimed⟩
  · obtain ⟨fs', r, hrun, hcaught⟩ := materialize_stops hos hstage hin hempty hshaped hsplit hdone
      (not_placeable_of_refused hrefused)
    exact ⟨fs', r, hrun, hcaught.2 hrefused⟩
  · obtain ⟨st, hstaged, hrun, -⟩ :=
      staged_done hos hstage hin hempty hshaped (List.Sublist.refl _) hplaceable []
    obtain ⟨fs', hoverflow⟩ : ∃ fs', Act.each (Step.run engine.os)
        ((entries.filter (·.type = .directory)).reverse.flatMap (directorySteps stage)) st.fs =
          (fs', .error .overflow) := directories_overflow hos hstage
      (fun d hd => by
        obtain ⟨hd, htype⟩ := List.mem_filter.1 (List.mem_reverse.1 hd)
        refine ⟨(hplaceable d hd).encodable, ?_⟩
        refine hstaged.above _ (List.mem_map_of_mem hd) _ List.prefix_rfl (Or.inr ?_)
        rw [isDirectory_located (hplaceable d hd).whole]
        simpa using htype)
      (by
        obtain ⟨d, hd, htime⟩ := huntimed
        refine ⟨d, List.mem_reverse.2 (List.mem_filter.2 ⟨hd, ?_⟩), htime⟩
        by_contra htype
        rw [(hplaceable d hd).timed (by simpa using htype)] at htime
        cases htime)
    refine ⟨fs', .overflow, ?_, rfl⟩
    unfold materialize materializeSteps
    rw [each_append]
    exact (bind_of_ok hrun).trans hoverflow

/-- Otherwise the loop expects what is raised for a damaged entry. -/
theorem materialize_damaged (hfits : ¬ engine.Fits entries) (h : ¬ engine.StumblesWriting entries) :
    ∃ fs' r, engine.materialize stage entries fs = (fs', .error r) ∧ r.caught = true := by
  classical
  cases hfirst : entries.find? fun e => decide (¬ engine.Placeable entries e) with
  | none =>
    have hplaceable : ∀ e ∈ entries, engine.Placeable entries e := by simpa using hfirst
    refine absurd (Or.inr ⟨hplaceable, ?_⟩) h
    unfold Fits at hfits
    push Not at hfits
    obtain ⟨e, he, htime⟩ := hfits
    exact ⟨e, he, by simpa using htime (hplaceable e he)⟩
  | some e =>
    obtain ⟨hnot, done, later, hsplit, hdone⟩ := List.find?_eq_some_iff_append.1 hfirst
    have hdone' : ∀ d ∈ done, engine.Placeable entries d := fun d hd => by simpa using hdone d hd
    obtain ⟨fs', r, hrun, hcaught⟩ := materialize_stops hos hstage hin hempty hshaped hsplit hdone'
      (by simpa using hnot)
    refine ⟨fs', r, hrun, ?_⟩
    by_contra hr
    exact h (Or.inl ⟨done, e, later, hsplit, hdone', hcaught.1 (by simpa using hr)⟩)

end Whole

end Runs

end RestoreEngine

end KiroCrew
