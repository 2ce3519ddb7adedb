import KiroCrew.Times
import KiroCrew.Lib.Bytes
import KiroCrew.Lib.Double
import KiroCrew.Lib.JsonText
import KiroCrew.Lib.Machine
import KiroCrew.Lib.PosixPath
import KiroCrew.Lib.PyText

/-!
# The dirty journal

`DirtyJournal` keeps its events in memory and in a log: `mark` appends a line, `clear_through`
rewrites the file beside it and replaces it. A run is any order of marks, snapshots, clears and
loads, with kills inside an append or a rewrite. `keeps_of_careful` says when no mark is lost that
no cleared snapshot covers. An append can leave half a line, which no later load gets past, and a
load that finds the log empty numbers from 1 again, below snapshots that were taken before.
-/

namespace KiroCrew

open Json (Value)

structure JournalEvent where
  sequence : ℤ
  path : Str
  recordedAt : DateTime
deriving DecidableEq

structure JournalSnapshot where
  throughSequence : ℤ
  paths : Finset Str
  firstDirtyAt : Option DateTime

structure DirtyJournal where
  events : List JournalEvent
  nextSequence : ℤ

/-- `events.jsonl` and the file that `_rewrite` replaces it by, as bytes. -/
structure JournalFiles where
  log : Option (List ℕ) := none
  temporary : Option (List ℕ) := none

/-- `_serialize` -/
def JournalEvent.serialize (event : JournalEvent) : Str :=
  Json.dumps (Json.sortKeys
    (.obj [(Str.ofString "sequence", .int event.sequence), (Str.ofString "path", .str event.path),
    (Str.ofString "recordedAt", .str (event.recordedAt.iso.map Char.toNat))]))

/-- The bytes of its line, which is ASCII. -/
def JournalEvent.line (event : JournalEvent) : List ℕ := event.serialize ++ [10]

/-- `int(value)` -/
def intOf : Value → Option ℤ
  | .bool b => some (if b then 1 else 0)
  | .int z => some z
  | .float text => (Double.ofText text).toInt
  | .str text => PyText.readInt text
  | _ => none

namespace DirtyJournal

section Load

variable (p : PyText.Printing)

/-- The event of a line; `none` is whatever it raises. -/
def parseLine (line : Str) : Option JournalEvent :=
  match Json.loads line with
  | some (.obj value) => do
    let sequence ← intOf (← Value.get value (Str.ofString "sequence"))
    let path ← p.str (← Value.get value (Str.ofString "path"))
    let recordedAt ← p.str (← Value.get value (Str.ofString "recordedAt"))
    return ⟨sequence, path, ← DateTime.read (recordedAt.map Char.ofNat)⟩
  | _ => none

/-- `_load` -/
def load : Option (List ℕ) → Option (List JournalEvent)
  | none => some []
  | some data => (Bytes.decodeUtf8 false data).bind fun text =>
    (PyText.splitlines (PyText.newlines text)).mapM (parseLine p)

/-- `DirtyJournal(workspace)` -/
def init (files : JournalFiles) : Option DirtyJournal :=
  (load p files.log).map fun events =>
    ⟨events, events.getLast?.elim 1 fun last => last.sequence + 1⟩

end Load

/-- The event that `mark` makes of a path and a time, which `astimezone(UTC)` leaves the same
instant. -/
def mark (journal : DirtyJournal) (relativePath : Str) (recordedAt : DateTime) :
    Except String (DirtyJournal × JournalEvent) :=
  let path := PosixPath.parse relativePath
  if path.isAbsolute ∨ [46, 46] ∈ path.parts ∨ path = PosixPath.parse [46] then
    .error "Dirty path must be a safe relative workspace path."
  else
    let event : JournalEvent := ⟨journal.nextSequence, path.str, recordedAt⟩
    .ok (⟨journal.events ++ [event], journal.nextSequence + 1⟩, event)

def snapshot (journal : DirtyJournal) : JournalSnapshot where
  throughSequence := journal.events.getLast?.elim 0 JournalEvent.sequence
  paths := (journal.events.map JournalEvent.path).toFinset
  firstDirtyAt := journal.events.head?.map JournalEvent.recordedAt

def clearThrough (journal : DirtyJournal) (sequence : ℤ) : DirtyJournal :=
  { journal with events := journal.events.filter fun event => decide (sequence < event.sequence) }

end DirtyJournal

namespace JournalFiles

/-- `_append`, of which `bytes` bytes get into the file. -/
def append (files : JournalFiles) (event : JournalEvent) (bytes : ℕ) : JournalFiles :=
  { files with log := some (files.log.getD [] ++ event.line.take bytes) }

/-- `_rewrite` up to the `replace`, with `bytes` bytes written. -/
def stage (files : JournalFiles) (events : List JournalEvent) (bytes : ℕ) : JournalFiles :=
  { files with temporary := some ((events.flatMap JournalEvent.line).take bytes) }

/-- `_rewrite` -/
def rewrite (events : List JournalEvent) : JournalFiles where
  log := some (events.flatMap JournalEvent.line)

end JournalFiles

/-! ## Runs -/

/-- What `mark` is called with. -/
structure Marking where
  relativePath : Str
  text : relativePath.valid = true
  recordedAt : DateTime

/-- A call or a load. A clear names the snapshot by the number of those before it. -/
inductive JournalOp
  | mark (m : Marking)
  /-- killed when `bytes` bytes of the line are in the log -/
  | markKilled (m : Marking) (bytes : ℕ)
  | snapshot
  | clearThrough (i : ℕ)
  /-- killed before the `replace`, with `bytes` bytes in the temporary file -/
  | clearKilled (i bytes : ℕ)
  /-- killed after the `replace` -/
  | clearReplaced (i : ℕ)
  | reload

/-- A snapshot, how many events had been written when it was taken, and in which numbering. -/
structure Taken extends JournalSnapshot where
  written : ℕ
  numbering : ℕ

structure JournalRun where
  files : JournalFiles := {}
  /-- none when the process is dead -/
  journal : Option DirtyJournal := none
  /-- the events whose lines have been written, newline or not, since the workspace was made -/
  written : List JournalEvent := []
  snapshots : List Taken := []
  /-- how many of the written events a cleared snapshot covers -/
  cleared : ℕ := 0
  /-- how many loads have found no events -/
  numbering : ℕ := 0

namespace JournalRun

/-- The written events that no cleared snapshot covers. -/
def owed (s : JournalRun) : List JournalEvent := s.written.drop s.cleared

/-- What `mark` gives. -/
def marked (s : JournalRun) (m : Marking) : Option (DirtyJournal × JournalEvent) :=
  s.journal.bind fun journal => (journal.mark m.relativePath m.recordedAt).toOption

/-- What `clear_through` leaves in memory, and the snapshot. -/
def clearing (s : JournalRun) (i : ℕ) : Option (DirtyJournal × Taken) :=
  s.journal.bind fun journal => s.snapshots[i]?.map fun taken =>
    (journal.clearThrough taken.throughSequence, taken)

/-- One operation; `none` when there is no process or no such snapshot. -/
def step (p : PyText.Printing) (s : JournalRun) : JournalOp → Option JournalRun
  | .mark m => s.journal.map fun _ =>
      match s.marked m with
      | some (journal, event) =>
        { s with
          journal := some journal
          files := s.files.append event event.line.length
          written := s.written ++ [event] }
      | none => s
  | .markKilled m bytes => (s.marked m).map fun (_, event) =>
      { s with
        journal := none
        files := s.files.append event bytes
        written := if event.serialize.length ≤ bytes then s.written ++ [event] else s.written }
  | .snapshot => s.journal.map fun journal =>
      { s with snapshots := s.snapshots ++ [⟨journal.snapshot, s.written.length, s.numbering⟩] }
  | .clearThrough i => (s.clearing i).map fun (journal, taken) =>
      { s with
        journal := some journal
        files := .rewrite journal.events
        cleared := max s.cleared taken.written }
  | .clearKilled i bytes => (s.clearing i).map fun (journal, _) =>
      { s with journal := none, files := s.files.stage journal.events bytes }
  | .clearReplaced i => (s.clearing i).map fun (journal, taken) =>
      { s with
        journal := none
        files := .rewrite journal.events
        cleared := max s.cleared taken.written }
  | .reload => some <|
      match DirtyJournal.init p s.files with
      | some journal =>
        { s with journal := some journal, numbering := if journal.events = [] then s.numbering + 1
          else s.numbering }
      | none => { s with journal := none }

/-- Nothing is forgotten: the log loads, as the events that are owed, which are those in memory, in
order. -/
structure Keeps (p : PyText.Printing) (s : JournalRun) : Prop where
  loads : DirtyJournal.load p s.files.log = some s.owed
  memory : ∀ journal ∈ s.journal, journal.events = s.owed
  increasing : s.owed.Pairwise fun a b => a.sequence < b.sequence

/-- The log is empty or ends a line. -/
def EndsLine (s : JournalRun) : Prop := ∀ b ∈ (s.files.log.getD []).getLast?, b = 10

/-- The operation loses nothing: an append leaves the log with whole lines, of a path without
surrogate pairs, unless it is killed before the first byte; a cleared snapshot is of the present
numbering or below what is in the journal. -/
def Careful (s : JournalRun) : JournalOp → Prop
  | .mark m => ∀ x ∈ s.marked m, s.EndsLine ∧ x.2.path.join = x.2.path
  | .markKilled m bytes => bytes = 0 ∨ ∀ x ∈ s.marked m, s.EndsLine ∧ x.2.path.join = x.2.path ∧
      x.2.serialize.length ≤ bytes
  | .clearThrough i | .clearReplaced i => ∀ taken ∈ s.snapshots[i]?, taken.numbering = s.numbering ∨
      ∀ journal ∈ s.journal, ∀ event ∈ journal.events.head?, taken.throughSequence < event.sequence
  | .snapshot | .clearKilled _ _ | .reload => True

end JournalRun

/-! ## The log -/

/-- An event that is read back: its path is a text without surrogate pairs. -/
structure JournalEvent.Legible (event : JournalEvent) : Prop where
  text : event.path.valid = true
  joined : event.path.join = event.path

namespace JournalEvent

variable {event : JournalEvent}

theorem serialize_eq (event : JournalEvent) :
    event.serialize = Json.dumps (.obj [(Str.ofString "path", .str event.path),
    (Str.ofString "recordedAt", .str (event.recordedAt.iso.map Char.toNat)),
    (Str.ofString "sequence", .int event.sequence)]) := rfl

theorem textual (h : event.Legible) : (Value.obj [(Str.ofString "path", .str event.path),
    (Str.ofString "recordedAt", .str (event.recordedAt.iso.map Char.toNat)),
    (Str.ofString "sequence", .int event.sequence)]).textual = true := by
  have hdate := Str.valid_of_safe (Str.safe_map_toNat event.recordedAt.iso)
  have hkeys : Str.valid (Str.ofString "path") = true ∧
    Str.valid (Str.ofString "recordedAt") = true ∧
      Str.valid (Str.ofString "sequence") = true := by decide
  simp only [Value.textual, Json.textualFields, hkeys, h.text, hdate, Bool.and_self]

theorem printable (h : event.Legible) : ∀ c ∈ event.serialize, 32 ≤ c ∧ c ≤ 126 := by
  rw [serialize_eq]
  exact Json.dumps_printable _ (textual h)

theorem serialize_last (event : JournalEvent) : ∃ s, event.serialize = s ++ [125] := by
  rw [serialize_eq, Json.dumps]
  exact ⟨_, rfl⟩

theorem serialize_pos (event : JournalEvent) : 0 < event.serialize.length := by
  obtain ⟨s, hs⟩ := event.serialize_last
  rw [hs, List.length_append, List.length_singleton]
  exact Nat.succ_pos _

theorem parseLine_serialize (p : PyText.Printing) (h : event.Legible) :
    DirtyJournal.parseLine p event.serialize = some event := by
  have hdate : Str.join (event.recordedAt.iso.map Char.toNat) =
      event.recordedAt.iso.map Char.toNat :=
    Str.join_of_safe (Str.safe_map_toNat event.recordedAt.iso)
  have hread : DateTime.read ((event.recordedAt.iso.map Char.toNat).map Char.ofNat) =
      some event.recordedAt := by
    rw [List.map_map, show Char.ofNat ∘ Char.toNat = id from funext Char.ofNat_toNat, List.map_id]
    exact DateTime.read_iso event.recordedAt
  have hloads : Json.loads event.serialize = some (.obj [(Str.ofString "path", .str event.path),
      (Str.ofString "recordedAt", .str (event.recordedAt.iso.map Char.toNat)),
      (Str.ofString "sequence", .int event.sequence)]) := by
    rw [serialize_eq, Json.loads_dumps_join (textual h)]
    simp only [Value.join, Json.joinFields, h.joined, hdate]
    rfl
  have hsequence (path recordedAt : Value) :
    Value.get [(Str.ofString "path", path), (Str.ofString "recordedAt", recordedAt),
      (Str.ofString "sequence", .int event.sequence)] (Str.ofString "sequence") =
      some (.int event.sequence) := rfl
  have hpath (recordedAt sequence : Value) :
    Value.get [(Str.ofString "path", .str event.path), (Str.ofString "recordedAt", recordedAt),
      (Str.ofString "sequence", sequence)] (Str.ofString "path") = some (.str event.path) := rfl
  have htime (path sequence recordedAt : Value) :
    Value.get [(Str.ofString "path", path), (Str.ofString "recordedAt", recordedAt),
      (Str.ofString "sequence", sequence)] (Str.ofString "recordedAt") = some recordedAt := rfl
  simp only [DirtyJournal.parseLine, hloads, hsequence, hpath, htime, Option.bind_eq_bind,
    Option.bind_some, intOf,
    PyText.Printing.str, hread]
  rfl

end JournalEvent

/-- The log has the lines of the events; the last newline may be missing. -/
def Spells (data : List ℕ) (events : List JournalEvent) : Prop :=
  data = events.flatMap JournalEvent.line ∨ data ++ [10] = events.flatMap JournalEvent.line

namespace Spells

variable {p : PyText.Printing} {data : List ℕ} {events : List JournalEvent} {event : JournalEvent}

theorem unended (h : data ++ [10] = events.flatMap JournalEvent.line) :
    ∃ earlier last, events = earlier ++ [last] ∧ data = earlier.flatMap JournalEvent.line ++
    last.serialize := by
  rcases List.eq_nil_or_concat events with rfl | ⟨earlier, last, rfl⟩
  · cases data <;> cases h
  · refine ⟨earlier, last, List.concat_eq_append, ?_⟩
    rw [List.concat_eq_append, List.flatMap_append, List.flatMap_singleton, JournalEvent.line,
      ← List.append_assoc] at h
    exact List.append_cancel_right h

theorem parse_lines (h : ∀ event ∈ events, event.Legible) :
    (events.map JournalEvent.serialize).mapM (DirtyJournal.parseLine p) = some events := by
  induction events with
  | nil => rfl
  | cons event events ih =>
    rw [List.map_cons, List.mapM_cons, JournalEvent.parseLine_serialize p
      (h event List.mem_cons_self),
      ih fun e he => h e (List.mem_cons_of_mem event he)]
    rfl

theorem unbroken (h : event.Legible) : ∀ c ∈ event.serialize, PyText.isBreak c = false := by
  intro c hc
  obtain ⟨hlow, hhigh⟩ := JournalEvent.printable h c hc
  simp only [PyText.isBreak, Bool.or_eq_false_iff, decide_eq_false_iff_not, List.mem_cons,
    List.not_mem_nil, or_false]
  refine ⟨⟨by omega, by omega⟩, by omega⟩

theorem load_text (hascii : ∀ c ∈ data, c = 10 ∨ 32 ≤ c ∧ c ≤ 126) :
    DirtyJournal.load p (some data) = (PyText.splitlines data).mapM (DirtyJournal.parseLine p) := by
  have hdecode : Bytes.decodeUtf8 false data = some data := Bytes.decodeUtf8_ascii fun c hc => by
    have := hascii c hc
    omega
  have hnewlines : PyText.newlines data = data := PyText.newlines_of_not_mem fun h => by
    have := hascii 13 h
    omega
  rw [DirtyJournal.load, hdecode, Option.bind_some, hnewlines]

theorem ascii_lines (h : ∀ event ∈ events, event.Legible) : ∀ c ∈ events.flatMap JournalEvent.line,
    c = 10 ∨ 32 ≤ c ∧ c ≤ 126 := by
  intro c hc
  obtain ⟨event, hevent, hc⟩ := List.mem_flatMap.1 hc
  rw [JournalEvent.line, List.mem_append, List.mem_singleton] at hc
  rcases hc with hc | hc
  · exact .inr (JournalEvent.printable (h event hevent) c hc)
  · exact .inl hc

theorem flatMap_line (events : List JournalEvent) :
    events.flatMap JournalEvent.line = (events.map JournalEvent.serialize).flatMap (· ++ [10]) := by
  rw [List.flatMap_map]
  rfl

theorem load (h : Spells data events) (hlegible : ∀ event ∈ events, event.Legible) :
    DirtyJournal.load p (some data) = some events := by
  have hunbroken : ∀ line ∈ events.map JournalEvent.serialize, ∀ c ∈ line,
      PyText.isBreak c = false :=
    List.forall_mem_map.2 fun event hevent => unbroken (hlegible event hevent)
  rcases h with rfl | h
  · have hnil : ∀ c ∈ ([] : Str), PyText.isBreak c = false := nofun
    have hsplit := PyText.splitlines_lines hunbroken hnil
    rw [List.append_nil, if_pos rfl, List.append_nil] at hsplit
    rw [load_text (ascii_lines hlegible), flatMap_line, hsplit, parse_lines hlegible]
  · have hascii : ∀ c ∈ data, c = 10 ∨ 32 ≤ c ∧ c ≤ 126 := fun c hc =>
      ascii_lines hlegible c (h ▸ List.mem_append_left [10] hc)
    obtain ⟨earlier, last, rfl, rfl⟩ := unended h
    have hlast := hlegible last (List.mem_append_right earlier (List.mem_singleton_self last))
    have hne : last.serialize ≠ [] := List.ne_nil_of_length_pos last.serialize_pos
    have hsplit := PyText.splitlines_lines (fun line hline => hunbroken line (by
      rw [List.map_append]
      exact List.mem_append_left _ hline)) (unbroken hlast)
    rw [if_neg hne] at hsplit
    rw [load_text hascii, flatMap_line, hsplit, ← parse_lines (p := p) hlegible, List.map_append]
    rfl

end Spells

/-! ## The invariant -/

namespace JournalRun

/-- What is known of a snapshot of the present numbering. -/
structure Present (s : JournalRun) (taken : Taken) : Prop where
  later : ∀ event ∈ s.written.drop taken.written, taken.throughSequence < event.sequence
  earlier : ∀ event ∈ (s.written.take taken.written).drop s.cleared, event.sequence ≤
    taken.throughSequence
  next : ∀ journal ∈ s.journal, taken.throughSequence < journal.nextSequence
  last : ∀ event ∈ s.owed.getLast?, taken.throughSequence ≤ event.sequence

/-- Of an older snapshot, all that it covers has been cleared. -/
structure Placed (s : JournalRun) (taken : Taken) : Prop where
  written : taken.written ≤ s.written.length
  numbering : taken.numbering ≤ s.numbering
  present : taken.numbering = s.numbering → s.Present taken
  old : taken.numbering ≠ s.numbering → taken.written ≤ s.cleared

/-- The process has the events that are owed, and numbers above them. -/
structure Serves (s : JournalRun) (journal : DirtyJournal) : Prop where
  events : journal.events = s.owed
  positive : 0 < journal.nextSequence
  below : ∀ event ∈ s.owed, event.sequence < journal.nextSequence

structure Inv (s : JournalRun) : Prop where
  cleared : s.cleared ≤ s.written.length
  legible : ∀ event ∈ s.owed, event.Legible
  spelled : Spells (s.files.log.getD []) s.owed
  increasing : s.owed.Pairwise fun a b => a.sequence < b.sequence
  positive : ∀ event ∈ s.owed, 0 < event.sequence
  serves : ∀ journal ∈ s.journal, s.Serves journal
  placed : ∀ taken ∈ s.snapshots, s.Placed taken

theorem load_getD (p : PyText.Printing) (log : Option (List ℕ)) : DirtyJournal.load p log =
    DirtyJournal.load p (some (log.getD [])) := by
  cases log with
  | none => rfl
  | some data => rfl

variable {p : PyText.Printing} {s : JournalRun}

theorem Inv.load (h : s.Inv) : DirtyJournal.load p s.files.log = some s.owed := by
  rw [load_getD]
  exact h.spelled.load h.legible

theorem Inv.keeps (h : s.Inv) : s.Keeps p where
  loads := h.load
  memory journal hjournal := (h.serves journal hjournal).events
  increasing := h.increasing

theorem inv_start : ({} : JournalRun).Inv where
  cleared := le_rfl
  legible := nofun
  spelled := .inl rfl
  increasing := .nil
  positive := nofun
  serves := nofun
  placed := nofun

/-! ### Marks -/

theorem marked_eq_some {m : Marking} {x : DirtyJournal × JournalEvent} (h : s.marked m = some x) :
    ∃ journal, s.journal = some journal ∧ x.2.sequence = journal.nextSequence ∧
    x.2.path.valid = true ∧
      x.1 = ⟨journal.events ++ [x.2], journal.nextSequence + 1⟩ := by
  obtain ⟨journal, hjournal, hmark⟩ := Option.bind_eq_some_iff.1 h
  refine ⟨journal, hjournal, ?_⟩
  unfold DirtyJournal.mark at hmark
  dsimp only at hmark
  split_ifs at hmark with hunsafe
  · cases hmark
  · cases hmark
    have hvalid : ∀ c ∈ m.relativePath, c < 0x110000 := fun c hc =>
      of_decide_eq_true (List.all_eq_true.1 m.text c hc)
    refine ⟨rfl, List.all_eq_true.2 fun c hc => decide_eq_true ?_, rfl⟩
    rcases PosixPath.mem_str_parse hc with rfl | rfl | hc
    · decide
    · decide
    · exact hvalid c hc

theorem spells_of_endsLine (h : s.Inv) (hends : s.EndsLine) :
    s.files.log.getD [] = s.owed.flatMap JournalEvent.line := by
  rcases h.spelled with hlog | hlog
  · exact hlog
  · obtain ⟨earlier, last, -, hdata⟩ := Spells.unended hlog
    obtain ⟨text, htext⟩ := last.serialize_last
    have hlast := hends 125 (by rw [hdata, htext, ← List.append_assoc, List.getLast?_concat]; rfl)
    cases hlast

/-- An event gets into the log. -/
theorem Inv.write (h : s.Inv) {m : Marking} {x : DirtyJournal × JournalEvent}
    (hx : s.marked m = some x)
    (hjoin : x.2.path.join = x.2.path) {journal : Option DirtyJournal}
    (hjournal : ∀ j ∈ journal, j = x.1) {files : JournalFiles}
    (hfiles : Spells (files.log.getD []) (s.owed ++ [x.2])) :
    Inv { s with journal := journal, files := files, written := s.written ++ [x.2] } := by
  obtain ⟨before, hbefore, hsequence, hvalid, hafter⟩ := marked_eq_some hx
  have hserves := h.serves before hbefore
  have howed : (s.written ++ [x.2]).drop s.cleared = s.owed ++ [x.2] :=
    List.drop_append_of_le_length h.cleared
  refine ⟨?_, ?_, ?_, ?_, ?_, ?_, ?_⟩
  · rw [List.length_append]
    exact h.cleared.trans (Nat.le_add_right _ _)
  · rw [owed, howed, List.forall_mem_append, List.forall_mem_singleton]
    exact ⟨h.legible, hvalid, hjoin⟩
  · rw [owed, howed]
    exact hfiles
  · rw [owed, howed, List.pairwise_append]
    refine ⟨h.increasing, List.pairwise_singleton _ _, fun a ha b hb => ?_⟩
    rw [List.mem_singleton.1 hb, hsequence]
    exact hserves.below a ha
  · rw [owed, howed, List.forall_mem_append, List.forall_mem_singleton, hsequence]
    exact ⟨h.positive, hserves.positive⟩
  · intro j hj
    rw [hjournal j hj, hafter]
    refine ⟨?_, ?_, ?_⟩
    · rw [owed, howed, hserves.events]
    · exact Int.lt_add_one_of_le hserves.positive.le
    · rw [owed, howed, List.forall_mem_append, List.forall_mem_singleton, hsequence]
      exact ⟨fun event hevent => Int.lt_add_one_of_le (hserves.below event hevent).le,
        Int.lt_succ _⟩
  · intro taken htaken
    have hplaced := h.placed taken htaken
    refine ⟨?_, hplaced.numbering, fun hnumbering => ?_, hplaced.old⟩
    · rw [List.length_append]
      exact hplaced.written.trans (Nat.le_add_right _ _)
    · have hpresent := hplaced.present hnumbering
      have hnext := hpresent.next before hbefore
      refine ⟨?_, ?_, ?_, ?_⟩
      · rw [List.drop_append_of_le_length hplaced.written, List.forall_mem_append,
          List.forall_mem_singleton, hsequence]
        exact ⟨hpresent.later, hnext⟩
      · rw [List.take_append_of_le_length hplaced.written]
        exact hpresent.earlier
      · intro j hj
        rw [hjournal j hj, hafter]
        exact Int.lt_add_one_of_le hnext.le
      · rw [owed, howed, List.getLast?_concat]
        rintro event ⟨rfl⟩
        rw [hsequence]
        exact hnext.le

/-- The process dies, and at most the temporary file changes. -/
theorem Inv.die (h : s.Inv) {files : JournalFiles}
    (hfiles : files.log.getD [] = s.files.log.getD []) :
    Inv { s with journal := none, files := files } where
  cleared := h.cleared
  legible := h.legible
  spelled := by
    rw [hfiles]
    exact h.spelled
  increasing := h.increasing
  positive := h.positive
  serves := nofun
  placed taken htaken :=
    { h.placed taken htaken with
      present := fun hnumbering =>
        { (h.placed taken htaken).present hnumbering with next := nofun } }

/-! ### Snapshots and clears -/

theorem le_getLast {events : List JournalEvent}
    (h : events.Pairwise fun a b => a.sequence < b.sequence) {last : JournalEvent}
    (hlast : events.getLast? = some last) : ∀ event ∈ events, event.sequence ≤ last.sequence := by
  have hle : events.Pairwise fun a b => a.sequence ≤ b.sequence := h.imp le_of_lt
  intro event hevent
  rw [List.getLast?_eq_some_getLast (List.ne_nil_of_mem hevent), Option.some.injEq] at hlast
  rw [← hlast]
  exact hle.rel_getLast_of_rel_getLast_getLast hevent le_rfl

theorem Inv.snapshot (h : s.Inv) {journal : DirtyJournal} (hjournal : s.journal = some journal) :
    Inv { s with
        snapshots := s.snapshots ++ [⟨journal.snapshot, s.written.length, s.numbering⟩] } where
  cleared := h.cleared
  legible := h.legible
  spelled := h.spelled
  increasing := h.increasing
  positive := h.positive
  serves j hj := ⟨(h.serves j hj).events, (h.serves j hj).positive, (h.serves j hj).below⟩
  placed := by
    have hserves := h.serves journal hjournal
    have hthrough : journal.snapshot.throughSequence =
        s.owed.getLast?.elim 0 JournalEvent.sequence := by
      rw [DirtyJournal.snapshot, hserves.events]
    rw [List.forall_mem_append, List.forall_mem_singleton]
    refine ⟨fun taken htaken => ?_, le_rfl, le_rfl, fun _ => ?_, fun hne => absurd rfl hne⟩
    · have hplaced := h.placed taken htaken
      exact ⟨hplaced.written, hplaced.numbering, fun hn =>
        ⟨(hplaced.present hn).later, (hplaced.present hn).earlier,
        (hplaced.present hn).next, (hplaced.present hn).last⟩, hplaced.old⟩
    · rcases hlast : s.owed.getLast? with _ | last
      · have hnil : s.owed = [] := List.getLast?_eq_none_iff.1 hlast
        rw [hlast] at hthrough
        refine ⟨?_, ?_, ?_, ?_⟩
        · rw [List.drop_length]
          nofun
        · show ∀ event ∈ (s.written.take s.written.length).drop s.cleared, _
          rw [List.take_length, ← owed, hnil]
          nofun
        · rintro j hj
          rw [hthrough]
          exact (h.serves j hj).positive
        · show ∀ event ∈ s.owed.getLast?, _
          rw [hlast]
          nofun
      · have hmem : last ∈ s.owed := List.mem_of_getLast? hlast
        rw [hlast] at hthrough
        refine ⟨?_, ?_, ?_, ?_⟩
        · rw [List.drop_length]
          nofun
        · show ∀ event ∈ (s.written.take s.written.length).drop s.cleared, _
          rw [List.take_length, ← owed, hthrough]
          exact le_getLast h.increasing hlast
        · rintro j hj
          rw [hthrough]
          exact (h.serves j hj).below last hmem
        · show ∀ event ∈ s.owed.getLast?, _
          rw [hlast, hthrough]
          rintro event ⟨rfl⟩
          exact le_rfl

/-- A clear takes the events that its snapshot covers, and no other. -/
theorem Inv.filter_owed (h : s.Inv) {taken : Taken} (htaken : taken ∈ s.snapshots)
    (hcareful : taken.numbering = s.numbering ∨ ∀ event ∈ s.owed.head?, taken.throughSequence <
    event.sequence) :
    (s.owed.filter fun event => decide (taken.throughSequence < event.sequence)) = s.written.drop
        (max s.cleared taken.written) := by
  have hplaced := h.placed taken htaken
  by_cases hnumbering : taken.numbering = s.numbering
  · have hpresent := hplaced.present hnumbering
    rcases le_total taken.written s.cleared with hle | hle
    · rw [max_eq_left hle, ← owed, List.filter_eq_self]
      intro event hevent
      refine decide_eq_true (hpresent.later event ?_)
      rw [owed, ← Nat.add_sub_cancel' hle, ← List.drop_drop] at hevent
      exact List.mem_of_mem_drop hevent
    · have hsplit : s.owed = (s.written.take taken.written).drop s.cleared ++
          s.written.drop taken.written := by
        have hlength : s.cleared ≤ (s.written.take taken.written).length := by
          rw [List.length_take]
          exact le_min hle h.cleared
        rw [← List.drop_append_of_le_length hlength, List.take_append_drop, owed]
      have hearlier : ((s.written.take taken.written).drop s.cleared).filter
          (fun event => decide (taken.throughSequence < event.sequence)) = [] := by
        rw [List.filter_eq_nil_iff]
        intro event hevent
        rw [decide_eq_true_eq, not_lt]
        exact hpresent.earlier event hevent
      have hlater : (s.written.drop taken.written).filter
        (fun event => decide (taken.throughSequence < event.sequence)) =
          s.written.drop taken.written := by
        rw [List.filter_eq_self]
        exact fun event hevent => decide_eq_true (hpresent.later event hevent)
      rw [max_eq_right hle, hsplit, List.filter_append, hearlier, hlater, List.nil_append]
  · have hhead := hcareful.resolve_left hnumbering
    rw [max_eq_left (hplaced.old hnumbering), ← owed, List.filter_eq_self]
    intro event hevent
    refine decide_eq_true ?_
    have hincreasing := h.increasing
    cases howed : s.owed with
    | nil =>
      rw [howed] at hevent
      cases hevent
    | cons first rest =>
      rw [howed] at hevent hhead hincreasing
      have hfirst := hhead first rfl
      rcases List.mem_cons.1 hevent with rfl | hevent
      · exact hfirst
      · exact hfirst.trans ((List.pairwise_cons.1 hincreasing).1 event hevent)

theorem clearing_eq_some {i : ℕ} {x : DirtyJournal × Taken} (h : s.clearing i = some x) :
    ∃ journal, s.journal = some journal ∧ s.snapshots[i]? = some x.2 ∧
    x.1 = journal.clearThrough x.2.throughSequence := by
  obtain ⟨journal, hjournal, hclear⟩ := Option.bind_eq_some_iff.1 h
  obtain ⟨taken, htaken, rfl⟩ := Option.map_eq_some_iff.1 hclear
  exact ⟨journal, hjournal, htaken, rfl⟩

/-- A clear whose `replace` is done. -/
theorem Inv.clear (h : s.Inv) {i : ℕ} {x : DirtyJournal × Taken} (hx : s.clearing i = some x)
    (hcareful : s.Careful (.clearThrough i)) {journal : Option DirtyJournal}
    (hjournal : ∀ j ∈ journal, j = x.1) :
    Inv { s with
          journal := journal
          files := .rewrite x.1.events
          cleared := max s.cleared x.2.written } := by
  obtain ⟨before, hbefore, htaken, hafter⟩ := clearing_eq_some hx
  have hserves := h.serves before hbefore
  have hmem := List.mem_of_getElem? htaken
  have hevents : x.1.events = s.written.drop (max s.cleared x.2.written) := by
    rw [hafter, DirtyJournal.clearThrough, hserves.events]
    refine h.filter_owed hmem ((hcareful x.2 htaken).imp_right fun hhead => ?_)
    rw [← hserves.events]
    exact hhead before hbefore
  have hsub : s.written.drop (max s.cleared x.2.written) <:+ s.owed := by
    rw [owed, ← Nat.add_sub_cancel' (le_max_left s.cleared x.2.written), ← List.drop_drop]
    exact List.drop_suffix _ _
  refine ⟨max_le h.cleared (h.placed x.2 hmem).written, fun event hevent =>
    h.legible event (hsub.mem hevent), ?_,
    h.increasing.sublist hsub.sublist, fun event hevent =>
    h.positive event (hsub.mem hevent), ?_, ?_⟩
  · rw [hevents]
    exact .inl rfl
  · intro j hj
    rw [hjournal j hj]
    refine ⟨hevents, ?_, fun event hevent => ?_⟩
    · rw [hafter]
      exact hserves.positive
    · rw [hafter]
      exact hserves.below event (hsub.mem hevent)
  · intro taken htaken
    have hplaced := h.placed taken htaken
    refine ⟨hplaced.written, hplaced.numbering, fun hnumbering => ?_, fun hne =>
      (hplaced.old hne).trans (le_max_left _ _)⟩
    have hpresent := hplaced.present hnumbering
    refine ⟨hpresent.later, fun event hevent => hpresent.earlier event ?_, fun j hj =>
      ?_, fun event hevent => hpresent.last event ?_⟩
    · rw [← Nat.add_sub_cancel' (le_max_left s.cleared x.2.written), ← List.drop_drop] at hevent
      exact List.mem_of_mem_drop hevent
    · rw [hjournal j hj, hafter]
      exact hpresent.next before hbefore
    · obtain ⟨earlier, hearlier⟩ := hsub
      rw [← hearlier]
      exact List.mem_getLast?_append_of_mem_getLast? hevent

/-! ### Loads -/

theorem Inv.reload (h : s.Inv) : Inv { s with
    journal := some ⟨s.owed, s.owed.getLast?.elim 1 fun last => last.sequence + 1⟩
    numbering := if s.owed = [] then s.numbering + 1 else s.numbering } where
  cleared := h.cleared
  legible := h.legible
  spelled := h.spelled
  increasing := h.increasing
  positive := h.positive
  serves := by
    rintro j ⟨rfl⟩
    rcases hlast : s.owed.getLast? with _ | last
    · rw [List.getLast?_eq_none_iff] at hlast
      refine ⟨rfl, Int.one_pos, ?_⟩
      show ∀ event ∈ s.owed, _
      rw [hlast]
      nofun
    · have hle := le_getLast h.increasing hlast
      exact ⟨rfl, Int.lt_add_one_of_le (h.positive last (List.mem_of_getLast? hlast)).le,
        fun event hevent => Int.lt_add_one_of_le (hle event hevent)⟩
  placed taken htaken := by
    have hplaced := h.placed taken htaken
    split_ifs with hnil
    · have hnumbering := hplaced.numbering
      have hall : taken.written ≤ s.cleared := hplaced.written.trans (List.drop_eq_nil_iff.1 hnil)
      exact ⟨hplaced.written, by dsimp only; omega, fun heq => by dsimp only at heq; omega, fun _ =>
        hall⟩
    · refine ⟨hplaced.written, hplaced.numbering, fun heq => ?_, hplaced.old⟩
      have hpresent := hplaced.present heq
      refine ⟨hpresent.later, hpresent.earlier, ?_, hpresent.last⟩
      rintro j ⟨rfl⟩
      obtain ⟨last, hlast⟩ :=
        Option.ne_none_iff_exists'.1 fun hnone => hnil (List.getLast?_eq_none_iff.1 hnone)
      rw [hlast]
      exact Int.lt_add_one_of_le (hpresent.last last hlast)

/-! ### Runs -/

theorem take_line {event : JournalEvent} {bytes : ℕ} (h : event.serialize.length ≤ bytes) :
    event.line.take bytes = event.serialize ∨ event.line.take bytes = event.line := by
  rcases Nat.eq_or_lt_of_le h with heq | hlt
  · exact .inl (List.take_left' heq)
  · refine .inr (List.take_of_length_le ?_)
    rw [JournalEvent.line, List.length_append, List.length_singleton]
    exact hlt

/-- A line at the end of the log, with its newline or without. -/
theorem spells_append (h : s.Inv) (hends : s.EndsLine) {event : JournalEvent} {bytes : ℕ}
    (hbytes : event.serialize.length ≤ bytes) :
    Spells ((s.files.append event bytes).log.getD []) (s.owed ++ [event]) := by
  have hlog := spells_of_endsLine h hends
  show Spells (s.files.log.getD [] ++ event.line.take bytes) _
  rw [hlog, Spells, List.flatMap_append, List.flatMap_singleton, List.append_assoc]
  rcases take_line hbytes with heq | heq
  · rw [heq]
    exact .inr rfl
  · rw [heq]
    exact .inl rfl

theorem Inv.step {s' : JournalRun} {op : JournalOp} (h : s.Inv) (hcareful : s.Careful op)
    (hstep : s.step p op = some s') : s'.Inv := by
  cases op with
  | mark m =>
    obtain ⟨journal, hjournal, rfl⟩ := Option.map_eq_some_iff.1 hstep
    cases hx : s.marked m with
    | none => exact h
    | some x =>
      obtain ⟨hends, hjoin⟩ := hcareful x hx
      have hbytes : x.2.serialize.length ≤ x.2.line.length := by
        rw [JournalEvent.line, List.length_append]
        exact Nat.le_add_right _ _
      exact h.write hx hjoin (fun j hj => (Option.some.inj hj).symm) (spells_append h hends hbytes)
  | markKilled m bytes =>
    obtain ⟨x, hx, rfl⟩ := Option.map_eq_some_iff.1 hstep
    rcases hcareful with rfl | hcareful
    · have hnone : ¬ x.2.serialize.length ≤ 0 := Nat.not_le.2 x.2.serialize_pos
      have hlog : (s.files.append x.2 0).log.getD [] = s.files.log.getD [] := List.append_nil _
      dsimp only
      rw [if_neg hnone]
      exact h.die hlog
    · obtain ⟨hends, hjoin, hbytes⟩ := hcareful x hx
      dsimp only
      rw [if_pos hbytes]
      exact h.write hx hjoin (fun j hj => absurd hj (Option.not_mem_none j))
        (spells_append h hends hbytes)
  | snapshot =>
    obtain ⟨journal, hjournal, rfl⟩ := Option.map_eq_some_iff.1 hstep
    exact h.snapshot hjournal
  | clearThrough i =>
    obtain ⟨x, hx, rfl⟩ := Option.map_eq_some_iff.1 hstep
    exact h.clear hx hcareful fun j hj => (Option.some.inj hj).symm
  | clearKilled i bytes =>
    obtain ⟨x, hx, rfl⟩ := Option.map_eq_some_iff.1 hstep
    exact h.die rfl
  | clearReplaced i =>
    obtain ⟨x, hx, rfl⟩ := Option.map_eq_some_iff.1 hstep
    exact h.clear hx hcareful fun j hj => absurd hj (Option.not_mem_none j)
  | reload =>
    have hinit : DirtyJournal.init p s.files = some ⟨s.owed, s.owed.getLast?.elim 1 fun last =>
        last.sequence + 1⟩ := by
      rw [DirtyJournal.init, h.load, Option.map_some]
    simp only [JournalRun.step, hinit, Option.some.injEq] at hstep
    subst hstep
    exact h.reload

/-- In a run of careful operations nothing is forgotten, and every load succeeds. -/
theorem keeps_of_careful (h : Machine.Reaches (step p) Careful {} s) : s.Keeps p :=
  (h.invariant (I := Inv) (fun _ _ _ hinv hcareful hstep => hinv.step hcareful hstep)
    inv_start).keeps

/-- No journal has a float in it. -/
def plainPrinting : PyText.Printing :=
  ⟨fun _ => [48], fun _ => List.cons_ne_nil _ _, fun _ => false, 100⟩

def marking (path : String) (h : (Str.ofString path).valid = true) : Marking :=
  ⟨Str.ofString path, h, ⟨0, by decide⟩⟩

instance (s : JournalRun) : Decidable s.EndsLine := by
  unfold EndsLine
  infer_instance

instance (s : JournalRun) : ∀ op, Decidable (s.Careful op)
  | .mark m => inferInstanceAs (Decidable (∀ x ∈ s.marked m, s.EndsLine ∧ x.2.path.join = x.2.path))
  | .markKilled m bytes => inferInstanceAs (Decidable (bytes = 0 ∨
      ∀ x ∈ s.marked m, s.EndsLine ∧ x.2.path.join = x.2.path ∧ x.2.serialize.length ≤ bytes))
  | .clearThrough i | .clearReplaced i =>
    inferInstanceAs (Decidable (∀ taken ∈ s.snapshots[i]?, taken.numbering = s.numbering ∨
      ∀ journal ∈ s.journal, ∀ event ∈ journal.events.head?, taken.throughSequence <
      event.sequence))
  | .snapshot | .clearKilled _ _ | .reload => .isTrue trivial

/-- A checkpoint while a file is written, and a kill before the next line. -/
def checkpointed : List JournalOp :=
  [.reload, .mark (marking "user/a" (by decide)), .snapshot, .mark (marking "user/b" (by decide)),
    .clearThrough 0,
    .markKilled (marking "user/c" (by decide)) 0]

theorem checkpointed_run :
    (Machine.runAlong (step plainPrinting) Careful {} checkpointed).isSome := by decide

theorem checkpointed_keeps :
    ((Machine.runAlong (step plainPrinting) Careful {} checkpointed).get checkpointed_run).Keeps
    plainPrinting :=
  keeps_of_careful (.of_isSome checkpointed_run)

/-- Half a line: the process is killed in its first `mark`. -/
def torn : List JournalOp := [.reload, .markKilled (marking "user/a" (by decide)) 5]

theorem torn_run : (Machine.runAlong (step plainPrinting) Machine.Any {} torn).isSome := by decide

theorem torn_line_never_loads : ¬ ∀ (p : PyText.Printing) (s : JournalRun),
    Machine.Reaches (step p) Machine.Any {} s → s.Keeps p := by
  intro h
  have hkeeps := (h plainPrinting _ (.of_isSome torn_run)).loads
  have hload : DirtyJournal.load plainPrinting
    ((Machine.runAlong (step plainPrinting) Machine.Any {} torn).get torn_run).files.log =
      none := by decide
  rw [hload] at hkeeps
  cases hkeeps

-- the second load numbers from 1 again, and the old snapshot takes the new mark away
example : (Machine.runAlong (step plainPrinting) Machine.Any {}
    [.reload, .mark (marking "user/a" (by decide)), .snapshot, .clearThrough 0,
    .reload, .mark (marking "user/b" (by decide)), .clearThrough 0]).map
      (fun s => (s.owed.length, s.journal.map fun journal => journal.events.length)) =
        some (1, some 0) := by decide

/-! ### Checkpoints -/

/-- Only a load changes the numbering, and no snapshot is forgotten. -/
theorem step_numbering {s' : JournalRun} {op : JournalOp} (hop : op ≠ .reload)
    (hstep : s.step p op = some s') :
    s'.numbering = s.numbering ∧ s.snapshots <+: s'.snapshots := by
  cases op with
  | mark m =>
    obtain ⟨journal, -, rfl⟩ := Option.map_eq_some_iff.1 hstep
    cases s.marked m <;> exact ⟨rfl, List.prefix_rfl⟩
  | snapshot =>
    obtain ⟨journal, -, rfl⟩ := Option.map_eq_some_iff.1 hstep
    exact ⟨rfl, List.prefix_append _ _⟩
  | markKilled | clearThrough | clearKilled | clearReplaced =>
    obtain ⟨x, -, rfl⟩ := Option.map_eq_some_iff.1 hstep
    exact ⟨rfl, List.prefix_rfl⟩
  | reload => exact absurd rfl hop

/-- A process clears its own snapshots carefully, as `checkpoint` does. -/
theorem careful_checkpoint {s' s'' : JournalRun} (hsnapshot : s.step p .snapshot = some s')
    (h : Machine.Reaches (step p) (fun _ op => op ≠ .reload) s' s'') :
    s''.Careful (.clearThrough s.snapshots.length) := by
  obtain ⟨journal, -, rfl⟩ := Option.map_eq_some_iff.1 hsnapshot
  have hrun : s''.numbering = s.numbering ∧
      s.snapshots ++ [⟨journal.snapshot, s.written.length, s.numbering⟩] <+: s''.snapshots :=
    h.invariant (I := fun s'' => s''.numbering = s.numbering ∧
        s.snapshots ++ [⟨journal.snapshot, s.written.length, s.numbering⟩] <+: s''.snapshots)
      (fun _ _ _ hinv hop hstep =>
        ⟨(step_numbering hop hstep).1.trans hinv.1, hinv.2.trans (step_numbering hop hstep).2⟩)
      ⟨rfl, List.prefix_rfl⟩
  obtain ⟨hnumbering, rest, hrest⟩ := hrun
  intro taken htaken
  rw [← hrest, List.append_assoc, List.getElem?_append_right (Nat.le_refl _),
    Nat.sub_self] at htaken
  cases htaken
  exact .inl hnumbering.symm

end JournalRun

end KiroCrew
