import KiroCrew.EventStream
import KiroCrew.Lib.EventSource

/-!
# The blocks of a remote event stream

`KiroCrewRemoteEventSource` cuts its buffer where `/\r?\n\r?\n/u` matches and reads each block by
itself. The blocks are the groups of lines that empty lines end, for lines that end with LF or CRLF
(`blocks_eq`). `parseSseBlock` reads a field only with its colon, trims its value, and forgets the
id of the groups before; `filterMap_parseSseLines_iff` says what the groups must be for it to find
the messages of the event-stream format.
-/

namespace KiroCrew.Shell.Sse

/-! ## Line ends -/

/-- What `/\r?\n\r?\n/u` matches. -/
def blankLines : List Str := [[10, 10], [10, 13, 10], [13, 10, 10], [13, 10, 13, 10]]

def blankAt (s : Str) : Prop := ∃ m ∈ blankLines, m <+: s

instance (s : Str) : Decidable (blankAt s) := inferInstanceAs (Decidable (∃ m ∈ blankLines, _))

/-- The length of the separator that `#connect` removes. -/
def separator (s : Str) : Nat := if [13, 10, 13, 10] <+: s then 4 else 2

def cutGroup : Str → Option (Str × Str)
  | [] => none
  | c :: s =>
    if blankAt (c :: s) then some ([], (c :: s).drop (separator (c :: s)))
    else (cutGroup s).map fun (block, rest) => (c :: block, rest)

theorem blankAt_iff (s : Str) :
    blankAt s ↔ [10, 10] <+: s ∨ [10, 13, 10] <+: s ∨ [13, 10, 10] <+: s ∨
    [13, 10, 13, 10] <+: s := by
  simp [blankAt, blankLines]

theorem cutGroup_shrinks {s block rest : Str} (h : cutGroup s = some (block, rest)) :
    rest.length < s.length := by
  induction s generalizing block rest with
  | nil => cases h
  | cons c s ih =>
    rw [cutGroup] at h
    split_ifs at h with hblank
    · cases h
      have hpos : 0 < separator (c :: s) := by
        unfold separator
        split_ifs <;> decide
      rw [List.length_drop, List.length_cons]
      omega
    · obtain ⟨⟨block', rest'⟩, hcut, heq⟩ := Option.map_eq_some_iff.1 h
      cases heq
      exact (ih hcut).trans (Nat.lt_succ_self _)

theorem blankAt_append {s : Str} (t : Str) (h : blankAt s) : blankAt (s ++ t) := by
  obtain ⟨m, hm, hs⟩ := h
  exact ⟨m, hm, hs.trans (List.prefix_append s t)⟩

/-- A separator is removed as a whole when it has come as a whole. -/
theorem drop_separator {s : Str} (t : Str) (h : blankAt s) :
    (s ++ t).drop (separator (s ++ t)) = s.drop (separator s) ++ t := by
  rcases (blankAt_iff s).1 h with ⟨rest, rfl⟩ | ⟨rest, rfl⟩ | ⟨rest, rfl⟩ | ⟨rest, rfl⟩ <;>
    simp [separator]

/-- Before two line ends that have come there is no other place for them. -/
theorem blankAt_of_append {c : Nat} {s block rest : Str} (t : Str)
    (hcut : cutGroup s = some (block, rest))
    (h : blankAt (c :: s ++ t)) : blankAt (c :: s) := by
  rcases s with _ | ⟨a, _ | ⟨b, _ | ⟨d, s⟩⟩⟩
  · cases hcut
  · simp [cutGroup, blankAt_iff] at hcut
  · simp [cutGroup, blankAt_iff] at hcut h ⊢
    grind
  · simp only [blankAt_iff, List.cons_append, List.cons_prefix_cons, List.nil_prefix] at h ⊢
    exact h

theorem cutGroup_stable {s block rest : Str} (t : Str) (h : cutGroup s = some (block, rest)) :
    cutGroup (s ++ t) = some (block, rest ++ t) := by
  induction s generalizing block rest with
  | nil => cases h
  | cons c s ih =>
    rw [cutGroup] at h
    rw [List.cons_append, cutGroup, ← List.cons_append]
    split_ifs at h with hblank
    · cases h
      rw [if_pos (blankAt_append t hblank)]
      exact congrArg (fun rest => some ([], rest)) (drop_separator t hblank)
    · obtain ⟨⟨block', rest'⟩, hcut, heq⟩ := Option.map_eq_some_iff.1 h
      cases heq
      rw [if_neg (mt (blankAt_of_append t hcut) hblank), ih hcut]
      rfl

/-- The blocks that `#connect` cuts off its buffer. -/
def blankLine : Framing Nat := ⟨cutGroup, cutGroup_shrinks, fun t h => cutGroup_stable t h⟩

/-! ## Texts as lines -/

/-- `block.split(/\r?\n/u)` -/
def splitLines : Str → List Str
  | [] => [[]]
  | c :: s =>
    if c = 10 then [] :: splitLines s
    else if c = 13 ∧ s.head? = some 10 then splitLines s
    else (splitLines s).modifyHead (c :: ·)

/-- Every CR of the text is one of a CRLF. -/
def Paired : Str → Prop
  | [] => True
  | c :: s => (c = 13 → s.head? = some 10) ∧ Paired s

instance decidablePaired : ∀ s, Decidable (Paired s)
  | [] => inferInstanceAs (Decidable True)
  | c :: s =>
    have := decidablePaired s
    inferInstanceAs (Decidable ((c = 13 → s.head? = some 10) ∧ Paired s))

def ending (crlf : Bool) : Str := if crlf then [13, 10] else [10]

/-- A line with its end, CRLF or LF; a CR before the LF is part of the end. -/
structure EndedLine where
  text : Str
  crlf : Bool
  newline_not_mem : 10 ∉ text
  whole : crlf = false → text.getLast? ≠ some 13

namespace EndedLine

def render (l : EndedLine) : Str := l.text ++ ending l.crlf

def empty (crlf : Bool) : EndedLine := ⟨[], crlf, List.not_mem_nil, fun _ => nofun⟩

end EndedLine

def render (ls : List EndedLine) : Str := ls.flatMap EndedLine.render

theorem render_cons (l : EndedLine) (ls : List EndedLine) (s : Str) :
    render (l :: ls) ++ s = l.text ++ (ending l.crlf ++ (render ls ++ s)) := by
  simp [render, EndedLine.render]

theorem whole_tail {c : Nat} {t : Str} {crlf : Bool}
    (h : crlf = false → (c :: t).getLast? ≠ some 13) :
    crlf = false → t.getLast? ≠ some 13 := by
  intro hcrlf
  cases t with
  | nil => exact nofun
  | cons d t => simpa using h hcrlf

/-- A CR in a line does not end it. -/
theorem head_ne {t : Str} {crlf : Bool} (hplain : 10 ∉ t)
    (hwhole : crlf = false → (13 :: t).getLast? ≠ some 13)
    (s : Str) : (t ++ (ending crlf ++ s)).head? ≠ some 10 := by
  cases t with
  | nil =>
    cases crlf with
    | false => exact absurd rfl (hwhole rfl)
    | true => simp [ending]
  | cons d t =>
    rw [List.mem_cons, not_or] at hplain
    simpa using Ne.symm hplain.1

/-- Every text is lines with their ends, and a last one that has not ended. -/
theorem exists_render (s : Str) : ∃ ls rest, s = render ls ++ rest ∧ 10 ∉ rest := by
  induction s with
  | nil => exact ⟨[], [], rfl, List.not_mem_nil⟩
  | cons c s ih =>
    obtain ⟨ls, rest, rfl, hrest⟩ := ih
    by_cases hlf : c = 10
    · refine ⟨.empty false :: ls, rest, ?_, hrest⟩
      simp [hlf, render, EndedLine.render, EndedLine.empty, ending]
    · cases ls with
      | nil =>
        refine ⟨[], c :: rest, rfl, ?_⟩
        rw [List.mem_cons, not_or]
        exact ⟨Ne.symm hlf, hrest⟩
      | cons l ls =>
        obtain ⟨text, crlf, hplain, hwhole⟩ := l
        have hcons : 10 ∉ c :: text := by
          rw [List.mem_cons, not_or]
          exact ⟨Ne.symm hlf, hplain⟩
        by_cases hcr : c = 13 ∧ text = [] ∧ crlf = false
        · obtain ⟨rfl, rfl, rfl⟩ := hcr
          refine ⟨.empty true :: ls, rest, ?_, hrest⟩
          simp [render, EndedLine.render, EndedLine.empty, ending]
        · refine ⟨⟨c :: text, crlf, hcons, fun hfalse => ?_⟩ :: ls, rest, ?_, hrest⟩
          · cases text with
            | nil => exact fun hlast => hcr ⟨Option.some.inj hlast, rfl, hfalse⟩
            | cons d text => simpa using hwhole hfalse
          · simp [render, EndedLine.render]

/-! ### What the readers make of a line and its end -/

theorem splitLines_line (l : EndedLine) (s : Str) :
    splitLines (l.text ++ (ending l.crlf ++ s)) = l.text :: splitLines s := by
  obtain ⟨text, crlf, hplain, hwhole⟩ := l
  dsimp only
  induction text with
  | nil => cases crlf <;> simp [splitLines, ending]
  | cons c t ih =>
    rw [List.mem_cons, not_or] at hplain
    have hcr : ¬ (c = 13 ∧ (t ++ (ending crlf ++ s)).head? = some 10) := by
      rintro ⟨rfl, hhead⟩
      exact head_ne hplain.2 hwhole s hhead
    rw [List.cons_append, splitLines, if_neg (Ne.symm hplain.1), if_neg hcr,
      ih hplain.2 (whole_tail hwhole),
      List.modifyHead_cons]

theorem splitLines_rest {t : Str} (h : 10 ∉ t) : splitLines t = [t] := by
  induction t with
  | nil => rfl
  | cons c t ih =>
    rw [List.mem_cons, not_or] at h
    have hcr : ¬ (c = 13 ∧ t.head? = some 10) := fun hhead => h.2 (List.mem_of_mem_head? hhead.2)
    rw [splitLines, if_neg (Ne.symm h.1), if_neg hcr, ih h.2, List.modifyHead_cons]

theorem splitLines_render (ls : List EndedLine) {t : Str} (h : 10 ∉ t) :
    splitLines (render ls ++ t) = ls.map EndedLine.text ++ [t] := by
  induction ls with
  | nil => exact splitLines_rest h
  | cons l ls ih => rw [render_cons, splitLines_line, ih, List.map_cons, List.cons_append]

theorem splitLines_ne_nil (s : Str) : splitLines s ≠ [] := by
  obtain ⟨ls, rest, rfl, hrest⟩ := exists_render s
  rw [splitLines_render ls hrest]
  simp

/-- Where every CR is one of a CRLF, the lines that have ended are those of the format. -/
theorem dropLast_splitLines {s : Str} (h : Paired s) : (splitLines s).dropLast =
    EventSource.lines s := by
  induction s with
  | nil => rfl
  | cons c s ih =>
    obtain ⟨hcr, hs⟩ := h
    have hne := splitLines_ne_nil s
    have hlines := ih hs
    rw [splitLines, EventSource.lines]
    by_cases h13 : c = 13
    · subst h13
      rw [if_neg (by decide), if_pos ⟨rfl, hcr rfl⟩, if_pos ⟨rfl, hcr rfl⟩, hlines]
    · have hpair : ¬ (c = 13 ∧ s.head? = some 10) := fun hc => h13 hc.1
      by_cases hlf : c = 10
      · rw [if_pos hlf, if_neg hpair, if_pos (.inl hlf), ← hlines, List.dropLast_cons_of_ne_nil hne]
      · rw [if_neg hlf, if_neg hpair, if_neg hpair, if_neg (not_or.2 ⟨hlf, h13⟩), ← hlines]
        cases hsplit : splitLines s with
        | nil => exact absurd hsplit hne
        | cons line rest =>
          cases rest with
          | nil => rfl
          | cons line' rest => rfl

theorem not_blankAt {c : Nat} {s : Str} (hc : c ≠ 10) (hs : c = 13 → s.head? ≠ some 10) :
    ¬ blankAt (c :: s) := by
  cases s with
  | nil => simp [blankAt_iff]
  | cons d s =>
    simp only [blankAt_iff, List.cons_prefix_cons, List.nil_prefix, and_true]
    simp only [List.head?_cons, ne_eq, Option.some.injEq] at hs
    grind

theorem cutGroup_line (l : EndedLine) (s : Str) : cutGroup (l.text ++ (ending l.crlf ++ s)) =
    (cutGroup (ending l.crlf ++ s)).map fun (block, rest) => (l.text ++ block, rest) := by
  obtain ⟨text, crlf, hplain, hwhole⟩ := l
  dsimp only
  induction text with
  | nil => simp
  | cons c t ih =>
    rw [List.mem_cons, not_or] at hplain
    have hblank : ¬ blankAt (c :: (t ++ (ending crlf ++ s))) := by
      refine not_blankAt (Ne.symm hplain.1) ?_
      rintro rfl
      exact head_ne hplain.2 hwhole s
    rw [List.cons_append, cutGroup, if_neg hblank, ih hplain.2 (whole_tail hwhole), Option.map_map]
    rfl

theorem cutGroup_rest {t : Str} (h : 10 ∉ t) : cutGroup t = none := by
  induction t with
  | nil => rfl
  | cons c t ih =>
    rw [List.mem_cons, not_or] at h
    have hblank : ¬ blankAt (c :: t) :=
      not_blankAt (Ne.symm h.1) fun _ hhead => h.2 (List.mem_of_mem_head? hhead)
    rw [cutGroup, if_neg hblank, ih h.2, Option.map_none]

/-- The text goes on within a line. -/
def Within (s : Str) : Prop := ¬ [10] <+: s ∧ ¬ [13, 10] <+: s

theorem cutGroup_ending (crlf : Bool) {s : Str} (h : Within s) :
    cutGroup (ending crlf ++ s) = (cutGroup s).map fun (block, rest) =>
    (ending crlf ++ block, rest) := by
  have hblank : ¬ blankAt (10 :: s) ∧ ¬ blankAt (13 :: 10 :: s) := by
    obtain ⟨hlf, hcrlf⟩ := h
    constructor <;>
    · intro hblank
      simp only [blankAt_iff, List.cons_prefix_cons] at hblank
      grind
  unfold ending
  cases crlf with
  | false =>
    rw [if_neg (by decide), List.singleton_append, cutGroup, if_neg hblank.1]
    rfl
  | true =>
    rw [if_pos rfl, List.cons_append, List.singleton_append, cutGroup, if_neg hblank.2, cutGroup,
      if_neg hblank.1,
      Option.map_map]
    rfl

theorem within_line {l : EndedLine} (h : l.text ≠ []) (s : Str) :
    Within (l.text ++ (ending l.crlf ++ s)) := by
  obtain ⟨text, crlf, hplain, hwhole⟩ := l
  cases text with
  | nil => exact absurd rfl h
  | cons c t =>
    rw [List.mem_cons, not_or] at hplain
    constructor
    · intro hstart
      rw [List.cons_append, List.cons_prefix_cons] at hstart
      exact hplain.1 hstart.1
    · intro hstart
      rw [List.cons_append, List.cons_prefix_cons] at hstart
      obtain ⟨rfl, rest, hrest⟩ := hstart
      refine head_ne hplain.2 hwhole s ?_
      dsimp only at hrest
      rw [← hrest]
      rfl

theorem within_rest {t : Str} (h : 10 ∉ t) : Within t :=
  ⟨fun hstart => h (hstart.subset (by simp)), fun hstart => h (hstart.subset (by simp))⟩

theorem within_render {ls : List EndedLine} {s : Str} (h : ∀ l ∈ ls, l.text ≠ []) (hs : Within s) :
    Within (render ls ++ s) := by
  cases ls with
  | nil => exact hs
  | cons l ls =>
    rw [render_cons]
    exact within_line (h l List.mem_cons_self) _

/-- No line after the first is empty, so there is no separator before the rest. -/
theorem cutGroup_render {l : EndedLine} {ls : List EndedLine} {s : Str} (h : ∀ l ∈ ls, l.text ≠ [])
    (hs : Within s) :
    cutGroup (render (l :: ls) ++ s) = (cutGroup s).map fun (block, rest) =>
    (render (l :: ls) ++ block, rest) := by
  induction ls generalizing l with
  | nil =>
    have hnil : render [] ++ s = s := rfl
    rw [render_cons, hnil, cutGroup_line, cutGroup_ending l.crlf hs, Option.map_map]
    simp [render, EndedLine.render, Function.comp_def]
  | cons l' ls ih =>
    have hrest := ih (l := l') fun l hl => h l (List.mem_cons_of_mem _ hl)
    rw [render_cons, cutGroup_line, cutGroup_ending l.crlf (within_render h hs), hrest,
      Option.map_map, Option.map_map]
    simp [render, EndedLine.render, Function.comp_def]

/-- The separator of a blank line is cut off, but for the LF of a mixed one. -/
theorem cutGroup_blank (crlf crlf' : Bool) (s : Str) :
    cutGroup (ending crlf ++ (ending crlf' ++ s)) =
      some ([], if crlf = crlf' then s else 10 :: s) := by
  unfold ending
  cases crlf <;> cases crlf' <;> simp [cutGroup, blankAt_iff, separator]

theorem cutGroup_open {ls : List EndedLine} {rest : Str} (h : ∀ l ∈ ls.tail, l.text ≠ [])
    (hrest : 10 ∉ rest) :
    cutGroup (render ls ++ rest) = none := by
  cases ls with
  | nil => exact cutGroup_rest hrest
  | cons l ls =>
    rw [List.tail_cons] at h
    rw [cutGroup_render h (within_rest hrest), cutGroup_rest hrest, Option.map_none]

/-- The first blank line after the lines of `init` and `last`. -/
theorem cutGroup_group {init : List EndedLine} {last l : EndedLine} (s : Str)
    (h : ∀ l ∈ (init ++ [last]).tail, l.text ≠ []) :
    cutGroup (render (init ++ [last]) ++ (ending l.crlf ++ s)) =
      some (render init ++ last.text, if last.crlf = l.crlf then s else 10 :: s) := by
  have hlast : render (init ++ [last]) ++ (ending l.crlf ++ s) =
      render init ++ (last.text ++ (ending last.crlf ++ (ending l.crlf ++ s))) := by
    simp [render, EndedLine.render]
  have hcut : cutGroup (last.text ++ (ending last.crlf ++ (ending l.crlf ++ s))) =
      some (last.text, if last.crlf = l.crlf then s else 10 :: s) := by
    rw [cutGroup_line, cutGroup_blank]
    simp
  rw [hlast]
  cases init with
  | nil => exact hcut
  | cons first init =>
    rw [List.cons_append, List.tail_cons] at h
    have hwithin : Within (last.text ++ (ending last.crlf ++ (ending l.crlf ++ s))) :=
      within_line (h last (List.mem_append_right _ List.mem_cons_self)) _
    rw [cutGroup_render (fun l hl => h l (List.mem_append_left _ hl)) hwithin, hcut]
    rfl

/-- The blocks are the groups of lines, for a reader that skips empty lines. -/
theorem blocks_render {β : Type*} {f : List Str → Option β} (hskip : ∀ g, f ([] :: g) = f g)
    (hnil : f [] = none)
    (begun ls : List EndedLine) {rest : Str} (hrest : 10 ∉ rest)
    (hbegun : ∀ l ∈ begun.tail, l.text ≠ []) :
    (blankLine.blocks (render begun ++ (render ls ++ rest))).1.filterMap
      (fun block => f (splitLines block)) =
        (EventSource.groups (begun.map EndedLine.text) (ls.map EndedLine.text)).filterMap f := by
  have hempty : ∀ l ∈ ([] : List EndedLine), l.text ≠ [] := fun l hl => absurd hl List.not_mem_nil
  induction ls generalizing begun with
  | nil =>
    have hcut : blankLine.cut (render begun ++ (render [] ++ rest)) = none :=
      cutGroup_open hbegun hrest
    rw [blankLine.blocks_of_none hcut]
    rfl
  | cons l ls ih =>
    have hassoc : render begun ++ (render (l :: ls) ++ rest) = render (begun ++ [l]) ++
        (render ls ++ rest) := by
      simp [render]
    rw [List.map_cons, EventSource.groups]
    split_ifs with hblank
    · rcases List.eq_nil_or_concat' begun with rfl | ⟨init, last, rfl⟩
      · rw [hassoc, List.nil_append, ih [l] hempty, List.map_nil, List.filterMap_cons_none hnil,
          List.map_singleton, hblank,
          EventSource.filterMap_groups_empty hskip]
      · have hblock : splitLines (render init ++ last.text) =
            (init ++ [last]).map EndedLine.text := by
          rw [splitLines_render init last.newline_not_mem, List.map_append, List.map_singleton]
        have hcut : blankLine.cut (render (init ++ [last]) ++ (render (l :: ls) ++ rest)) =
            some (render init ++ last.text, if last.crlf = l.crlf then render ls ++ rest
            else 10 :: (render ls ++ rest)) := by
          rw [render_cons, hblank, List.nil_append]
          exact cutGroup_group (l := l) (render ls ++ rest) hbegun
        have hlater : ((blankLine.blocks
            (if last.crlf = l.crlf then render ls ++ rest
              else 10 :: (render ls ++ rest))).1.filterMap
              fun block => f (splitLines block)) =
                  (EventSource.groups [] (ls.map EndedLine.text)).filterMap f := by
          split_ifs
          · exact ih [] hempty
          · have hone := ih [.empty false] hempty
            have hempty : (EndedLine.empty false).text = [] := rfl
            rwa [List.map_singleton, hempty, EventSource.filterMap_groups_empty hskip] at hone
        rw [blankLine.blocks_of_some hcut, List.filterMap_cons, List.filterMap_cons, hblock, hlater]
    · rw [hassoc, ih, List.map_append, List.map_singleton]
      intro l' hl'
      cases begun with
      | nil => cases hl'
      | cons first begun =>
        rw [List.cons_append, List.tail_cons, List.mem_append, List.mem_singleton] at hl'
        rcases hl' with hl' | rfl
        · exact hbegun l' hl'
        · exact hblank

/-- The lines of a text that an LF has ended. -/
def lineFeedLines (text : Str) : List Str := (splitLines text).dropLast

theorem blocks_eq {β : Type*} {f : List Str → Option β} (hskip : ∀ g, f ([] :: g) = f g)
    (hnil : f [] = none)
    (text : Str) : (blankLine.blocks text).1.filterMap (fun block => f (splitLines block)) =
      (EventSource.groups [] (lineFeedLines text)).filterMap f := by
  obtain ⟨ls, rest, rfl, hrest⟩ := exists_render text
  rw [lineFeedLines, splitLines_render ls hrest, List.dropLast_concat]
  exact blocks_render hskip hnil [] ls hrest nofun

/-! ## The fields of a block -/

/-- What the loop of `parseSseBlock` collects. -/
structure SseFields where
  type : Str := Str.ofString "message"
  lastEventId : Str := []
  data : List Str := []

def SseFields.read (p : SseFields) (line : Str) : SseFields :=
  if Str.ofString "event:" <+: line then { p with type := trimStart (line.drop 6) }
  else if Str.ofString "id:" <+: line then { p with lastEventId := trimStart (line.drop 3) }
  else if Str.ofString "data:" <+: line then { p with data := p.data ++ [trimStart (line.drop 5)] }
  else p

/-- `parseSseBlock` of the lines of a block. -/
def parseSseLines (lines : List Str) : Option EventSource.Message :=
  let p := lines.foldl SseFields.read {}
  if p.data = [] then none
    else some { type := p.type, data := [10].intercalate p.data, lastEventId := p.lastEventId }

def parseSseBlock (block : Str) : Option EventSource.Message := parseSseLines (splitLines block)

open EventSource (fields value name afterColon dataValues eventType lastId)

/-- The fields of a name that have a colon; `parseSseBlock` takes no others. -/
def written (label : String) (group : List Str) : List Str := (fields label group).filter (58 ∈ ·)

/-- The value of a line as `parseSseBlock` has it. -/
def trimmed (line : Str) : Str := trimStart (value line)

theorem prefix_iff (label : Str) (h : 58 ∉ label) (line : Str) :
    label ++ [58] <+: line ↔ name line = label ∧ 58 ∈ line := by
  induction label generalizing line with
  | nil =>
    cases line with
    | nil => simp
    | cons c line =>
      by_cases hc : c = 58
      · simp [hc, name]
      · simp [hc, name, Ne.symm hc]
  | cons a label ih =>
    rw [List.mem_cons, not_or] at h
    cases line with
    | nil => simp
    | cons c line =>
      rw [List.cons_append, List.cons_prefix_cons, ih h.2]
      by_cases hc : c = 58
      · simp [hc, name, Ne.symm h.1]
      · simp [hc, name, Ne.symm hc, and_assoc, eq_comm]

theorem drop_name {line : Str} (h : 58 ∈ line) : line.drop ((name line).length + 1) =
    afterColon line := by
  unfold name afterColon
  induction line with
  | nil => cases h
  | cons c line ih =>
    by_cases hc : c = 58
    · simp [hc]
    · have hmem : 58 ∈ line := (List.mem_cons.1 h).resolve_left (Ne.symm hc)
      simpa [hc] using ih hmem

theorem trimStart_stripSpace (s : Str) : trimStart (EventSource.stripSpace s) = trimStart s := by
  unfold EventSource.stripSpace
  split_ifs with h
  · cases s with
    | nil => cases h
    | cons c s =>
      cases h
      rfl
  · rfl

theorem read_line (p : SseFields) (line : Str) : p.read line =
    if name line = Str.ofString "event" ∧ 58 ∈ line then { p with type := trimmed line }
    else if name line = Str.ofString "id" ∧ 58 ∈ line then { p with lastEventId := trimmed line }
    else if name line = Str.ofString "data" ∧
      58 ∈ line then { p with data := p.data ++ [trimmed line] }
    else p := by
  have hprefix (label : Str) (hlabel : 58 ∉ label) (h : name line = label ∧ 58 ∈ line) :
      trimStart (line.drop (label.length + 1)) = trimmed line := by
    rw [trimmed, value, trimStart_stripSpace, ← drop_name h.2, h.1]
  have hevent := prefix_iff (Str.ofString "event") (by decide) line
  have hid := prefix_iff (Str.ofString "id") (by decide) line
  have hdata := prefix_iff (Str.ofString "data") (by decide) line
  unfold SseFields.read
  rw [show Str.ofString "event:" = Str.ofString "event" ++ [58] from rfl,
    show Str.ofString "id:" = Str.ofString "id" ++ [58] from rfl, show Str.ofString "data:" =
    Str.ofString "data" ++ [58] from rfl]
  simp only [hevent, hid, hdata]
  split_ifs with h1 h2 h3
  · rw [← hprefix _ (by decide) h1]
    rfl
  · rw [← hprefix _ (by decide) h2]
    rfl
  · rw [← hprefix _ (by decide) h3]
    rfl
  · rfl

theorem foldl_read (g : List Str) : g.foldl SseFields.read {} =
    ⟨((written "event" g).map trimmed).getLast?.getD (Str.ofString "message"),
    ((written "id" g).map trimmed).getLast?.getD [],
      (written "data" g).map trimmed⟩ := by
  have hlabels : Str.ofString "event" ≠ Str.ofString "data" ∧
    Str.ofString "event" ≠ Str.ofString "id" ∧
    Str.ofString "data" ≠ Str.ofString "id" := by decide
  induction g using List.reverseRecOn with
  | nil => rfl
  | append_singleton g line ih =>
    have happend (label : String) : written label (g ++ [line]) =
        written label g ++ if name line = Str.ofString label ∧ 58 ∈ line then [line] else [] := by
      rw [written, EventSource.fields_append, List.filter_append]
      refine congrArg _ ?_
      simp only [fields, List.filter_cons, List.filter_nil]
      split_ifs <;> simp_all
    rw [List.foldl_append, ih, List.foldl_cons, List.foldl_nil, read_line, happend,
      happend, happend]
    by_cases hcolon : 58 ∈ line
    · by_cases h1 : name line = Str.ofString "event"
      · simp [h1, hcolon, hlabels]
      · by_cases h2 : name line = Str.ofString "id"
        · simp [h2, hcolon, hlabels.2.1.symm, hlabels.2.2.symm]
        · by_cases h3 : name line = Str.ofString "data"
          · simp [h3, hcolon, hlabels.1.symm, hlabels.2.2]
          · simp [h1, h2, h3]
    · simp [hcolon]

theorem parseSseLines_empty (g : List Str) : parseSseLines ([] :: g) = parseSseLines g := rfl

/-! ## What is kept -/

/-- A value that `trimStart` leaves as it is. -/
def Flush (s : Str) : Prop := ∀ c ∈ s.head?, isWhiteSpace c = false

instance (s : Str) : Decidable (Flush s) := inferInstanceAs (Decidable (∀ c ∈ s.head?, _))

theorem trimStart_eq_self_iff {s : Str} : trimStart s = s ↔ Flush s := by
  unfold trimStart Flush
  cases s with
  | nil => simp
  | cons c s =>
    rw [List.dropWhile_eq_self_iff]
    simp

/-- Every `data` field has a colon, and no white space besides the one space. -/
def DataKept (g : List Str) : Prop := ∀ line ∈ fields "data" g, 58 ∈ line ∧ Flush (value line)

/-- So has the last `event` field, and it is not empty; without a colon it must not hide another
type. -/
def TypeKept (g : List Str) : Prop :=
  ∀ line ∈ (fields "event" g).getLast?,
    if 58 ∈ line then value line ≠ [] ∧ Flush (value line)
    else ∀ line' ∈ (written "event" g).getLast?, trimmed line' = Str.ofString "message"

/-- The last `id` field is read as it is written, and it is there unless there is no id before. -/
def IdKept (before : Str) (g : List Str) : Prop :=
  if fields "id" g = [] then before = []
  else
    ∀ line ∈ (fields "id" g).getLast?,
      if 58 ∈ line then 0 ∉ value line ∧ Flush (value line)
      else ∀ line' ∈ (written "id" g).getLast?, trimmed line' = []

instance (g : List Str) : Decidable (DataKept g) :=
  inferInstanceAs (Decidable (∀ line ∈ fields "data" g, _))

instance (g : List Str) : Decidable (TypeKept g) :=
  inferInstanceAs (Decidable (∀ line ∈ (fields "event" g).getLast?, _))

instance (before : Str) (g : List Str) : Decidable (IdKept before g) :=
  inferInstanceAs (Decidable (ite _ _ _))

/-- Each group that dispatches an event is read as it is written; `before` is the last id before the
groups. -/
def Kept (before : Str) : List (List Str) → Prop
  | [] => True
  | g :: rest => (dataValues g ≠ [] → DataKept g ∧ TypeKept g ∧ IdKept before g) ∧
      Kept (lastId before g) rest

instance decidableKept : ∀ before gs, Decidable (Kept before gs)
  | _, [] => inferInstanceAs (Decidable True)
  | before, g :: rest =>
    have := decidableKept (lastId before g) rest
    inferInstanceAs (Decidable ((dataValues g ≠ [] → _) ∧ Kept (lastId before g) rest))

/-! ### One group -/

theorem dataKept_iff {g : List Str} (hlines : ∀ line ∈ g, 10 ∉ line) (hdata : dataValues g ≠ []) :
    written "data" g ≠ [] ∧ [10].intercalate ((written "data" g).map trimmed) = [10].intercalate
      (dataValues g) ↔
      DataKept g := by
  have hvalue : ∀ line ∈ fields "data" g, 10 ∉ value line := by
    intro line hline hmem
    refine hlines line (List.mem_of_mem_filter hline) ?_
    have hafter : 10 ∈ afterColon line := by
      rw [value, EventSource.stripSpace] at hmem
      split_ifs at hmem
      · exact List.mem_of_mem_tail hmem
      · exact hmem
    exact List.dropWhile_subset _ (List.mem_of_mem_tail hafter)
  constructor
  · rintro ⟨hne, heq⟩ line hline
    have hsplit := congrArg (List.splitOn 10) heq
    have hright : ∀ v ∈ dataValues g, 10 ∉ v := by
      rw [dataValues, List.forall_mem_map]
      exact hvalue
    have hleft : ∀ v ∈ (written "data" g).map trimmed, 10 ∉ v := by
      rw [List.forall_mem_map]
      intro line hline hmem
      exact hvalue line (List.mem_of_mem_filter hline) (List.dropWhile_subset _ hmem)
    rw [List.splitOn_intercalate 10 hleft (mt List.map_eq_nil_iff.1 hne),
      List.splitOn_intercalate 10 hright hdata] at hsplit
    have hlength := congrArg List.length hsplit
    rw [List.length_map, dataValues, List.length_map, written] at hlength
    have hall := List.length_filter_eq_length_iff.1 hlength
    have hself : written "data" g = fields "data" g := List.filter_eq_self.2 hall
    rw [hself, dataValues] at hsplit
    exact ⟨of_decide_eq_true (hall line hline), trimStart_eq_self_iff.1
      (List.map_inj_left.1 hsplit line hline)⟩
  · intro hkept
    have hself : written "data" g = fields "data" g :=
      List.filter_eq_self.2 fun line hline => decide_eq_true (hkept line hline).1
    have hmap : (fields "data" g).map trimmed = dataValues g :=
      List.map_congr_left fun line hline => trimStart_eq_self_iff.2 (hkept line hline).2
    rw [hself, hmap]
    refine ⟨fun hnil => hdata ?_, rfl⟩
    rw [dataValues, hnil, List.map_nil]

theorem value_of_no_colon {line : Str} (h : 58 ∉ line) : value line = [] := by
  have hall : ∀ c ∈ line, decide (c ≠ 58) = true := fun c hc =>
    decide_eq_true (ne_of_mem_of_not_mem hc h)
  rw [value, afterColon, List.dropWhile_eq_nil_iff.2 hall]
  rfl

/-- The last of the fields with a colon, when it is the last of all. -/
theorem getLast?_written {label : String} {g : List Str} {line : Str}
    (h : (fields label g).getLast? = some line)
    (hcolon : 58 ∈ line) :
    (written label g).getLast? = some line := by
  obtain ⟨init, hinit⟩ := List.getLast?_eq_some_iff.1 h
  rw [written, hinit, List.filter_append]
  simp [hcolon]

theorem typeKept_iff (g : List Str) :
    ((written "event" g).map trimmed).getLast?.getD (Str.ofString "message") =
      (if eventType g = [] then Str.ofString "message" else eventType g) ↔ TypeKept g := by
  unfold TypeKept eventType
  rw [List.getLast?_map, List.getLast?_map]
  cases hlast : (fields "event" g).getLast? with
  | none =>
    have hnil : written "event" g = [] := by
      rw [written, List.getLast?_eq_none_iff.1 hlast, List.filter_nil]
    simp [hnil]
  | some line =>
    by_cases hcolon : 58 ∈ line
    · rw [getLast?_written hlast hcolon]
      by_cases hvalue : value line = []
      · simp [hcolon, hvalue, trimmed, trimStart]
        decide
      · simp [hcolon, hvalue, trimmed, trimStart_eq_self_iff]
    · cases hwritten : (written "event" g).getLast? with
      | none => simp [hcolon, value_of_no_colon hcolon]
      | some line' => simp [hcolon, value_of_no_colon hcolon]

theorem zero_not_mem_lastId {before : Str} (h : 0 ∉ before) (g : List Str) :
    0 ∉ lastId before g := by
  unfold lastId
  cases hlast : (((fields "id" g).map value).filter fun v => 0 ∉ v).getLast? with
  | none => exact h
  | some v => exact of_decide_eq_true (List.mem_filter.1 (List.mem_of_mem_getLast? hlast)).2

theorem mem_trimStart {s : Str} (h : 0 ∈ s) : 0 ∈ trimStart s := by
  unfold trimStart
  induction s with
  | nil => cases h
  | cons c s ih =>
    rw [List.dropWhile_cons]
    split_ifs with hwhite
    · rcases List.mem_cons.1 h with rfl | hmem
      · cases hwhite
      · exact ih hmem
    · exact h

theorem idKept_iff {before : Str} (hbefore : 0 ∉ before) (g : List Str) :
    ((written "id" g).map trimmed).getLast?.getD [] = lastId before g ↔ IdKept before g := by
  unfold IdKept
  rw [List.getLast?_map]
  cases hlast : (fields "id" g).getLast? with
  | none =>
    have hnil := List.getLast?_eq_none_iff.1 hlast
    simp [written, lastId, hnil, eq_comm]
  | some line =>
    obtain ⟨init, hinit⟩ := List.getLast?_eq_some_iff.1 hlast
    have hne : fields "id" g ≠ [] := by simp [hinit]
    have hlastId (h : 0 ∉ value line) : lastId before g = value line := by simp [lastId, hinit, h]
    rw [if_neg hne]
    by_cases hcolon : 58 ∈ line
    · rw [getLast?_written hlast hcolon]
      by_cases hnull : 0 ∈ value line
      · have hread : trimmed line ≠ lastId before g := fun heq => zero_not_mem_lastId hbefore g
          (heq ▸ mem_trimStart hnull)
        simp [hcolon, hnull, hread]
      · simp [hcolon, hnull, hlastId hnull, trimmed, trimStart_eq_self_iff]
    · have hvalue := value_of_no_colon hcolon
      rw [hlastId (by simp [hvalue]), hvalue]
      cases hwritten : (written "id" g).getLast? with
      | none => simp [hcolon]
      | some line' => simp [hcolon]

theorem parseSseLines_eq (g : List Str) : parseSseLines g =
    if written "data" g = [] then none
    else
      some {
        type := ((written "event" g).map trimmed).getLast?.getD (Str.ofString "message")
        data := [10].intercalate ((written "data" g).map trimmed)
        lastEventId := ((written "id" g).map trimmed).getLast?.getD [] } := by
  rw [parseSseLines, foldl_read]
  simp only [List.map_eq_nil_iff]

/-- The block of a group gives the message of the group exactly when what it needs is kept. -/
theorem parseSseLines_iff {before : Str} {g : List Str} (hbefore : 0 ∉ before)
    (hlines : ∀ line ∈ g, 10 ∉ line) :
    parseSseLines g = EventSource.message (lastId before g) g ↔
      (dataValues g ≠ [] → DataKept g ∧ TypeKept g ∧ IdKept before g) := by
  rw [parseSseLines_eq, EventSource.message]
  by_cases hdata : dataValues g = []
  · have hnone : written "data" g = [] := by
      rw [written, List.map_eq_nil_iff.1 hdata, List.filter_nil]
    simp [hdata, hnone]
  · rw [← dataKept_iff hlines hdata, ← typeKept_iff, ← idKept_iff hbefore]
    by_cases hwritten : written "data" g = []
    · simp [hdata, hwritten]
    · simp only [hdata, hwritten, if_false, ne_eq, not_false_iff, true_and, forall_const,
        Option.some.injEq,
        EventSource.Message.mk.injEq]
      tauto

/-! ### All groups -/

/-- A message of the blocks is a message of the format. -/
theorem isSome_message {g : List Str} (id : Str) (h : (parseSseLines g).isSome) :
    (EventSource.message id g).isSome := by
  rw [parseSseLines_eq] at h
  rw [EventSource.message]
  split_ifs at h with hwritten
  · cases h
  · have hdata : dataValues g ≠ [] := by
      intro hnil
      rw [written, List.map_eq_nil_iff.1 hnil] at hwritten
      exact hwritten rfl
    rw [if_neg hdata]
    rfl

theorem map_parseSseLines_iff {before : Str} {gs : List (List Str)} (hbefore : 0 ∉ before)
    (hlines : ∀ g ∈ gs, ∀ line ∈ g, 10 ∉ line) :
    gs.map parseSseLines = EventSource.ofGroups before gs ↔ Kept before gs := by
  induction gs generalizing before with
  | nil => simp [EventSource.ofGroups, Kept]
  | cons g gs ih =>
    rw [List.forall_mem_cons] at hlines
    rw [List.map_cons, EventSource.ofGroups, List.cons.injEq, parseSseLines_iff hbefore hlines.1,
      ih (zero_not_mem_lastId hbefore g) hlines.2, Kept]

theorem filterMap_parseSseLines_iff {gs : List (List Str)}
    (hlines : ∀ g ∈ gs, ∀ line ∈ g, 10 ∉ line) :
    gs.filterMap parseSseLines = (EventSource.ofGroups [] gs).reduceOption ↔ Kept [] gs := by
  have hsome : ∀ before,
      List.Forall₂ (fun x y => x.isSome → y.isSome) (gs.map parseSseLines)
      (EventSource.ofGroups before gs) := by
    clear hlines
    induction gs with
    | nil => exact fun _ => .nil
    | cons g gs ih => exact fun before => .cons (isSome_message _) (ih _)
  have hmap : gs.filterMap parseSseLines = (gs.map parseSseLines).reduceOption := by
    rw [List.reduceOption, List.filterMap_map]
    rfl
  rw [hmap, EventSource.reduceOption_eq_iff (hsome []), map_parseSseLines_iff (by decide) hlines]

/-! ### The lines that count -/

/-- The lines of a group that are fields. -/
def fieldLines (g : List Str) : List Str :=
  g.filter fun line => name line ∈ [Str.ofString "event", Str.ofString "data", Str.ofString "id"]

/-- The fields of the groups that have data. -/
def dataGroups (gs : List (List Str)) : List (List Str) :=
  (gs.map fieldLines).filter fun g => fields "data" g ≠ []

theorem fields_fieldLines {label : String}
    (h : Str.ofString label ∈ [Str.ofString "event", Str.ofString "data", Str.ofString "id"])
    (g : List Str) :
    fields label (fieldLines g) = fields label g := by
  rw [fields, fieldLines, List.filter_filter]
  refine List.filter_congr fun line _ => ?_
  by_cases hname : name line = Str.ofString label
  · simp only [hname, h, decide_true, Bool.and_self]
  · simp only [hname, decide_false, Bool.false_and]

theorem parseSseLines_fieldLines (g : List Str) : parseSseLines (fieldLines g) =
    parseSseLines g := by
  have hdata : written "data" (fieldLines g) = written "data" g := by
    rw [written, fields_fieldLines (by simp), written]
  have hevent : written "event" (fieldLines g) = written "event" g := by
    rw [written, fields_fieldLines (by simp), written]
  have hid : written "id" (fieldLines g) = written "id" g := by
    rw [written, fields_fieldLines (by simp), written]
  rw [parseSseLines_eq, hdata, hevent, hid, ← parseSseLines_eq]

/-- The messages are those of the groups that have data. -/
theorem filterMap_dataGroups (gs : List (List Str)) :
    (dataGroups gs).filterMap parseSseLines = gs.filterMap parseSseLines := by
  rw [dataGroups, List.filterMap_filter, List.filterMap_map]
  refine List.filterMap_congr fun g _ => ?_
  rw [Function.comp_apply, parseSseLines_fieldLines]
  by_cases hdata : fields "data" (fieldLines g) = []
  · have hwritten : written "data" (fieldLines g) = [] := by rw [written, hdata, List.filter_nil]
    rw [if_neg (by simp [hdata]), ← parseSseLines_fieldLines, parseSseLines_eq, if_pos hwritten]
  · rw [if_pos (decide_eq_true hdata)]

theorem length_filterMap_le (before : Str) (gs : List (List Str)) :
    (gs.filterMap parseSseLines).length ≤ (EventSource.ofGroups before gs).reduceOption.length := by
  induction gs generalizing before with
  | nil => exact Nat.le_refl _
  | cons g gs ih =>
    have hsome := isSome_message (g := g) (lastId before g)
    have hrest := ih (lastId before g)
    rw [EventSource.ofGroups]
    cases hparse : parseSseLines g with
    | none =>
      rw [List.filterMap_cons_none hparse]
      refine hrest.trans ?_
      cases EventSource.message (lastId before g) g with
      | none => rw [List.reduceOption_cons_of_none]
      | some m =>
        rw [List.reduceOption_cons_of_some]
        exact Nat.le_succ _
    | some m =>
      obtain ⟨m', hm'⟩ := Option.isSome_iff_exists.1 (hsome (by rw [hparse]; rfl))
      rw [List.filterMap_cons_some hparse, hm', List.reduceOption_cons_of_some]
      exact Nat.succ_le_succ hrest

end KiroCrew.Shell.Sse
