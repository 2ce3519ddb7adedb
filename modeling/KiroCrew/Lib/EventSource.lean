import KiroCrew.Lib.Str

/-!
# The event-stream format

An empty line of an event stream dispatches the event of the fields before it, lines end with CRLF,
LF or CR, and one space after the colon of a field is not part of its value. `messages` interprets a
stream line by line, as the format is defined. `interpret_eq` reads the same off the groups of lines
that the empty lines end: the values of a group's `data` fields, its last `event` field, and the
last `id` field so far.
-/

namespace EventSource

/-- What is dispatched as a `MessageEvent`. -/
structure Message where
  type : Str
  data : Str
  lastEventId : Str
deriving DecidableEq, Repr

/-! ## Lines and fields -/

/-- The lines that have ended. -/
def lines : Str → List Str
  | [] => []
  | c :: s =>
    if c = 13 ∧ s.head? = some 10 then lines s
    else if c = 10 ∨ c = 13 then [] :: lines s
    else
      match lines s with
      | [] => []
      | line :: rest => (c :: line) :: rest

/-- The name of a field; a comment has the empty name. -/
def name (line : Str) : Str := line.takeWhile (· ≠ 58)

def afterColon (line : Str) : Str := (line.dropWhile (· ≠ 58)).tail

def stripSpace (s : Str) : Str := if s.head? = some 32 then s.tail else s

/-- The value of a field, empty without a colon. -/
def value (line : Str) : Str := stripSpace (afterColon line)

/-! ## The interpretation -/

structure Buffers where
  data : Str := []
  type : Str := []
  lastEventId : Str := []

namespace Buffers

def field (b : Buffers) (line : Str) : Buffers :=
  if name line = Str.ofString "event" then { b with type := value line }
  else if name line = Str.ofString "data" then { b with data := b.data ++ value line ++ [10] }
  else if name line = Str.ofString "id" then
    if 0 ∈ value line then b else { b with lastEventId := value line }
  else b

def dispatch (b : Buffers) : Option Message :=
  if b.data = [] then none
  else
    some {
      type := if b.type = [] then Str.ofString "message" else b.type
      data := if b.data.getLast? = some 10 then b.data.dropLast else b.data
      lastEventId := b.lastEventId }

end Buffers

def interpret (b : Buffers) : List Str → List Message
  | [] => []
  | line :: rest =>
    if line = [] then b.dispatch.toList ++ interpret { lastEventId := b.lastEventId } rest
    else interpret (b.field line) rest

/-- The messages of a stream; what an empty line has not ended is dropped. -/
def messages (text : Str) : List Message := interpret {} (lines text)

/-! ## Groups -/

/-- The groups of lines that empty lines end; `begun` has begun already. -/
def groups (begun : List Str) : List Str → List (List Str)
  | [] => []
  | line :: rest => if line = [] then begun :: groups [] rest else groups (begun ++ [line]) rest

/-- The lines of a group that are fields of one name. -/
def fields (label : String) (group : List Str) : List Str :=
  group.filter fun line => name line = Str.ofString label

/-- The values of the `data` fields. -/
def dataValues (group : List Str) : List Str := (fields "data" group).map value

/-- The value of the last `event` field. -/
def eventType (group : List Str) : Str := ((fields "event" group).map value).getLast?.getD []

/-- The value of the last `id` field without a null, `before` if there is none. -/
def lastId (before : Str) (group : List Str) : Str :=
  (((fields "id" group).map value).filter fun v => 0 ∉ v).getLast?.getD before

/-- The message of a group after which the last event id is `id`. -/
def message (id : Str) (group : List Str) : Option Message :=
  if dataValues group = [] then none
  else
    some {
      type := if eventType group = [] then Str.ofString "message" else eventType group
      data := [10].intercalate (dataValues group)
      lastEventId := id }

/-- The message of each group. -/
def ofGroups (id : Str) : List (List Str) → List (Option Message)
  | [] => []
  | group :: rest => message (lastId id group) group :: ofGroups (lastId id group) rest

theorem fields_append (label : String) (g g' : List Str) :
    fields label (g ++ g') = fields label g ++ fields label g' :=
  List.filter_append ..

theorem dataValues_append (g g' : List Str) : dataValues (g ++ g') = dataValues g ++
    dataValues g' := by
  rw [dataValues, fields_append, List.map_append]
  rfl

theorem eventType_concat (g : List Str) (line : Str) :
    eventType (g ++ [line]) = if name line = Str.ofString "event" then value line
    else eventType g := by
  simp only [eventType, fields_append, List.map_append]
  split_ifs with h <;> simp [fields, h]

theorem lastId_concat (id : Str) (g : List Str) (line : Str) :
    lastId id (g ++ [line]) = if name line = Str.ofString "id" ∧ 0 ∉ value line then value line
    else lastId id g := by
  simp only [lastId, fields_append, List.map_append, List.filter_append]
  split_ifs with h
  · simp [fields, h.1, h.2]
  · by_cases hname : name line = Str.ofString "id"
    · simp [fields, hname] at h ⊢
      simp [h]
    · simp [fields, hname]

/-- The buffers after the lines of a group. -/
theorem foldl_field (id : Str) (g : List Str) :
    g.foldl Buffers.field { lastEventId := id } = ⟨(dataValues g).flatMap (· ++ [10]), eventType g,
    lastId id g⟩ := by
  have hevent : Str.ofString "event" ≠ Str.ofString "data" ∧
    Str.ofString "event" ≠ Str.ofString "id" ∧
    Str.ofString "data" ≠ Str.ofString "id" := by decide
  induction g using List.reverseRecOn with
  | nil => rfl
  | append_singleton g line ih =>
    rw [List.foldl_append, ih, List.foldl_cons, List.foldl_nil, dataValues_append, eventType_concat,
      lastId_concat]
    unfold Buffers.field
    split_ifs <;> simp_all [dataValues, fields]

theorem flatMap_terminated {values : List Str} (h : values ≠ []) :
    values.flatMap (· ++ [10]) = [10].intercalate values ++ [10] := by
  induction values with
  | nil => exact absurd rfl h
  | cons v values ih =>
    cases values with
    | nil => simp [List.intercalate]
    | cons w values =>
      rw [List.flatMap_cons, ih (List.cons_ne_nil _ _)]
      simp [List.intercalate]

theorem dispatch_group (id : Str) (g : List Str) :
    (Buffers.mk ((dataValues g).flatMap (· ++ [10])) (eventType g) id).dispatch = message id g := by
  unfold Buffers.dispatch message
  by_cases h : dataValues g = []
  · rw [if_pos h, h]
    rfl
  · simp [flatMap_terminated h, h]

/-- The messages of the lines are those of their groups. -/
theorem interpret_eq (id : Str) (begun ls : List Str) :
    interpret (begun.foldl Buffers.field { lastEventId := id }) ls =
      (ofGroups id (groups begun ls)).reduceOption := by
  induction ls generalizing id begun with
  | nil => rfl
  | cons line ls ih =>
    rw [interpret, groups]
    split_ifs with hempty
    · have hnext := ih (lastId id begun) []
      rw [foldl_field, dispatch_group, ofGroups]
      cases hmessage : message (lastId id begun) begun with
      | none =>
        rw [List.reduceOption_cons_of_none]
        exact hnext
      | some m =>
        rw [List.reduceOption_cons_of_some]
        exact congrArg (m :: ·) hnext
    · have hnext := ih id (begun ++ [line])
      rwa [List.foldl_append] at hnext

theorem messages_eq (text : Str) :
    messages text = (ofGroups [] (groups [] (lines text))).reduceOption :=
  interpret_eq [] [] (lines text)

theorem newline_not_mem_lines (s : Str) : ∀ line ∈ lines s, 10 ∉ line := by
  induction s with
  | nil => exact nofun
  | cons c s ih =>
    rw [lines]
    split_ifs with hcrlf hend
    · exact ih
    · exact List.forall_mem_cons.2 ⟨List.not_mem_nil, ih⟩
    · cases hlines : lines s with
      | nil => exact nofun
      | cons line rest =>
        rw [hlines, List.forall_mem_cons] at ih
        refine List.forall_mem_cons.2 ⟨?_, ih.2⟩
        rw [List.mem_cons, not_or]
        exact ⟨fun hc => hend (.inl hc.symm), ih.1⟩

theorem forall_mem_groups {p : Str → Prop} {begun ls : List Str} (hbegun : ∀ line ∈ begun, p line)
    (hls : ∀ line ∈ ls, p line) :
    ∀ g ∈ groups begun ls, ∀ line ∈ g, p line := by
  induction ls generalizing begun with
  | nil => exact nofun
  | cons line ls ih =>
    obtain ⟨hline, hls⟩ := List.forall_mem_cons.1 hls
    rw [groups]
    split_ifs
    · exact List.forall_mem_cons.2 ⟨hbegun, ih nofun hls⟩
    · exact ih (List.forall_mem_append.2 ⟨hbegun, List.forall_mem_singleton.2 hline⟩) hls

/-- A reader that skips empty lines may be given one more. -/
theorem filterMap_groups_empty {β : Type*} {f : List Str → Option β} (hf : ∀ g, f ([] :: g) = f g)
    (begun ls : List Str) :
    (groups ([] :: begun) ls).filterMap f = (groups begun ls).filterMap f := by
  induction ls generalizing begun with
  | nil => rfl
  | cons line ls ih =>
    rw [groups, groups]
    split_ifs with hempty
    · rw [List.filterMap_cons, List.filterMap_cons, hf]
    · rw [List.cons_append, ih]

/-- Lists of which one has a value wherever the other has are equal when their values are. -/
theorem reduceOption_eq_iff {α : Type*} {xs ys : List (Option α)}
    (h : List.Forall₂ (fun x y => x.isSome → y.isSome) xs ys) : xs.reduceOption = ys.reduceOption ↔
    xs = ys := by
  refine ⟨fun heq => ?_, congrArg _⟩
  induction h with
  | nil => rfl
  | @cons x y xs ys hxy hrest ih =>
    have hle : xs.reduceOption.length ≤ ys.reduceOption.length := by
      clear heq ih
      induction hrest with
      | nil => exact Nat.le_refl _
      | @cons x y xs ys hxy _ ih =>
        cases x <;> cases y <;> simp_all
          [List.reduceOption_cons_of_some, List.reduceOption_cons_of_none]
        omega
    cases x with
    | none =>
      cases y with
      | none => rw [ih heq]
      | some b =>
        have hlength := congrArg List.length heq
        rw [List.reduceOption_cons_of_none, List.reduceOption_cons_of_some,
          List.length_cons] at hlength
        omega
    | some a =>
      cases y with
      | none => cases hxy rfl
      | some b =>
        rw [List.reduceOption_cons_of_some, List.reduceOption_cons_of_some] at heq
        obtain ⟨rfl, hxs⟩ := List.cons.inj heq
        rw [ih hxs]

end EventSource
