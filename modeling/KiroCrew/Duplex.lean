import KiroCrew.Shell

/-!
# The queue of a duplex connection

The handlers of a WebSocket put events into an `AsyncEventQueue`, its consumer calls `next`. A call
that finds nothing waits, and what comes next settles it. `delivers_iff` says for which orders of
the calls each `next` gets its value, and the end of the queue after them: a failure must not meet a
waiting consumer, whose call `close` settles with a clean end, and nothing may be pushed, or fail
otherwise, between the end and a call that asks for it. The handlers of `openWebSocket` push nothing
after the end (`pushes_of_ended`), but the rest they leave to chance: `duplex_delivers_iff`.
-/

namespace KiroCrew.Shell

/-- How a promise of `next` is settled. -/
inductive IteratorResult (α ε : Type*)
  | value (v : α)
  | done
  | rejected (error : ε)
deriving DecidableEq, Repr

structure AsyncEventQueue (α ε : Type*) where
  values : List α := []
  /-- the calls of `next` that wait, by their number -/
  waiters : List ℕ := []
  closed : Bool := false
  error : Option ε := none

inductive QueueOp (α ε : Type*)
  | push (value : α)
  | fail (error : ε)
  | close
  | next
deriving DecidableEq, Repr

namespace AsyncEventQueue

variable {α ε : Type*}

/-- A queue, and the promises that an operation has settled. -/
abbrev Settling (α ε : Type*) := AsyncEventQueue α ε × List (IteratorResult α ε × ℕ)

def push (q : AsyncEventQueue α ε) (value : α) : Settling α ε :=
  match q.waiters with
  | [] => ({ q with values := q.values ++ [value] }, [])
  | waiter :: waiters => ({ q with waiters }, [(.value value, waiter)])

def close (q : AsyncEventQueue α ε) : Settling α ε :=
  ({ q with closed := true, waiters := [] }, q.waiters.map fun waiter => (.done, waiter))

def fail (q : AsyncEventQueue α ε) (error : ε) : Settling α ε :=
  close { q with error := some error }

def next (q : AsyncEventQueue α ε) (call : ℕ) : Settling α ε :=
  match q.values with
  | value :: values => ({ q with values }, [(.value value, call)])
  | [] =>
    match q.error with
    | some error => (q, [(.rejected error, call)])
    | none =>
      if q.closed then (q, [(.done, call)]) else ({ q with waiters := q.waiters ++ [call] }, [])

/-- The operations in turn; `call` is the number of the next call of `next`. -/
def run (q : AsyncEventQueue α ε) (call : ℕ) : List (QueueOp α ε) → List (IteratorResult α ε × ℕ)
  | [] => []
  | .push value :: ops => (q.push value).2 ++ run (q.push value).1 call ops
  | .fail error :: ops => (q.fail error).2 ++ run (q.fail error).1 call ops
  | .close :: ops => q.close.2 ++ run q.close.1 call ops
  | .next :: ops => (q.next call).2 ++ run (q.next call).1 (call + 1) ops

end AsyncEventQueue

/-- What a call gets after this operation has ended the queue. -/
def QueueOp.ending {α ε : Type*} : QueueOp α ε → Option (IteratorResult α ε)
  | .fail error => some (.rejected error)
  | .close => some .done
  | _ => none

section Owed

variable {α ε : Type*}

/-- The number of the calls of `next`. -/
def calls : List (QueueOp α ε) → ℕ
  | [] => 0
  | .next :: ops => calls ops + 1
  | .push _ :: ops | .fail _ :: ops | .close :: ops => calls ops

def pushes : List (QueueOp α ε) → List α
  | [] => []
  | .push value :: ops => value :: pushes ops
  | .fail _ :: ops | .close :: ops | .next :: ops => pushes ops

def failures : List (QueueOp α ε) → List ε
  | [] => []
  | .fail error :: ops => error :: failures ops
  | .push _ :: ops | .close :: ops | .next :: ops => failures ops

/-- What the calls should get, in their order: the values pushed before the end, then the end. -/
def owed (ops : List (QueueOp α ε)) : List (IteratorResult α ε) :=
  let (opened, ended) := ops.span fun op => op.ending.isNone
  let values := (pushes opened).map IteratorResult.value
  values.take (calls ops) ++
    match ended.head?.bind QueueOp.ending with
    | none => []
    | some t => List.replicate (calls ops - values.length) t

/-- The promises are settled in the order of their calls, each with what it should get. -/
def Delivers (ops : List (QueueOp α ε)) : Prop :=
  ({} : AsyncEventQueue α ε).run 0 ops = (owed ops).zipIdx

/-- The queue ends with `op` after `opened`: a failure meets nobody who waits; and when a call asks
for more than was pushed before the end, nothing was pushed after it and the last failure is the one
that ended it. -/
structure EndsWell (opened : List (QueueOp α ε)) (op : QueueOp α ε) (ops : List (QueueOp α ε)) :
    Prop where
  heard : failures [op] ≠ [] → calls opened ≤ (pushes opened).length
  asked : ∀ before after, ops = before ++ .next :: after → (pushes opened).length ≤ calls opened +
    calls before →
    pushes before = [] ∧ (failures (op :: before)).getLast? = (failures [op]).getLast?

def Orderly (ops : List (QueueOp α ε)) : Prop :=
  ∀ opened op rest, ops = opened ++ op :: rest → (∀ o ∈ opened, o.ending = none) →
    op.ending ≠ none → EndsWell opened op rest

end Owed

variable {α ε : Type*}

/-! ## Before the end -/

namespace AsyncEventQueue

/-- The open queue after the values `all` were pushed and `n` calls made. -/
def openAt (all : List α) (n : ℕ) : AsyncEventQueue α ε where
  values := all.drop n
  waiters := List.range' all.length (n - all.length)

theorem push_openAt (all : List α) (n : ℕ) (v : α) :
    ((openAt all n).push v : Settling α ε).1 = openAt (all ++ [v]) n ∧
      ((all.map IteratorResult.value).take n).zipIdx ++ ((openAt all n).push v : Settling α ε).2 =
        (((all ++ [v]).map IteratorResult.value).take n).zipIdx := by
  rcases Nat.lt_or_ge all.length n with hwait | hnone
  · obtain ⟨k, rfl⟩ := Nat.exists_eq_add_of_lt hwait
    have hwaiters : List.range' all.length (all.length + k + 1 - all.length) = all.length ::
        List.range' (all.length + 1) k := by
      rw [show all.length + k + 1 - all.length = k + 1 by omega, List.range'_succ]
    have hleft : all.length + k + 1 - (all.length + 1) = k := by omega
    have hdrop : all.drop (all.length + k + 1) = [] := List.drop_eq_nil_of_le (by omega)
    have hdrop' : (all ++ [v]).drop (all.length + k + 1) = [] := List.drop_eq_nil_of_le (by simp)
    simp only [push, openAt, hwaiters, hdrop, hdrop', List.length_append, List.length_singleton,
      hleft, true_and]
    rw [List.take_of_length_le (by simp; omega), List.take_of_length_le (by simp), List.map_append,
      List.zipIdx_append]
    simp
  · have hwaiters : n - all.length = 0 := by omega
    have hwaiters' : n - (all.length + 1) = 0 := by omega
    simp only [push, openAt, hwaiters, List.range'_zero, List.length_append, List.length_singleton,
      hwaiters', List.append_nil]
    rw [List.drop_append_of_le_length hnone, List.map_append, List.take_append_of_le_length
      (by simpa using hnone)]
    exact ⟨rfl, rfl⟩

theorem next_openAt (all : List α) (n : ℕ) :
    ((openAt all n).next n : Settling α ε).1 = openAt all (n + 1) ∧
      ((all.map IteratorResult.value).take n).zipIdx ++ ((openAt all n).next n : Settling α ε).2 =
        ((all.map IteratorResult.value).take (n + 1)).zipIdx := by
  rcases Nat.lt_or_ge n all.length with hvalue | hnone
  · have hdrop : all.drop n = all[n] :: all.drop (n + 1) := List.drop_eq_getElem_cons hvalue
    have hwaiters : n - all.length = 0 := by omega
    have hwaiters' : n + 1 - all.length = 0 := by omega
    have htake : (all.map IteratorResult.value).take (n + 1) =
        (all.map IteratorResult.value).take n ++
        [(IteratorResult.value all[n] : IteratorResult α ε)] := by
      rw [List.take_succ_eq_append_getElem (by simpa using hvalue), List.getElem_map]
    have hlength : ((all.map (IteratorResult.value (ε := ε))).take n).length = n := by simp; omega
    simp only [next, openAt, hdrop, hwaiters, hwaiters', htake, List.zipIdx_append, hlength]
    simp
  · have hdrop : all.drop n = [] := List.drop_eq_nil_of_le hnone
    have hdrop' : all.drop (n + 1) = [] := List.drop_eq_nil_of_le (by omega)
    have hwaiters : List.range' all.length (n + 1 - all.length) = List.range' all.length
        (n - all.length) ++ [n] := by
      rw [show n + 1 - all.length = n - all.length + 1 by omega, List.range'_concat]
      simp
      omega
    simp only [next, openAt, hdrop, hdrop', hwaiters, List.append_nil, Bool.false_eq_true,
      if_false, true_and]
    rw [List.take_of_length_le (by simpa using hnone), List.take_of_length_le (by simp; omega)]

/-- Up to the end each call has its value, and the calls that got none wait. -/
theorem run_openAt (opened rest : List (QueueOp α ε)) (h : ∀ o ∈ opened, o.ending = none)
    (all : List α) (n : ℕ) :
    ((all.map IteratorResult.value).take n).zipIdx ++ (openAt all n).run n (opened ++ rest) =
      (((all ++ pushes opened).map IteratorResult.value).take (n + calls opened)).zipIdx ++
        (openAt (all ++ pushes opened) (n + calls opened)).run (n + calls opened) rest := by
  induction opened generalizing all n with
  | nil => simp [calls, pushes]
  | cons o opened ih =>
    obtain ⟨ho, hopened⟩ := List.forall_mem_cons.1 h
    cases o with
    | push v =>
      obtain ⟨hqueue, hsettled⟩ := push_openAt (ε := ε) all n v
      rw [List.cons_append, run, ← List.append_assoc, hsettled, hqueue, ih hopened, calls, pushes,
        List.append_assoc]
      rfl
    | next =>
      obtain ⟨hqueue, hsettled⟩ := next_openAt (ε := ε) all n
      have hcalls : n + calls (QueueOp.next :: opened) = n + 1 + calls opened := by
        rw [calls]
        omega
      rw [List.cons_append, run, ← List.append_assoc, hsettled, hqueue, ih hopened, hcalls, pushes]
    | fail e => cases ho
    | close => cases ho

/-! ## After the end -/

/-- What a call gets that finds no value after the end. -/
def endOf : Option ε → IteratorResult α ε
  | some e => .rejected e
  | none => .done

theorem endOf_inj {e e' : Option ε} : (endOf e : IteratorResult α ε) = endOf e' ↔ e = e' := by
  cases e <;> cases e' <;> simp [endOf]

/-- The first `n` answers after the end, when the values `us` are left. -/
def answers (us : List α) (t : IteratorResult α ε) (n : ℕ) : List (IteratorResult α ε) :=
  (us.map IteratorResult.value).take n ++ List.replicate (n - us.length) t

theorem forall_split_cons {o : QueueOp α ε} {ops : List (QueueOp α ε)}
    {P : List (QueueOp α ε) → Prop} :
    (∀ before after, o :: ops = before ++ .next :: after → P before) ↔
      (o = .next → P []) ∧ ∀ before after, ops = before ++ .next :: after → P (o :: before) := by
  constructor
  · intro h
    refine ⟨fun ho => h [] ops (by rw [ho, List.nil_append]), fun before after heq =>
      h (o :: before) after ?_⟩
    rw [heq, List.cons_append]
  · rintro ⟨hfirst, hlater⟩ before after heq
    cases before with
    | nil => exact hfirst (List.cons.inj heq).1
    | cons o' before =>
      obtain ⟨rfl, hops⟩ := List.cons.inj heq
      exact hlater before after hops

/-- The closed queue, with the values `us` of before the end and `ps` of after it. -/
def shut (us ps : List α) (error : Option ε) : AsyncEventQueue α ε where
  values := us ++ ps
  closed := true
  error := error

/-- No value of after the end is asked for, and the error is that of the end. -/
def Asked (us ps : List α) (e e₀ : Option ε) (before : List (QueueOp α ε)) : Prop :=
  us.length ≤ calls before → ps ++ pushes before = [] ∧ (failures before).getLast?.or e = e₀

theorem run_shut (ops : List (QueueOp α ε)) (us ps : List α) (e e₀ : Option ε) (call : ℕ) :
    (shut us ps e).run call ops = (answers us (endOf e₀) (calls ops)).zipIdx call ↔
      ∀ before after, ops = before ++ .next :: after → Asked us ps e e₀ before := by
  induction ops generalizing us ps e call with
  | nil => simp [run, calls, answers]
  | cons o ops ih =>
    rw [forall_split_cons]
    cases o with
    | push v =>
      have hrun : (shut us ps e).run call (.push v :: ops) =
          (shut us (ps ++ [v]) e).run call ops := by
        simp [run, push, shut]
      rw [hrun, calls, ih]
      simp [Asked, calls, pushes, failures]
    | fail e' =>
      have hrun : (shut us ps e).run call (.fail e' :: ops) =
          (shut us ps (some e')).run call ops := by
        simp [run, fail, close, shut]
      have hlast : ∀ before : List (QueueOp α ε),
          (failures (.fail e' :: before)).getLast?.or e = (failures before).getLast?.or
          (some e') := by
        intro before
        rw [failures, List.getLast?_cons]
        cases (failures before).getLast? <;> rfl
      rw [hrun, calls, ih]
      simp [Asked, calls, pushes, hlast]
    | close =>
      have hrun : (shut us ps e).run call (.close :: ops) = (shut us ps e).run call ops := by
        simp [run, close, shut]
      rw [hrun, calls, ih]
      simp [Asked, calls, pushes, failures]
    | next =>
      cases us with
      | cons u us =>
        have hrun : (shut (u :: us) ps e).run call (.next :: ops) = (.value u, call) ::
            (shut us ps e).run (call + 1) ops := by
          simp [run, next, shut]
        have hanswers : (answers (u :: us) (endOf e₀) (calls (.next :: ops))).zipIdx call =
            (IteratorResult.value u, call) :: (answers us (endOf e₀) (calls ops)).zipIdx
            (call + 1) := by
          simp [answers, calls]
        rw [hrun, hanswers, List.cons.injEq, ih]
        simp [Asked, calls, pushes, failures]
      | nil =>
        have hanswers : (answers [] (endOf e₀) (calls (.next :: ops))).zipIdx call =
            (endOf e₀, call) :: (answers ([] : List α) (endOf e₀) (calls ops)).zipIdx
            (call + 1) := by
          simp [answers, calls, List.replicate_succ]
        rw [hanswers]
        cases ps with
        | cons p ps =>
          have hrun : (shut [] (p :: ps) e).run call (.next :: ops) =
              (.value p, call) :: (shut [] ps e).run (call + 1) ops := by
            simp [run, next, shut]
          rw [hrun]
          cases e₀ <;> simp [endOf, Asked, calls]
        | nil =>
          have hrun : (shut ([] : List α) [] e).run call (.next :: ops) =
              (endOf e, call) :: (shut [] [] e).run (call + 1) ops := by
            cases e <;> simp [run, next, shut, endOf]
          rw [hrun, List.cons.injEq, ih, Prod.mk.injEq, endOf_inj]
          simp [Asked, calls, pushes, failures]

/-- What is settled when the queue ends, and after it. -/
theorem run_end (all : List α) (n : ℕ) {op : QueueOp α ε} (hop : op.ending ≠ none)
    (rest : List (QueueOp α ε)) :
    (openAt all n).run n (op :: rest) = (List.range' all.length (n - all.length)).map
      (fun waiter => (.done, waiter)) ++
      (shut (all.drop n) [] (failures [op]).head?).run n rest := by
  cases op with
  | push v => exact absurd rfl hop
  | next => exact absurd rfl hop
  | close => simp [run, close, openAt, shut, failures]
  | fail e => simp [run, fail, close, openAt, shut, failures]

end AsyncEventQueue

open AsyncEventQueue

theorem ending_eq {op : QueueOp α ε} (hop : op.ending ≠ none) :
    op.ending = some (endOf (failures [op]).head?) := by
  cases op with
  | push v => exact absurd rfl hop
  | next => exact absurd rfl hop
  | close => rfl
  | fail e => rfl

theorem span_of_ended {opened rest : List (QueueOp α ε)} {op : QueueOp α ε}
    (hopened : ∀ o ∈ opened, o.ending = none)
    (hop : op.ending ≠ none) : (opened ++ op :: rest).span (fun o => o.ending.isNone) =
    (opened, op :: rest) := by
  have htrue : ∀ o ∈ opened, o.ending.isNone = true := fun o ho => by rw [hopened o ho]; rfl
  have hfalse : op.ending.isNone = false := by
    rwa [Option.isNone_eq_false_iff, Option.isSome_iff_ne_none]
  rw [List.span_eq_takeWhile_dropWhile, List.takeWhile_append_of_pos htrue,
    List.dropWhile_append_of_pos htrue,
    List.takeWhile_cons, List.dropWhile_cons, hfalse]
  simp

theorem calls_append (ops ops' : List (QueueOp α ε)) : calls (ops ++ ops') = calls ops +
    calls ops' := by
  induction ops with
  | nil => simp [calls]
  | cons op ops ih =>
    cases op with
    | next =>
      simp only [List.cons_append, calls, ih]
      omega
    | push v => exact ih
    | fail e => exact ih
    | close => exact ih

theorem calls_of_ended {op : QueueOp α ε} (hop : op.ending ≠ none) (ops : List (QueueOp α ε)) :
    calls (op :: ops) = calls ops := by
  cases op with
  | next => exact absurd rfl hop
  | push v => rfl
  | fail e => rfl
  | close => rfl

/-- Up to the end, to those who wait at the end, and after it. -/
theorem owed_of_ended {opened rest : List (QueueOp α ε)} {op : QueueOp α ε}
    (hopened : ∀ o ∈ opened, o.ending = none)
    (hop : op.ending ≠ none) : owed (opened ++ op :: rest) =
      ((pushes opened).map IteratorResult.value).take (calls opened) ++
        List.replicate (calls opened - (pushes opened).length) (endOf (failures [op]).head?) ++
          answers ((pushes opened).drop (calls opened)) (endOf (failures [op]).head?)
            (calls rest) := by
  rw [owed, span_of_ended hopened hop, calls_append, calls_of_ended hop]
  simp only [List.head?_cons, Option.bind_some, ending_eq hop, answers, List.length_map,
    List.length_drop, List.map_drop]
  rcases Nat.le_total (pushes opened).length (calls opened) with hle | hle
  · have hnone : calls rest - ((pushes opened).length - calls opened) = calls rest := by omega
    have hdrop : ((pushes opened).map (IteratorResult.value (ε := ε))).drop (calls opened) = [] :=
      List.drop_eq_nil_of_le (by simpa using hle)
    rw [hnone, hdrop, List.take_nil, List.nil_append, List.append_assoc,
      List.replicate_append_replicate,
      List.take_of_length_le (by simp; omega), List.take_of_length_le (by simpa using hle)]
    congr 2
    omega
  · have hnone : calls opened - (pushes opened).length = 0 := by omega
    have hrest : calls opened + calls rest - (pushes opened).length = calls rest -
        ((pushes opened).length - calls opened) := by
      omega
    rw [hnone, hrest, List.replicate_zero, List.append_nil, ← List.append_assoc, List.take_add]

theorem failures_cons_getLast? (op : QueueOp α ε) (before : List (QueueOp α ε)) :
    (failures (op :: before)).getLast? = (failures before).getLast?.or (failures [op]).head? := by
  cases op with
  | fail e =>
    rw [failures, List.getLast?_cons]
    cases (failures before).getLast? <;> rfl
  | push v => simp [failures]
  | close => simp [failures]
  | next => simp [failures]

theorem zipIdx_replicate {β : Type*} (t : β) (m n : ℕ) :
    (List.replicate n t).zipIdx m = (List.range' m n).map fun i => (t, i) := by
  induction n generalizing m with
  | zero => rfl
  | succ n ih => rw [List.replicate_succ, List.zipIdx_cons, ih, List.range'_succ, List.map_cons]

/-- Who waits at the end gets a clean end. -/
theorem waiters_iff {op : QueueOp α ε} (hop : op.ending ≠ none) (m n : ℕ) :
    (List.range' m (n - m)).map (fun waiter => ((.done, waiter) : IteratorResult α ε × ℕ)) =
      (List.replicate (n - m) (endOf (failures [op]).head?)).zipIdx m ↔
      (failures [op] ≠ [] → n ≤ m) := by
  rw [zipIdx_replicate]
  cases op with
  | push v => exact absurd rfl hop
  | next => exact absurd rfl hop
  | close => simp [failures, endOf]
  | fail e =>
    rcases Nat.le_total n m with hle | hle
    · simp [hle]
    · obtain ⟨k, rfl⟩ := Nat.exists_eq_add_of_le hle
      cases k with
      | zero => simp
      | succ k => simp [failures, endOf, List.range'_succ]

theorem delivers_of_ended {opened rest : List (QueueOp α ε)} {op : QueueOp α ε}
    (hopened : ∀ o ∈ opened, o.ending = none)
    (hop : op.ending ≠ none) : Delivers (opened ++ op :: rest) ↔ EndsWell opened op rest := by
  have hrun := run_openAt opened (op :: rest) hopened [] 0
  simp only [List.map_nil, List.take_nil, List.zipIdx_nil, List.nil_append, Nat.zero_add,
    run_end _ _ hop] at hrun
  have hasked : ∀ before, Asked ((pushes opened).drop (calls opened)) [] (failures [op]).head?
    (failures [op]).head? before ↔
      ((pushes opened).length ≤ calls opened + calls before → pushes before = [] ∧
        (failures (op :: before)).getLast? = (failures [op]).getLast?) := by
    intro before
    rw [Asked, List.length_drop, Nat.sub_le_iff_le_add', failures_cons_getLast?,
      failures_cons_getLast? op []]
    simp [failures]
  have hlength : 0 + (((pushes opened).map (IteratorResult.value (ε := ε))).take
    (calls opened)).length =
      min (calls opened) (pushes opened).length := by simp
  rw [Delivers, show ({} : AsyncEventQueue α ε) = openAt [] 0 from rfl, hrun,
    owed_of_ended hopened hop, List.zipIdx_append,
    List.zipIdx_append, List.append_assoc, List.append_cancel_left_eq, hlength]
  have hwaiters := waiters_iff hop (pushes opened).length (calls opened)
  have hshut := run_shut rest ((pushes opened).drop (calls opened)) [] (failures [op]).head?
    (failures [op]).head? (calls opened)
  simp only [hasked] at hshut
  have hends : EndsWell opened op rest ↔
    (failures [op] ≠ [] → calls opened ≤ (pushes opened).length) ∧
      ∀ before after, rest = before ++ .next :: after → (pushes opened).length ≤ calls opened +
      calls before →
        pushes before = [] ∧ (failures (op :: before)).getLast? = (failures [op]).getLast? :=
    ⟨fun h => ⟨h.heard, h.asked⟩, fun h => ⟨h.1, h.2⟩⟩
  rw [hends, ← hwaiters, ← hshut]
  rcases Nat.le_total (calls opened) (pushes opened).length with hle | hle
  · have hnone : calls opened - (pushes opened).length = 0 := by omega
    simp [hnone, Nat.min_eq_left hle]
  · have hcalls : (pushes opened).length + (calls opened - (pushes opened).length) =
      calls opened := by omega
    simp only [Nat.min_eq_right hle, List.length_append, List.length_replicate, List.length_take,
      List.length_map, Nat.zero_add,
      hcalls]
    refine ⟨fun h => List.append_inj h (by simp), ?_⟩
    rintro ⟨hwait, hrest⟩
    rw [hwait, hrest]

theorem delivers_of_open {ops : List (QueueOp α ε)} (h : ∀ o ∈ ops, o.ending = none) :
    Delivers ops := by
  have hrun := run_openAt ops [] h [] 0
  have htrue : ∀ o ∈ ops, o.ending.isNone = true := fun o ho => by rw [h o ho]; rfl
  have hspan : ops.span (fun o => o.ending.isNone) = (ops, []) := by
    rw [List.span_eq_takeWhile_dropWhile, List.takeWhile_eq_self_iff.2 htrue,
      List.dropWhile_eq_nil_iff.2 htrue]
  simp only [List.map_nil, List.take_nil, List.zipIdx_nil, List.nil_append, Nat.zero_add,
    List.append_nil, run] at hrun
  rw [Delivers, show ({} : AsyncEventQueue α ε) = openAt [] 0 from rfl, hrun, owed, hspan]
  simp

/-- The first operation that ends the queue, if one does. -/
theorem open_or_ended (ops : List (QueueOp α ε)) : (∀ o ∈ ops, o.ending = none) ∨
    ∃ opened op rest, ops = opened ++ op :: rest ∧ (∀ o ∈ opened, o.ending = none) ∧
    op.ending ≠ none := by
  induction ops with
  | nil => exact .inl nofun
  | cons o ops ih =>
    by_cases ho : o.ending = none
    · rcases ih with hall | ⟨opened, op, rest, rfl, hopened, hop⟩
      · exact .inl (List.forall_mem_cons.2 ⟨ho, hall⟩)
      · exact .inr ⟨o :: opened, op, rest, rfl, List.forall_mem_cons.2 ⟨ho, hopened⟩, hop⟩
    · exact .inr ⟨[], o, ops, rfl, nofun, ho⟩

theorem orderly_of_delivers {ops : List (QueueOp α ε)} (h : Delivers ops) : Orderly ops := by
  rintro opened op rest rfl hopened hop
  exact (delivers_of_ended hopened hop).1 h

theorem delivers_of_orderly {ops : List (QueueOp α ε)} (h : Orderly ops) : Delivers ops := by
  rcases open_or_ended ops with hall | ⟨opened, op, rest, rfl, hopened, hop⟩
  · exact delivers_of_open hall
  · exact (delivers_of_ended hopened hop).2 (h opened op rest rfl hopened hop)

/-- Every call of `next` is settled as it should be exactly when the operations are orderly. -/
theorem delivers_iff (ops : List (QueueOp α ε)) : Delivers ops ↔ Orderly ops := by
  constructor
  · exact orderly_of_delivers
  · exact delivers_of_orderly

/-- A consumer that waits when the connection fails is told that it has ended. -/
theorem waiting_consumer_hears_done :
    ¬ Delivers [QueueOp.next, QueueOp.fail (), QueueOp.close (α := Unit)] := by
  unfold Delivers
  decide

/-! ## The handlers -/

/-- An `AgentCoreConnectionError` with the code `TRANSPORT_FAILED`. -/
structure TransportFailed where
  message : Str
  retryable : Bool
deriving DecidableEq, Repr

def connectionFailed : TransportFailed := ⟨Str.ofString "The runtime connection failed.", true⟩

def invalidMessage : TransportFailed :=
  ⟨Str.ofString "The runtime returned an invalid message.", false⟩

/-- What happens to an open duplex: events of the socket, the abort signal, and the calls of the
consumer. -/
inductive DuplexEvent
  /-- a text frame, or one that is none -/
  | message (text : Option Str)
  | close
  | error
  | abort
  /-- `close` of the duplex -/
  | hangUp
  | next

structure Duplex where
  stream : RuntimeEventStream := {}
  /-- the ready state of the socket is `OPEN` -/
  isOpen : Bool := true
  /-- the handlers that run once have run -/
  closed : Bool := false
  failed : Bool := false

/-- The error of an envelope that belongs to no request. -/
def connectionError (envelope : ProtocolEnvelope) : Option TransportFailed :=
  match envelope.operation, envelope.requestId with
  | .string operation, none =>
    if operation = Str.ofString "error" then
      some {
        message := match Js.get envelope.payload (Str.ofString "message") with
          | some (.string message) => message
          | _ => Str.ofString "The runtime connection failed."
        retryable := match Js.get envelope.payload (Str.ofString "retryable") with
          | some (.bool retryable) => retryable
          | _ => false }
    else none
  | _, _ => none

/-- The event of a message, or what the queue fails with. -/
def onMessage (dateParse : Str → Bool) (stream : RuntimeEventStream) (text : Option Str) :
    Except TransportFailed (RuntimeEventStream × Option Event) :=
  match text.bind Js.parse with
  | none => .error invalidMessage
  | some v =>
    match validateEnvelope dateParse v with
    | .error _ => .error invalidMessage
    | .ok wire =>
      match stream.accept wire with
      | .error _ => .error invalidMessage
      | .ok (stream, none) => .ok (stream, none)
      | .ok (stream, some item) =>
        match connectionError item.envelope with
        | some error => .error error
        | none => .ok (stream, item.event)

namespace Duplex

/-- A socket that is not open any more delivers no message. -/
def handle (dateParse : Str → Bool) (d : Duplex) : DuplexEvent →
    Duplex × Option (QueueOp Event TransportFailed)
  | .message text =>
    if d.isOpen then
      match onMessage dateParse d.stream text with
      | .error error => ({ d with isOpen := false }, some (.fail error))
      | .ok (stream, event) => ({ d with stream := stream }, event.map .push)
    else (d, none)
  | .close =>
    if d.closed then (d, none) else ({ d with isOpen := false, closed := true }, some .close)
  | .error =>
    if d.failed then (d, none)
      else ({ d with isOpen := false, failed := true }, some (.fail connectionFailed))
  | .abort => ({ d with isOpen := false }, none)
  | .hangUp => ({ d with isOpen := false }, some .close)
  | .next => (d, some .next)

/-- The operations on the queue. -/
def ops (dateParse : Str → Bool) (d : Duplex) : List DuplexEvent →
    List (QueueOp Event TransportFailed)
  | [] => []
  | event :: events =>
    (d.handle dateParse event).2.toList ++ ops dateParse (d.handle dateParse event).1 events

variable {dateParse : Str → Bool} {d : Duplex}

theorem handle_of_not_open (h : d.isOpen = false) (event : DuplexEvent) :
    (d.handle dateParse event).1.isOpen = false ∧
    pushes (d.handle dateParse event).2.toList = [] := by
  cases event with
  | message text => simp [handle, h, pushes]
  | close =>
    simp only [handle]
    split_ifs <;> simp [h, pushes]
  | error =>
    simp only [handle]
    split_ifs <;> simp [h, pushes]
  | abort => simp [handle, pushes]
  | hangUp => simp [handle, pushes]
  | next => simp [handle, h, pushes]

/-- What ends the queue comes from a socket that is not open afterwards. -/
theorem handle_ending {event : DuplexEvent} {op : QueueOp Event TransportFailed}
    (h : (d.handle dateParse event).2 = some op)
    (hop : op.ending ≠ none) : (d.handle dateParse event).1.isOpen = false := by
  cases event with
  | message text =>
    simp only [handle] at h ⊢
    split_ifs at h ⊢ with hopen
    cases hmessage : onMessage dateParse d.stream text with
    | error error => rfl
    | ok p =>
      obtain ⟨stream, event⟩ := p
      rw [hmessage] at h
      obtain ⟨value, -, rfl⟩ := Option.map_eq_some_iff.1 h
      exact absurd rfl hop
  | close =>
    simp only [handle] at h ⊢
    split_ifs at h ⊢
    rfl
  | error =>
    simp only [handle] at h ⊢
    split_ifs at h ⊢
    rfl
  | abort => rfl
  | hangUp => rfl
  | next =>
    cases h
    exact absurd rfl hop

theorem pushes_append (ops ops' : List (QueueOp α ε)) : pushes (ops ++ ops') = pushes ops ++
    pushes ops' := by
  induction ops with
  | nil => rfl
  | cons op ops ih => cases op <;> simp [pushes, ih]

theorem pushes_of_not_open (h : d.isOpen = false) (events : List DuplexEvent) :
    pushes (d.ops dateParse events) = [] := by
  induction events generalizing d with
  | nil => rfl
  | cons event events ih =>
    obtain ⟨hopen, hpushes⟩ := @handle_of_not_open dateParse d h event
    rw [ops, pushes_append, hpushes, ih hopen, List.append_nil]

/-- Nothing is pushed after the end. -/
theorem pushes_of_ended {events : List DuplexEvent}
    {opened rest : List (QueueOp Event TransportFailed)}
    {op : QueueOp Event TransportFailed} (h : d.ops dateParse events = opened ++ op :: rest)
    (hop : op.ending ≠ none) :
    pushes rest = [] := by
  induction events generalizing d opened with
  | nil => simp [ops] at h
  | cons event events ih =>
    rw [ops] at h
    cases hhandle : (d.handle dateParse event).2 with
    | none =>
      rw [hhandle] at h
      exact ih h
    | some op' =>
      rw [hhandle, Option.toList_some, List.singleton_append] at h
      cases opened with
      | nil =>
        obtain ⟨rfl, hrest⟩ := List.cons.inj h
        rw [← hrest]
        exact pushes_of_not_open (handle_ending hhandle hop) events
      | cons o opened => exact ih (List.cons.inj h).2

/-- A connection delivers its events and its end when no failure meets a waiting consumer, and no
other failure comes between the end and a call that asks for it. -/
theorem duplex_delivers_iff (dateParse : Str → Bool) (d : Duplex) (events : List DuplexEvent) :
    Delivers (d.ops dateParse events) ↔ ∀ opened op rest, d.ops dateParse events = opened ++
    op :: rest →
      (∀ o ∈ opened, o.ending = none) → op.ending ≠ none →
      (failures [op] ≠ [] → calls opened ≤ (pushes opened).length) ∧
        ∀ before after, rest = before ++ .next :: after → (pushes opened).length ≤ calls opened +
        calls before →
          (failures (op :: before)).getLast? = (failures [op]).getLast? := by
  constructor
  · intro h opened op rest hops hopened hop
    have hends := orderly_of_delivers h opened op rest hops hopened hop
    exact ⟨hends.heard, fun before after hrest hasked => (hends.asked before after hrest hasked).2⟩
  · intro h
    refine delivers_of_orderly fun opened op rest hops hopened hop => ?_
    obtain ⟨hheard, hasked⟩ := h opened op rest hops hopened hop
    refine ⟨hheard, fun before after hrest hcalls => ⟨?_, hasked before after hrest hcalls⟩⟩
    have hnone := pushes_of_ended hops hop
    rw [hrest, pushes_append] at hnone
    exact (List.append_eq_nil_iff.1 hnone).1

end Duplex

end KiroCrew.Shell
