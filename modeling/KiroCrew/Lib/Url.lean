import KiroCrew.Lib.Json

/-!
# URLs as text

`urlsplit` is `urllib.parse.urlsplit` of Python 3.12. The path of a request is seen a second time by
the client's URL library, which decodes the escapes of unreserved characters and drops dot segments,
and by a router that matches the decoded path: `routed`. A path without dot segments is only decoded
(`routed_of_no_dots`), and one that escapes none of a text's characters decodes to that text only
when it is spelled so (`spelled_iff`).
-/

namespace Url

/-! ## Splitting -/

structure SplitResult where
  scheme : Str
  netloc : Str
  path : Str
  query : Str
  fragment : Str
deriving DecidableEq, Repr

/-- What `urlsplit` asks other modules of a host. -/
structure NetlocChecks where
  /-- `ipaddress` knows the address between the brackets -/
  bracketed : Str → Bool
  /-- the text has no delimiter after `unicodedata.normalize("NFKC", …)` -/
  nfkc : Str → Bool

def NetlocChecks.accepts (k : NetlocChecks) (netloc : Str) : Bool :=
  decide (91 ∈ netloc ↔ 93 ∈ netloc) && (decide (91 ∉ netloc) || k.bracketed netloc) &&
    (netloc.all (fun c => decide (c < 0x80)) || k.nfkc netloc)

def isAlpha (c : Nat) : Bool := decide (65 ≤ c ∧ c ≤ 90 ∨ 97 ≤ c ∧ c ≤ 122)

/-- `scheme_chars` -/
def isSchemeChar (c : Nat) : Bool :=
  isAlpha c || Json.isDigit c || decide (c = 43 ∨ c = 45 ∨ c = 46)

def lower (s : Str) : Str := s.map fun c => if 65 ≤ c ∧ c ≤ 90 then c + 32 else c

def splitScheme (url : Str) : Str × Str :=
  let name := url.takeWhile fun c => decide (c ≠ 58)
  if 58 ∈ url ∧ name.head?.any isAlpha ∧ name.all isSchemeChar then
    (lower name, url.drop (name.length + 1)) else ([], url)

def isDelimiter (c : Nat) : Bool := decide (c = 47 ∨ c = 63 ∨ c = 35)

def splitNetloc (url : Str) : Str × Str :=
  if url.take 2 = [47, 47] then
    ((url.drop 2).takeWhile (!isDelimiter ·), (url.drop 2).dropWhile (!isDelimiter ·))
    else ([], url)

/-- What is before the first `c` and after it. -/
def cutAt (c : Nat) (s : Str) : Str × Str :=
  (s.takeWhile fun x => decide (x ≠ c), (s.dropWhile fun x => decide (x ≠ c)).drop 1)

/-- Control characters at the front are left out, tabs and line ends everywhere; `none` is the
`ValueError`. -/
def urlsplit (k : NetlocChecks) (url : Str) : Option SplitResult :=
  let url :=
    (url.dropWhile fun c => decide (c ≤ 32)).filter fun c => decide (c ≠ 9 ∧ c ≠ 10 ∧ c ≠ 13)
  let (scheme, url) := splitScheme url
  let (netloc, url) := splitNetloc url
  let (url, fragment) := cutAt 35 url
  let (path, query) := cutAt 63 url
  if k.accepts netloc then some ⟨scheme, netloc, path, query, fragment⟩ else none

/-! ## Escapes -/

/-- A character of a path, or a byte written as an escape. -/
inductive Token
  | plain (c : Nat)
  | escaped (v : Nat)
deriving DecidableEq, Repr

def Token.value : Token → Nat
  | .plain c => c
  | .escaped v => v

/-- The byte that two hexadecimal digits at the front stand for. -/
def hexByte : Str → Option Nat
  | a :: b :: _ =>
    match Json.hexValue a, Json.hexValue b with
    | some x, some y => some (16 * x + y)
    | _, _ => none
  | _ => none

def tokens : Str → List Token
  | [] => []
  | [c] => [.plain c]
  | [c, d] => [.plain c, .plain d]
  | c :: a :: b :: rest =>
    if c = 37 then
      match hexByte (a :: b :: rest) with
      | some v => .escaped v :: tokens rest
      | none => .plain c :: tokens (a :: b :: rest)
    else .plain c :: tokens (a :: b :: rest)

def isUnreserved (c : Nat) : Bool :=
  isAlpha c || Json.isDigit c || decide (c = 45 ∨ c = 46 ∨ c = 95 ∨ c = 126)

/-- The escape of an unreserved character is decoded. The characters that are escaped instead are
those a router decodes again, a percent sign without two digits among them. -/
def requote : Token → Token
  | .escaped v => if isUnreserved v then .plain v else .escaped v
  | t => t

/-! ## Dot segments -/

def isDot (segment : List Token) : Bool := decide (segment = [.plain 46])
def isDotDot (segment : List Token) : Bool := decide (segment = [.plain 46, .plain 46])

/-- The segments without the relative ones; a path that ended in one ends in a slash. -/
def resolve (segments : List (List Token)) : List (List Token) :=
  let resolved := (segments.foldl (fun resolved s =>
    if isDotDot s then resolved.tail else if isDot s then resolved else s :: resolved) []).reverse
  if segments.getLast?.any (fun s => isDot s || isDotDot s) then resolved ++ [[]] else resolved

def normalizePath (path : List Token) : List Token :=
  if path.head? = some (.plain 47) then .plain 47 :: [.plain 47].intercalate
    (resolve (path.tail.splitOn (.plain 47)))
  else [.plain 47].intercalate (resolve (path.splitOn (.plain 47)))

/-- The path a router matches; a byte from 128 on is left as a byte. -/
def routed (path : Str) : Str := (normalizePath ((tokens path).map requote)).map Token.value

/-! ## Tokens of a text -/

theorem tokens_cons {c : Nat} {s : Str} (h : c = 37 → ∀ v, ¬ hexByte s = some v) :
    tokens (c :: s) = .plain c :: tokens s := by
  match s with
  | [] => rfl
  | [d] => rfl
  | a :: b :: rest =>
    rw [tokens]
    split_ifs with hc
    · split
      · next v hv => exact absurd hv (h hc v)
      · rfl
    · rfl

theorem tokens_escape {s : Str} {v : Nat} (h : hexByte s = some v) :
    tokens (37 :: s) = .escaped v :: tokens (s.drop 2) := by
  match s with
  | [] => cases h
  | [d] => cases h
  | a :: b :: rest =>
    rw [tokens, if_pos rfl, h]
    rfl

/-- The first character is an escape's percent sign or stands for itself. -/
theorem tokens_cases (c : Nat) (s : Str) :
    (∃ v, c = 37 ∧ hexByte s = some v ∧ tokens (c :: s) = .escaped v :: tokens (s.drop 2)) ∨
    (c = 37 → ∀ v, ¬ hexByte s = some v) ∧ tokens (c :: s) = .plain c :: tokens s := by
  by_cases h : c = 37 ∧ ∃ v, hexByte s = some v
  · obtain ⟨rfl, v, hv⟩ := h
    exact Or.inl ⟨v, rfl, hv, tokens_escape hv⟩
  · have hplain : c = 37 → ∀ v, ¬ hexByte s = some v := fun hc v hv => h ⟨hc, v, hv⟩
    exact Or.inr ⟨hplain, tokens_cons hplain⟩

theorem hexByte_append_slash (s t : Str) : hexByte (s ++ 47 :: t) = hexByte s := by
  have hslash : Json.hexValue 47 = none := by decide
  match s with
  | [] =>
    cases t with
    | nil => rfl
    | cons b t => simp [hexByte, hslash]
  | [a] => simp [hexByte, hslash]
  | a :: b :: rest => rfl

theorem length_of_hexByte {s : Str} {v : Nat} (h : hexByte s = some v) : 2 ≤ s.length := by
  match s with
  | [] => cases h
  | [d] => cases h
  | a :: b :: rest => exact Nat.le_add_left 2 rest.length

theorem tokens_append_slash (s t : Str) : tokens (s ++ 47 :: t) = tokens s ++ .plain 47 ::
    tokens t := by
  induction hn : s.length using Nat.strong_induction_on generalizing s with
  | _ n ih =>
    subst hn
    cases s with
    | nil => exact tokens_cons fun h => absurd h (by decide)
    | cons c s =>
      rcases tokens_cases c s with ⟨v, rfl, hv, htokens⟩ | ⟨hplain, htokens⟩
      · have hdrop : (s ++ 47 :: t).drop 2 = s.drop 2 ++ 47 :: t :=
          List.drop_append_of_le_length (length_of_hexByte hv)
        have hrest :=
          ih (s.drop 2).length (by rw [List.length_drop, List.length_cons]; omega) (s.drop 2) rfl
        rw [List.cons_append, tokens_escape (by rwa [hexByte_append_slash]), htokens, hdrop, hrest,
          List.cons_append]
      · have hrest := ih s.length (Nat.lt_succ_self _) s rfl
        rw [List.cons_append, htokens, tokens_cons (by rwa [hexByte_append_slash]), hrest,
          List.cons_append]

theorem tokens_intercalate {segments : List Str} :
    tokens ([47].intercalate segments) = [.plain 47].intercalate (segments.map tokens) := by
  induction segments with
  | nil => rfl
  | cons a segments ih =>
    cases segments with
    | nil => simp [List.intercalate]
    | cons b segments =>
      rw [List.map_cons, List.map_cons, List.intercalate_cons_cons, List.intercalate_cons_cons,
        ← List.map_cons, ← ih,
        List.append_assoc, List.append_assoc]
      exact tokens_append_slash a _

theorem plain_mem_tokens {c : Nat} {s : Str} (h : .plain c ∈ tokens s) : c ∈ s := by
  induction hn : s.length using Nat.strong_induction_on generalizing s with
  | _ n ih =>
    subst hn
    cases s with
    | nil => cases h
    | cons d s =>
      rcases tokens_cases d s with ⟨v, rfl, hv, htokens⟩ | ⟨_, htokens⟩
      · rw [htokens, List.mem_cons] at h
        rcases h with h | h
        · cases h
        · have hrest :=
            ih (s.drop 2).length (by rw [List.length_drop, List.length_cons]; omega) h rfl
          exact List.mem_cons_of_mem _ (List.mem_of_mem_drop hrest)
      · rw [htokens, List.mem_cons] at h
        rcases h with h | h
        · cases h
          exact List.mem_cons_self
        · exact List.mem_cons_of_mem _ (ih s.length (Nat.lt_succ_self _) h rfl)

theorem mem_splitOn {α : Type*} [DecidableEq α] {x : α} {xs l : List α} (h : l ∈ xs.splitOn x) :
    ∀ y ∈ l, y ≠ x ∧ y ∈ xs := by
  induction xs generalizing l with
  | nil =>
    have hnil : l = [] := by simpa using h
    subst hnil
    simp
  | cons z xs ih =>
    have hlater : ∀ l ∈ xs.splitOn x, ∀ y ∈ l, y ≠ x ∧ y ∈ z :: xs :=
      fun l hl y hy => ⟨(ih hl y hy).1, List.mem_cons_of_mem _ (ih hl y hy).2⟩
    rw [List.splitOn_cons_eq_if_modifyHead] at h
    split_ifs at h with hz
    · rcases List.mem_cons.1 h with rfl | h
      · simp
      · exact hlater l h
    · cases hsplit : xs.splitOn x with
      | nil => exact absurd hsplit (List.splitOn_ne_nil x xs)
      | cons first rest =>
        rw [hsplit] at hlater
        rw [hsplit, List.modifyHead_cons, List.mem_cons] at h
        rcases h with rfl | h
        · exact List.forall_mem_cons.2 ⟨⟨fun hx => hz (beq_iff_eq.2 hx), List.mem_cons_self⟩,
            hlater first List.mem_cons_self⟩
        · exact hlater l (List.mem_cons_of_mem _ h)

theorem splitOn_tokens (s : Str) : (tokens s).splitOn (.plain 47) = (s.splitOn 47).map tokens := by
  have hsegments : tokens s = [.plain 47].intercalate ((s.splitOn 47).map tokens) := by
    rw [← tokens_intercalate, List.intercalate_splitOn]
  rw [hsegments, List.splitOn_intercalate]
  · intro segment hsegment hslash
    obtain ⟨text, htext, rfl⟩ := List.mem_map.1 hsegment
    exact (mem_splitOn htext 47 (plain_mem_tokens hslash)).1 rfl
  · simp

/-! ## Paths without escapes of some characters -/

theorem value_requote (t : Token) : (requote t).value = t.value := by
  cases t with
  | plain c => rfl
  | escaped v =>
    rw [requote]
    split_ifs <;> rfl

theorem requote_eq_plain {t : Token} {c : Nat} (h : requote t = .plain c) : t = .plain c ∨
    t = .escaped c ∧ isUnreserved c = true := by
  cases t with
  | plain d => exact Or.inl h
  | escaped v =>
    rw [requote] at h
    split_ifs at h with hv
    cases h
    exact Or.inr ⟨rfl, hv⟩

theorem splitOn_map_requote (ts : List Token) :
    (ts.map requote).splitOn (.plain 47) = (ts.splitOn (.plain 47)).map (List.map requote) := by
  induction ts with
  | nil => rfl
  | cons t ts ih =>
    have hslash : requote t = .plain 47 ↔ t = .plain 47 := by
      constructor
      · intro h
        rcases requote_eq_plain h with h | ⟨_, h⟩
        · exact h
        · exact absurd h (by decide)
      · rintro rfl
        rfl
    rw [List.map_cons, List.splitOn_cons_eq_if_modifyHead, List.splitOn_cons_eq_if_modifyHead, ih]
    simp only [beq_iff_eq, hslash]
    split_ifs
    · rfl
    · cases hsplit : ts.splitOn (.plain 47) with
      | nil => exact absurd hsplit (List.splitOn_ne_nil _ ts)
      | cons first rest => rfl

theorem resolve_of_no_dots {segments : List (List Token)} (h : ∀ s ∈ segments, isDot s = false ∧
    isDotDot s = false) :
    resolve segments = segments := by
  have hfold : ∀ resolved, segments.foldl (fun resolved s =>
      if isDotDot s then resolved.tail else if isDot s then resolved else s :: resolved) resolved =
          segments.reverse ++ resolved := by
    induction segments with
    | nil => exact fun resolved => rfl
    | cons s segments ih =>
      obtain ⟨⟨hdot, hdotdot⟩, hsegments⟩ := List.forall_mem_cons.1 h
      intro resolved
      rw [List.foldl_cons, if_neg (by rw [hdotdot]; decide), if_neg (by rw [hdot]; decide),
        ih hsegments]
      simp
  have hlast : segments.getLast?.any (fun s => isDot s || isDotDot s) = false := by
    cases hs : segments.getLast? with
    | none => rfl
    | some s =>
      obtain ⟨hdot, hdotdot⟩ := h s (List.mem_of_getLast? hs)
      simp [hdot, hdotdot]
  unfold resolve
  simp only [hfold, List.append_nil, List.reverse_reverse, hlast, Bool.false_eq_true, if_false]

/-- The text of a segment that is a dot segment once its escapes are decoded. -/
theorem eq_of_requote {s : Str} {n : Nat} (hescape : .escaped 46 ∉ tokens s)
    (h : (tokens s).map requote = (List.replicate n 46).map .plain) : s = List.replicate n 46 := by
  induction n generalizing s with
  | zero =>
    cases s with
    | nil => rfl
    | cons c s =>
      rcases tokens_cases c s with ⟨v, _, _, htokens⟩ | ⟨_, htokens⟩ <;>
        (rw [htokens] at h; cases h)
  | succ n ih =>
    cases s with
    | nil => cases h
    | cons c s =>
      rw [List.replicate_succ, List.map_cons] at h
      rcases tokens_cases c s with ⟨v, _, _, htokens⟩ | ⟨_, htokens⟩
      · rw [htokens, List.map_cons, List.cons.injEq] at h
        rw [htokens] at hescape
        rcases requote_eq_plain h.1 with hplain | ⟨hplain, _⟩
        · cases hplain
        · exact absurd (hplain ▸ List.mem_cons_self) hescape
      · rw [htokens, List.map_cons, List.cons.injEq] at h
        rw [htokens] at hescape
        rcases requote_eq_plain h.1 with hplain | ⟨hplain, _⟩
        · cases hplain
          rw [ih (fun hmem => hescape (List.mem_cons_of_mem _ hmem)) h.2, List.replicate_succ]
        · cases hplain

/-- Without dot segments, escaped or not, a path is only decoded. -/
theorem routed_of_no_dots {path : Str} (hdots : ∀ s ∈ path.splitOn 47, s ≠ [46] ∧ s ≠ [46, 46])
    (hescape : .escaped 46 ∉ tokens path) : routed path = (tokens path).map Token.value := by
  have hsegments : ((tokens path).map requote).splitOn (.plain 47) = (path.splitOn 47).map fun s =>
      (tokens s).map requote := by
    rw [splitOn_map_requote, splitOn_tokens, List.map_map]
    rfl
  have hplain : ∀ s ∈ ((tokens path).map requote).splitOn (.plain 47), isDot s = false ∧
      isDotDot s = false := by
    rw [hsegments, List.forall_mem_map]
    intro s hs
    have hnone : .escaped 46 ∉ tokens s := by
      have hsegment : tokens s ∈ (tokens path).splitOn (.plain 47) :=
        splitOn_tokens path ▸ List.mem_map_of_mem hs
      exact fun hmem => hescape (mem_splitOn hsegment _ hmem).2
    exact ⟨decide_eq_false fun h => (hdots s hs).1 (eq_of_requote (n := 1) hnone h),
      decide_eq_false fun h => (hdots s hs).2 (eq_of_requote (n := 2) hnone h)⟩
  have hvalue : ((tokens path).map requote).map Token.value = (tokens path).map Token.value := by
    rw [List.map_map]
    exact List.map_congr_left fun t _ => value_requote t
  rw [routed, ← hvalue, normalizePath]
  congr 1
  split_ifs with hroot
  · cases hts : (tokens path).map requote with
    | nil =>
      rw [hts] at hroot
      cases hroot
    | cons t ts =>
      rw [hts] at hroot hplain
      cases hroot
      rw [List.splitOn_cons_eq_if_modifyHead, if_pos (beq_self_eq_true _)] at hplain
      rw [List.tail_cons, resolve_of_no_dots fun s hs => hplain s (List.mem_cons_of_mem _ hs),
        List.intercalate_splitOn]
  · rw [resolve_of_no_dots hplain, List.intercalate_splitOn]

/-- A text whose characters the path does not escape is in the decoded path where it is in the
path. -/
theorem spelled_iff {q path : Str} (hq : 37 ∉ q) (hescape : ∀ v ∈ q, .escaped v ∉ tokens path) :
    (q <+: (tokens path).map Token.value ↔ q <+: path) ∧
    ((tokens path).map Token.value = q → path = q) := by
  induction q generalizing path with
  | nil =>
    refine ⟨by simp, fun h => ?_⟩
    cases path with
    | nil => rfl
    | cons c s => rcases tokens_cases c s with ⟨v, _, _, htokens⟩ | ⟨_, htokens⟩ <;>
        (rw [htokens] at h; cases h)
  | cons d q ih =>
    rw [List.mem_cons, not_or] at hq
    cases path with
    | nil => exact ⟨Iff.rfl, fun h => by cases h⟩
    | cons c s =>
      rcases tokens_cases c s with ⟨v, rfl, _, htokens⟩ | ⟨_, htokens⟩
      · have hne : v ≠ d := by
          rintro rfl
          exact hescape v List.mem_cons_self (htokens ▸ List.mem_cons_self)
        rw [htokens, List.map_cons, List.cons_prefix_cons, List.cons_prefix_cons, List.cons.injEq]
        exact ⟨iff_of_false (fun h => hne h.1.symm) fun h => hq.1 h.1.symm, fun h => absurd h.1 hne⟩
      · have hrest : ∀ v ∈ q, .escaped v ∉ tokens s := fun v hv hmem =>
          hescape v (List.mem_cons_of_mem _ hv) (htokens ▸ List.mem_cons_of_mem _ hmem)
        obtain ⟨hstart, heq⟩ := ih hq.2 hrest
        rw [htokens, List.map_cons, List.cons_prefix_cons, List.cons_prefix_cons, hstart,
          List.cons.injEq, List.cons.injEq]
        exact ⟨Iff.rfl, fun h => ⟨h.1, heq h.2⟩⟩

end Url
