import KiroCrew.Lib.PyText

/-!
# Device authorization

`DeviceFlowParser.feed` looks for the URL and for the code independently in the last characters of
the output: it takes the first deep link, or the first URL as long as there is no deep link, but the
last code. So while the text that is kept has tokens of two prompts, the URL can be of one prompt
and the code of the other; the condition under which it is not is `Leading` (`paired_iff`).
-/

namespace KiroCrew.DeviceFlow

open PyText Json

/-- What the standard library takes from its tables and its version. -/
structure Tables where
  /-- The value of a decimal digit outside ASCII. -/
  decimal : Nat → Option Nat
  /-- `urlsplit` raises for this network location, which has brackets or is not ASCII. -/
  rejects : Str → Bool

/-! ## The patterns -/

/-- `https://[^\s<>]+` -/
def urlPattern : Regex Nat :=
  .seq (.classes ((Str.ofString "https://").map fun d c => decide (c = d)))
    (.plus (.one fun c => !isWhite c && decide (c ≠ 60 ∧ c ≠ 62)))

def alphanumeric : Regex Nat := .one fun c => isLetter c || isDigit c

/-- `[A-Z0-9]{4,}` -/
def group : Regex Nat := .seq (alphanumeric.times 4) (.star alphanumeric)

def spaces : Regex Nat := .star space

/-- What comes before the code in `_CODE_PATTERN`. -/
def codeLabel : Regex Nat :=
  .seq (.alt (word "code")
    (.seq (word "user") (.seq (.opt (.one fun c => decide (c = 95 ∨ c = 32 ∨ c = 45)))
    (word "code"))))
    (.seq spaces (.seq (.opt (.alt (word "is") (.one fun c => decide (c = 58 ∨ c = 61)))) spaces))

def codePattern : Regex Nat := .seq group (.plus (.seq (.one fun c => decide (c = 45)) group))

/-- What comes before the number in `_EXPIRY_PATTERN`. -/
def expiryLabel : Regex Nat :=
  .seq (.alt (.seq (word "expire") (.opt (word "s"))) (word "valid"))
    (.seq (.plus space) (.seq (.alt (word "in") (word "after")) (.plus space)))

def digitValue (u : Tables) (c : Nat) : Option Nat :=
  if c < 128 then (if isDigit c then some (c - 48) else none) else u.decimal c

/-- `\d{1,4}` -/
def amountPattern (u : Tables) : Regex Nat :=
  .seq (.one fun c => (digitValue u c).isSome) ((Regex.one fun c => (digitValue u c).isSome).upTo 3)

def unitPattern : Regex Nat :=
  .alt (.seq (word "second") (.opt (word "s"))) (.seq (word "minute") (.opt (word "s")))

/-! ## The parser -/

structure DeviceAuthorization where
  verificationUrl : Str
  userCode : Str
  /-- In seconds, as `clock` counts them. -/
  expiresAt : ℚ
deriving DecidableEq, Repr

def DeviceAuthorization.pair (a : DeviceAuthorization) : Str × Str :=
  (a.verificationUrl, a.userCode)

structure Parser where
  defaultTtl : Nat := 600
  buffer : Str := []
  authorization : Option DeviceAuthorization := none
deriving DecidableEq, Repr

def bufferLimit : Nat := 8192

/-- `(buffer + "\n" + text)[-8192:]` -/
def append (buffer text : Str) : Str := ((buffer ++ 10 :: text).reverse.take bufferLimit).reverse

/-- `.rstrip(".,);]")` -/
def strip (candidate : Str) : Str :=
  (candidate.reverse.dropWhile fun c => decide (c ∈ Str.ofString ".,);]")).reverse

/-- What `_URL_PATTERN.finditer` finds, stripped. -/
def candidates (buffer : Str) : List Str :=
  (Regex.findAll .empty urlPattern buffer.length buffer).map strip

def codes (buffer : Str) : List Str :=
  (Regex.findAll codeLabel codePattern buffer.length buffer).map fun code =>
    code.map fun c => if 97 ≤ c ∧ c ≤ 122 then c - 32 else if c = 0x131 then 73
      else if c = 0x17F then 83 else c

/-- The network location of a candidate, which begins with `https://`. -/
def netloc (candidate : Str) : Str :=
  (candidate.drop 8).takeWhile fun c => decide (c ≠ 47 ∧ c ≠ 63 ∧ c ≠ 35)

/-- `bool(urlsplit(candidate).hostname)`; `none` is the `ValueError`. -/
def hasHost (u : Tables) (candidate : Str) : Option Bool :=
  let location := netloc candidate
  let info := (location.reverse.takeWhile fun c => decide (c ≠ 64)).reverse
  if 91 ∈ location ∧ 93 ∉ location ∨ 93 ∈ location ∧ 91 ∉ location then none
  else if (91 ∈ location ∨ ∃ c ∈ location, 128 ≤ c) ∧ u.rejects location = true then none
  else if 91 ∈ info then some
    !(((info.dropWhile fun c => decide (c ≠ 91)).drop 1).takeWhile fun c => decide (c ≠ 93)).isEmpty
  else some !(info.takeWhile fun c => decide (c ≠ 58)).isEmpty

/-- `"user_code=" in candidate` -/
def deep (candidate : Str) : Bool := candidate.tails.any (Str.ofString "user_code=").isPrefixOf

/-- The loop over the candidates, with the URL found so far. -/
def selectUrl (u : Tables) : Option Str → List Str → Option (Option Str)
  | url, [] => some url
  | url, candidate :: rest =>
    match hasHost u candidate with
    | none => none
    | some false => selectUrl u url rest
    | some true =>
      if deep candidate then some (some candidate) else selectUrl u (url.or (some candidate)) rest

/-- The seconds that the first expiry in the buffer gives. -/
def expiry (u : Tables) (buffer : Str) : Option Nat :=
  buffer.tails.findSome? fun s =>
    (Regex.rests expiryLabel s).findSome? fun t =>
      (Regex.rests (amountPattern u) t).findSome? fun rest =>
        (Regex.rests spaces rest).findSome? fun unit =>
          (Regex.rests unitPattern unit).head?.map fun _ =>
            ((t.take (t.length - rest.length)).foldl
              (fun n c => n * 10 + (digitValue u c).getD 0) 0) *
              if ((unit.take 6).map fun c => if 65 ≤ c ∧ c ≤ 90 then c + 32 else c) =
                Str.ofString "minute" then 60 else 1

/-- `feed` once the text is in the buffer, at a time; `none` is the `ValueError`. -/
def Parser.refresh (u : Tables) (p : Parser) (now : ℚ) :
    Option (Parser × Option DeviceAuthorization) :=
  match (codes p.buffer).getLast? with
  | none => some (p, none)
  | some code =>
    (selectUrl u none (candidates p.buffer)).map fun
      | none => (p, none)
      | some url =>
        if p.authorization.map DeviceAuthorization.pair = some (url, code) then (p, none)
        else
          let authorization := ⟨url, code, now + (expiry u p.buffer).getD p.defaultTtl⟩
          ({ p with authorization := some authorization }, some authorization)

def Parser.feed (u : Tables) (p : Parser) (text : Str) (now : ℚ) :
    Option (Parser × Option DeviceAuthorization) :=
  { p with buffer := append p.buffer text }.refresh u now

/-- The loop of `device_flow_events`: the parser after the lines, and what was emitted. -/
def Parser.run (u : Tables) (p : Parser) : List (Str × ℚ) →
    Option (Parser × List DeviceAuthorization)
  | [] => some (p, [])
  | (text, now) :: feeds =>
    (p.feed u text now).bind fun (p', authorization) => (p'.run u feeds).map fun (p'', more) =>
      (p'', authorization.toList ++ more)

/-! ## The output of a login -/

structure Prompt where
  url : Str
  code : Str
deriving DecidableEq, Repr

inductive Token
  | url (s : Str)
  | code (s : Str)
deriving DecidableEq, Repr

def urlsOf (tokens : List Token) : List Str :=
  tokens.filterMap fun | .url s => some s | .code _ => none

def codesOf (tokens : List Token) : List Str :=
  tokens.filterMap fun | .url _ => none | .code s => some s

/-- The URLs that have a host. -/
def urls (u : Tables) (text : Str) : List Str :=
  (candidates text).filter fun candidate => decide (hasHost u candidate = some true)

/-- One call of `feed`, with the URLs and codes of the output that are complete with it. -/
structure Feed where
  text : Str
  now : ℚ
  tokens : List Token

/-- The prompts of a login, each with its URL and its code in some order and number, how the output
is cut into calls, and what of it the buffer has dropped. -/
structure Output (u : Tables) where
  startUrl : Option Str
  prompts : List (Prompt × List Token)
  feeds : List Feed
  /-- how many of the first tokens are no longer in the text that is kept after so many calls -/
  dropped : Nat → Nat := fun _ => 0
  some_prompt : prompts ≠ []
  complete : ∀ x ∈ prompts,
    (∀ t ∈ x.2, t = .url x.1.url ∨ t = .code x.1.code) ∧ .url x.1.url ∈ x.2 ∧ .code x.1.code ∈ x.2
  tokens_eq : feeds.flatMap Feed.tokens = startUrl.toList.map .url ++ prompts.flatMap Prod.snd
  urls_eq : urls u (feeds.flatMap Feed.text) = urlsOf (feeds.flatMap Feed.tokens)
  codes_eq : codes (feeds.flatMap Feed.text) = codesOf (feeds.flatMap Feed.tokens)

/-- The first deep link, or the first URL if there is no deep link. -/
def leading (urls : List Str) : Option Str := (urls.find? deep).or urls.head?

/-- There is a deep link and this URL is none, or one of its own kind comes before it. -/
def Outdone (urls : List Str) (url : Str) : Prop :=
  (deep url = false ∧ ∃ other ∈ urls, deep other = true) ∨
    ∃ other ∈ urls.takeWhile (· ≠ url), deep other = deep url

instance (urls : List Str) (url : Str) : Decidable (Outdone urls url) :=
  inferInstanceAs (Decidable (_ ∨ _))

namespace Output

variable {u : Tables}

def pairs (o : Output u) : List (Str × Str) := o.prompts.map fun x => (x.1.url, x.1.code)

def lastPrompt (o : Output u) : Prompt := (o.prompts.getLast o.some_prompt).1

/-- The URLs and codes in the first `k` calls. -/
def upTo (o : Output u) (k : Nat) : List Token := (o.feeds.take k).flatMap Feed.tokens

/-- The text that is kept after the first `k` calls. -/
def kept (o : Output u) (k : Nat) : Str := ((o.feeds.take k).map Feed.text).foldl append []

/-- The URLs and codes that are in it. -/
def window (o : Output u) (k : Nat) : List Token := (o.upTo k).drop (o.dropped k)

/-- The text that is kept has a URL and a code. -/
def Visible (o : Output u) (k : Nat) : Prop := urls u (o.kept k) ≠ [] ∧ codes (o.kept k) ≠ []

/-- In the end the pair is that of the last prompt, and no pair on the way was of two prompts. -/
def Paired (o : Output u) (ttl : Nat) : Prop :=
  ∃ p emitted, Parser.run u { defaultTtl := ttl } (o.feeds.map fun f => (f.text, f.now)) =
    some (p, emitted) ∧
    p.authorization.map DeviceAuthorization.pair = some (o.lastPrompt.url, o.lastPrompt.code) ∧
    ∀ a ∈ emitted, a.verificationUrl ∈ o.pairs.map Prod.fst → a.pair ∈ o.pairs

/-- `urlsplit` raises for no URL, and neither the newline between two calls nor the limit of the
buffer makes or spoils a URL or a code so that another first deep link, first URL or last code is
found than that of the tokens whose text is kept. -/
structure Intact (o : Output u) : Prop where
  calm : ∀ k, ∀ candidate ∈ candidates (o.kept k), hasHost u candidate ≠ none
  same : ∀ k ≤ o.feeds.length, o.Visible k → leading (urls u (o.kept k)) =
    leading (urlsOf (o.window k)) ∧
    (codes (o.kept k)).getLast? = (codesOf (o.window k)).getLast?

/-- The last call that leaves a URL and a code in the kept text. -/
structure IsLast (o : Output u) (k : Nat) : Prop where
  visible : o.Visible k
  bound : k ≤ o.feeds.length
  after : ∀ j, k < j → j ≤ o.feeds.length → ¬ o.Visible j

/-- While a URL and a code are kept, each prompt there whose code is not the last one has its URL
outdone; and in the end the last prompt's URL is there, not outdone, with its code as the last
one. -/
structure Leading (o : Output u) : Prop where
  along : ∀ k ≤ o.feeds.length, o.Visible k → ∀ x ∈ o.prompts, x.1.url ∈ urlsOf (o.window k) →
    ∀ code ∈ (codesOf (o.window k)).getLast?, (x.1.url, code) ∉ o.pairs →
    Outdone (urlsOf (o.window k)) x.1.url
  last : ∃ k, o.IsLast k ∧ o.lastPrompt.url ∈ urlsOf (o.window k) ∧
    ¬ Outdone (urlsOf (o.window k)) o.lastPrompt.url ∧
    o.lastPrompt.code ∈ (codesOf (o.window k)).getLast?

end Output

/-! ## One call -/

variable {u : Tables} {p : Parser} {text : Str} {now : ℚ}

/-- The pair that a buffer shows. -/
def view (u : Tables) (buffer : Str) : Option (Str × Str) :=
  (leading (urls u buffer)).bind fun url => (codes buffer).getLast?.map fun code => (url, code)

theorem selectUrl_eq {found : Option Str} {cs : List Str} (calm : ∀ c ∈ cs, hasHost u c ≠ none) :
    selectUrl u found cs = some
      (((cs.filter fun c => decide (hasHost u c = some true)).find? deep).or
      (found.or (cs.filter fun c => decide (hasHost u c = some true)).head?)) := by
  induction cs generalizing found with
  | nil => simp [selectUrl]
  | cons c cs ih =>
    obtain ⟨hc, hcs⟩ := List.forall_mem_cons.1 calm
    rw [selectUrl]
    cases hhost : hasHost u c with
    | none => exact absurd hhost hc
    | some host =>
      cases host with
      | false => simp [ih hcs, hhost]
      | true =>
        by_cases hdeep : deep c = true
        · simp [hdeep, hhost]
        · simp [hdeep, hhost, ih hcs]

theorem selectUrl_none {buffer : Str} (calm : ∀ c ∈ candidates buffer, hasHost u c ≠ none) :
    selectUrl u none (candidates buffer) = some (leading (urls u buffer)) := by
  rw [selectUrl_eq calm, Option.none_or]
  rfl

/-- A call emits what the buffer shows unless it is held already. -/
theorem refresh_eq (calm : ∀ c ∈ candidates p.buffer, hasHost u c ≠ none) :
    ∃ p' emitted, p.refresh u now = some (p', emitted) ∧ p'.buffer = p.buffer ∧
      p'.authorization.map DeviceAuthorization.pair = (view u p.buffer).or
        (p.authorization.map DeviceAuthorization.pair) ∧
      (∀ a ∈ emitted, view u p.buffer = some a.pair) ∧
      ∀ x ∈ view u p.buffer, (∃ a ∈ emitted, a.pair = x) ∨
          p.authorization.map DeviceAuthorization.pair = some x := by
  have hselect := selectUrl_none calm
  unfold Parser.refresh
  cases hcode : (codes p.buffer).getLast? with
  | none =>
    have hview : view u p.buffer = none := by simp [view, hcode]
    exact ⟨p, none, rfl, rfl, by simp [hview], by simp, by simp [hview]⟩
  | some code =>
    rw [hselect]
    cases hurl : leading (urls u p.buffer) with
    | none =>
      have hview : view u p.buffer = none := by simp [view, hurl]
      exact ⟨p, none, rfl, rfl, by simp [hview], by simp, by simp [hview]⟩
    | some url =>
      have hview : view u p.buffer = some (url, code) := by simp [view, hcode, hurl]
      rw [hview]
      by_cases hheld : p.authorization.map DeviceAuthorization.pair = some (url, code)
      · refine ⟨p, none, ?_, rfl, by simp [hheld], by simp, by simp [hheld]⟩
        show some (ite _ _ _) = _
        rw [if_pos hheld]
      · refine ⟨{ p with
            authorization := some ⟨url, code, now + (expiry u p.buffer).getD p.defaultTtl⟩ },
          some ⟨url, code, now + (expiry u p.buffer).getD p.defaultTtl⟩, ?_, rfl, rfl, by
            simp [DeviceAuthorization.pair],
          by simp [DeviceAuthorization.pair]⟩
        show some (ite _ _ _) = _
        rw [if_neg hheld]

/-! ## A run -/

/-- The buffer after some texts. -/
def bufferAfter (buffer : Str) (texts : List Str) : Str := texts.foldl append buffer

/-- What the buffer shows after each text. -/
def views (u : Tables) (buffer : Str) (texts : List Str) : List (Option (Str × Str)) :=
  (List.range texts.length).map fun k => view u (bufferAfter buffer (texts.take (k + 1)))

/-- The pair that is held after some views. -/
def heldAfter (held : Option (Str × Str)) (vs : List (Option (Str × Str))) : Option (Str × Str) :=
  vs.foldl (fun held v => v.or held) held

theorem views_cons (buffer t : Str) (texts : List Str) :
    views u buffer (t :: texts) = view u (append buffer t) :: views u (append buffer t) texts := by
  rw [views, List.length_cons, List.range_succ_eq_map, List.map_cons, List.map_map]
  rfl

/-- A run emits pairs that its buffers show, every one of them unless it was held before, and holds
the last one. -/
theorem run_spec {feeds : List (Str × ℚ)}
    (calm : ∀ k, ∀ c ∈ candidates (bufferAfter p.buffer ((feeds.map Prod.fst).take (k + 1))),
    hasHost u c ≠ none) :
    ∃ p' emitted, p.run u feeds = some (p', emitted) ∧
      p'.authorization.map DeviceAuthorization.pair =
        heldAfter (p.authorization.map DeviceAuthorization.pair)
          (views u p.buffer (feeds.map Prod.fst)) ∧
      (∀ a ∈ emitted, some a.pair ∈ views u p.buffer (feeds.map Prod.fst)) ∧
      ∀ x, some x ∈ views u p.buffer (feeds.map Prod.fst) →
        (∃ a ∈ emitted, a.pair = x) ∨ p.authorization.map DeviceAuthorization.pair = some x := by
  induction feeds generalizing p with
  | nil =>
    exact ⟨p, [], rfl, rfl, fun _ ha => absurd ha List.not_mem_nil, fun _ hx =>
      absurd hx List.not_mem_nil⟩
  | cons f feeds ih =>
    obtain ⟨text, now⟩ := f
    obtain ⟨p₁, first, hfeed, hbuffer, hheld, hfirst, hshown⟩ :=
      @refresh_eq u { p with buffer := append p.buffer text } now (calm 0)
    have calm' (k : Nat) : ∀ c ∈ candidates (bufferAfter p₁.buffer
        ((feeds.map Prod.fst).take (k + 1))), hasHost u c ≠ none := by
      rw [hbuffer]
      exact calm (k + 1)
    obtain ⟨p', more, hrun, hheld', hmore, hshown'⟩ := ih calm'
    rw [hbuffer] at hheld' hmore hshown'
    refine ⟨p', first.toList ++ more, ?_, ?_, fun a ha => ?_, fun x hx => ?_⟩
    · rw [Parser.run, Parser.feed, hfeed, Option.bind_some]
      show (p₁.run u feeds).map _ = _
      rw [hrun]
      rfl
    · rw [hheld', hheld, List.map_cons, views_cons]
      rfl
    · rw [List.map_cons, views_cons]
      rcases List.mem_append.1 ha with ha | ha
      · exact List.mem_cons.2 (.inl (hfirst a (Option.mem_toList.1 ha)).symm)
      · exact List.mem_cons_of_mem _ (hmore a ha)
    · rw [List.map_cons, views_cons, List.mem_cons] at hx
      -- Shown now: emitted now or held before. Shown later: emitted later, or held then, as it was
      -- or since now.
      have hnow (hx : some x = view u (append p.buffer text)) :
          (∃ a ∈ first.toList ++ more, a.pair = x) ∨ p.authorization.map DeviceAuthorization.pair =
          some x := by
        refine (hshown x hx.symm).imp_left ?_
        rintro ⟨a, ha, hax⟩
        exact ⟨a, List.mem_append_left _ (Option.mem_toList.2 ha), hax⟩
      rcases hx with hx | hx
      · exact hnow hx
      · rcases hshown' x hx with ⟨a, ha, hax⟩ | hp₁
        · exact .inl ⟨a, List.mem_append_right _ ha, hax⟩
        · rw [hheld] at hp₁
          rcases Option.or_eq_some_iff.1 hp₁ with hview | ⟨-, hp⟩
          · exact hnow hview.symm
          · exact .inr hp

/-- What is held is what was shown last. -/
theorem heldAfter_eq_some_iff {n : Nat} {x : Str × Str} {f : Nat → Option (Str × Str)} :
    heldAfter none ((List.range n).map f) = some x ↔ ∃ k < n, f k = some x ∧ ∀ j, k < j → j < n →
    f j = none := by
  induction n with
  | zero => simp [heldAfter]
  | succ n ih =>
    have hsucc : heldAfter none ((List.range (n + 1)).map f) = (f n).or
        (heldAfter none ((List.range n).map f)) := by
      rw [List.range_succ, List.map_append, heldAfter, List.foldl_append]
      rfl
    rw [hsucc]
    cases hn : f n with
    | none =>
      rw [Option.none_or, ih]
      constructor
      · rintro ⟨k, hk, hx, hlater⟩
        refine ⟨k, by omega, hx, fun j hkj hj => ?_⟩
        rcases Nat.lt_succ_iff_lt_or_eq.1 hj with hj | rfl
        · exact hlater j hkj hj
        · exact hn
      · rintro ⟨k, hk, hx, hlater⟩
        have hne : k ≠ n := by
          rintro rfl
          rw [hn] at hx
          cases hx
        exact ⟨k, by omega, hx, fun j hkj hj => hlater j hkj (by omega)⟩
    | some y =>
      rw [Option.some_or, Option.some.injEq]
      constructor
      · rintro rfl
        exact ⟨n, by omega, hn, fun j hnj hj => by omega⟩
      · rintro ⟨k, hk, hx, hlater⟩
        have hkn : k = n := by
          by_contra hne
          rw [hlater n (by omega) (by omega)] at hn
          cases hn
        exact Option.some.inj (hn.symm.trans (hkn ▸ hx))

/-! ## Which URL is taken -/

theorem leading_eq_some_iff {us : List Str} {url : Str} :
    leading us = some url ↔ url ∈ us ∧ ¬ Outdone us url := by
  rw [leading]
  cases hfind : us.find? deep with
  | some d =>
    obtain ⟨hd, before, after, rfl, hbefore⟩ := List.find?_eq_some_iff_append.1 hfind
    have hbare : ∀ other ∈ before, deep other = false := by simpa using hbefore
    rw [Option.some_or, Option.some.injEq]
    constructor
    · rintro rfl
      refine ⟨by simp, ?_⟩
      rintro (⟨hdeep, -⟩ | ⟨other, hother, hsame⟩)
      · rw [hd] at hdeep
        cases hdeep
      · have hne : ∀ other ∈ before, decide (other ≠ d) = true := by
          intro other hmem
          refine decide_eq_true ?_
          rintro rfl
          rw [hbare _ hmem] at hd
          cases hd
        rw [List.takeWhile_append_of_pos hne, List.takeWhile_cons_of_neg (by simp),
          List.append_nil] at hother
        rw [hbare other hother, hd] at hsame
        cases hsame
    · rintro ⟨hmem, hnot⟩
      by_contra hne
      cases hdeep : deep url with
      | false => exact hnot (.inl ⟨hdeep, d, by simp, hd⟩)
      | true =>
        have hwhile : ∀ other ∈ before, decide (other ≠ url) = true := by
          intro other hother
          refine decide_eq_true ?_
          rintro rfl
          rw [hbare _ hother] at hdeep
          cases hdeep
        refine hnot (.inr ⟨d, ?_, hd.trans hdeep.symm⟩)
        rw [List.takeWhile_append_of_pos hwhile, List.takeWhile_cons_of_pos (by simpa using hne)]
        exact List.mem_append_right _ List.mem_cons_self
  | none =>
    have hbare : ∀ other ∈ us, deep other = false := by simpa using List.find?_eq_none.1 hfind
    rw [Option.none_or]
    cases us with
    | nil => simp
    | cons first us =>
      rw [List.head?_cons, Option.some.injEq]
      constructor
      · rintro rfl
        refine ⟨List.mem_cons_self, ?_⟩
        rintro (⟨-, other, hother, hdeep⟩ | ⟨other, hother, -⟩)
        · rw [hbare other hother] at hdeep
          cases hdeep
        · simp at hother
      · rintro ⟨hmem, hnot⟩
        by_contra hne
        refine hnot (.inr ⟨first, ?_, (hbare first List.mem_cons_self).trans (hbare url hmem).symm⟩)
        rw [List.takeWhile_cons_of_pos (by simpa using hne)]
        exact List.mem_cons_self

namespace Output

variable {o : Output u} {k : Nat}

theorem urls_isSome {us : List Str} (h : us ≠ []) : (leading us).isSome = true := by
  cases us with
  | nil => exact absurd rfl h
  | cons c us => simp [leading]

theorem visible_iff : o.Visible k ↔ (view u (o.kept k)).isSome = true := by
  constructor
  · rintro ⟨hurls, hcodes⟩
    obtain ⟨url, hurl⟩ := Option.isSome_iff_exists.1 (urls_isSome hurls)
    simp [view, hurl, hcodes]
  · intro h
    constructor
    · intro hnil
      simp [view, hnil, leading] at h
    · intro hnil
      simp [view, hnil] at h

/-- What the tokens whose text is kept show. -/
def shown (o : Output u) (k : Nat) : Option (Str × Str) :=
  (leading (urlsOf (o.window k))).bind fun url => (codesOf (o.window k)).getLast?.map fun code =>
    (url, code)

theorem shown_eq_some_iff {url code : Str} : o.shown k = some (url, code) ↔
    (url ∈ urlsOf (o.window k) ∧ ¬ Outdone (urlsOf (o.window k)) url) ∧
    code ∈ (codesOf (o.window k)).getLast? := by
  rw [← leading_eq_some_iff, shown]
  cases leading (urlsOf (o.window k)) <;> simp [and_comm, eq_comm]

theorem view_eq_shown (hintact : o.Intact) (hk : k ≤ o.feeds.length) (hvisible : o.Visible k) :
    view u (o.kept k) = o.shown k := by
  obtain ⟨hurl, hcode⟩ := hintact.same k hk hvisible
  rw [view, shown, hurl, hcode]

theorem upTo_prefix (o : Output u) (k : Nat) : o.upTo k <+: o.feeds.flatMap Feed.tokens := by
  refine ⟨(o.feeds.drop k).flatMap Feed.tokens, ?_⟩
  rw [upTo, ← List.flatMap_append, List.take_append_drop]

theorem views_eq (o : Output u) :
    views u [] ((o.feeds.map fun f => (f.text, f.now)).map Prod.fst) =
      (List.range o.feeds.length).map fun k => view u (o.kept (k + 1)) := by
  simp [views, bufferAfter, kept, List.map_take, Function.comp_def]

theorem not_visible_zero : ¬ o.Visible 0 := fun h => h.1 rfl

/-- A login emits what its calls show, and holds what the last of them with something in view
shows. -/
theorem run_of_intact (hintact : o.Intact) (ttl : Nat) :
    ∃ p emitted, Parser.run u { defaultTtl := ttl } (o.feeds.map fun f => (f.text, f.now)) =
      some (p, emitted) ∧
      (∀ x, p.authorization.map DeviceAuthorization.pair = some x ↔ ∃ k, o.IsLast k ∧
      o.shown k = some x) ∧
      ∀ x, (∃ a ∈ emitted, a.pair = x) ↔ ∃ k ≤ o.feeds.length, o.Visible k ∧
          o.shown k = some x := by
  have hcalm (k : Nat) : ∀ c ∈ candidates (bufferAfter []
    (((o.feeds.map fun f => (f.text, f.now)).map Prod.fst).take (k + 1))),
      hasHost u c ≠ none := by
    have hkept : bufferAfter [] (((o.feeds.map fun f => (f.text, f.now)).map Prod.fst).take
        (k + 1)) = o.kept (k + 1) := by
      simp [bufferAfter, kept, List.map_take, Function.comp_def]
    rw [hkept]
    exact hintact.calm (k + 1)
  obtain ⟨p, emitted, hrun, hheld, hemitted, hshown⟩ := @run_spec u { defaultTtl := ttl } _ hcalm
  rw [o.views_eq] at hheld hemitted hshown
  have hnone {k : Nat} (h : view u (o.kept k) = none) : ¬ o.Visible k := by
    rw [visible_iff, h]
    exact Bool.false_ne_true
  refine ⟨p, emitted, hrun, fun x => ?_, fun x => ⟨?_, ?_⟩⟩
  · rw [hheld]
    refine heldAfter_eq_some_iff.trans ⟨?_, ?_⟩
    · rintro ⟨k, hk, hx, hlater⟩
      have hvisible : o.Visible (k + 1) := visible_iff.2 (by simp [hx])
      refine ⟨k + 1, ⟨hvisible, hk, fun j hkj hj => ?_⟩,
        (view_eq_shown hintact hk hvisible).symm.trans hx⟩
      cases j with
      | zero => exact not_visible_zero
      | succ j => exact hnone (hlater j (by omega) (by omega))
    · rintro ⟨k, ⟨hvisible, hbound, hafter⟩, hx⟩
      cases k with
      | zero => exact absurd hvisible not_visible_zero
      | succ k =>
        refine ⟨k, hbound, (view_eq_shown hintact hbound hvisible).trans hx, fun j hkj hj => ?_⟩
        have hhidden := hafter (j + 1) (by omega) (by omega)
        rw [visible_iff] at hhidden
        exact Option.not_isSome_iff_eq_none.1 hhidden
  · rintro ⟨a, ha, rfl⟩
    obtain ⟨k, hk, hview⟩ := List.mem_map.1 (hemitted a ha)
    have hvisible : o.Visible (k + 1) := visible_iff.2 (by simp [hview])
    have hbound : k + 1 ≤ o.feeds.length := List.mem_range.1 hk
    exact ⟨k + 1, hbound, hvisible, (view_eq_shown hintact hbound hvisible).symm.trans hview⟩
  · rintro ⟨k, hk, hvisible, hx⟩
    cases k with
    | zero => exact absurd hvisible not_visible_zero
    | succ k =>
      have hmem : some x ∈ (List.range o.feeds.length).map fun k => view u (o.kept (k + 1)) := by
        refine List.mem_map.2 ⟨k, List.mem_range.2 hk, ?_⟩
        rw [view_eq_shown hintact hk hvisible, hx]
      exact (hshown x hmem).resolve_right (by simp)

/-- As long as newlines and limit spoil nothing, a login shows each URL with its own code if and
only if each prompt whose tokens are kept while another's code is the last one has its URL outdone,
and the last prompt's URL is there in the end, not outdone, with its code. -/
theorem paired_iff (hintact : o.Intact) (ttl : Nat) : o.Paired ttl ↔ o.Leading := by
  obtain ⟨p, emitted, hrun, hheld, hemitted⟩ := run_of_intact hintact ttl
  constructor
  · rintro ⟨p', emitted', hrun', hlast, hpairs⟩
    cases hrun.symm.trans hrun'
    constructor
    · intro k hbound hvisible x hx hmem code hcode hpair
      by_contra hnot
      have hshown : o.shown k = some (x.1.url, code) := shown_eq_some_iff.2 ⟨⟨hmem, hnot⟩, hcode⟩
      obtain ⟨a, ha, hax⟩ := (hemitted (x.1.url, code)).2 ⟨k, hbound, hvisible, hshown⟩
      have hprompt : a.verificationUrl ∈ o.pairs.map Prod.fst := by
        rw [(Prod.mk.inj hax).1]
        exact List.mem_map.2 ⟨_, List.mem_map.2 ⟨x, hx, rfl⟩, rfl⟩
      exact hpair (hax ▸ hpairs a ha hprompt)
    · obtain ⟨k, hk, hshown⟩ := (hheld _).1 hlast
      obtain ⟨⟨hmem, hnot⟩, hcode⟩ := shown_eq_some_iff.1 hshown
      exact ⟨k, hk, hmem, hnot, hcode⟩
  · rintro ⟨halong, k, hk, hmem, hnot, hcode⟩
    refine ⟨p, emitted, hrun, (hheld _).2 ⟨k, hk, shown_eq_some_iff.2 ⟨⟨hmem, hnot⟩, hcode⟩⟩, ?_⟩
    intro a ha hprompt
    obtain ⟨j, hbound, hvisible, hshown⟩ := (hemitted a.pair).1 ⟨a, ha, rfl⟩
    obtain ⟨⟨hurl, hleads⟩, hlastCode⟩ := shown_eq_some_iff.1 hshown
    obtain ⟨pair, hpair, hfst⟩ := List.mem_map.1 hprompt
    obtain ⟨x, hx, rfl⟩ := List.mem_map.1 hpair
    by_contra hother
    have hxurl : x.1.url = a.verificationUrl := hfst
    rw [← hxurl] at hurl hleads
    refine hleads (halong j hbound hvisible x hx hurl a.userCode hlastCode ?_)
    rw [hxurl]
    exact hother

theorem mem_urlsOf {tokens : List Token} {url : Str} : url ∈ urlsOf tokens ↔ .url url ∈ tokens := by
  rw [urlsOf, List.mem_filterMap]
  constructor
  · rintro ⟨t, ht, hts⟩
    cases t with
    | url s =>
      cases hts
      exact ht
    | code s => cases hts
  · exact fun h => ⟨_, h, rfl⟩

theorem mem_codesOf {tokens : List Token} {code : Str} : code ∈ codesOf tokens ↔
    .code code ∈ tokens := by
  rw [codesOf, List.mem_filterMap]
  constructor
  · rintro ⟨t, ht, hts⟩
    cases t with
    | url s => cases hts
    | code s =>
      cases hts
      exact ht
  · exact fun h => ⟨_, h, rfl⟩

/-- One prompt, shown once or again without a start URL, is shown as it is if some call has a URL
and a code in view. -/
theorem leading_of_same {q : Prompt} (hsame : ∀ x ∈ o.prompts, x.1 = q) (hstart : o.startUrl = none)
    (hintact : o.Intact) (hvisible : ∃ k ≤ o.feeds.length, o.Visible k) : o.Leading := by
  have hlast : o.lastPrompt = q := hsame _ (List.getLast_mem o.some_prompt)
  have htokens (k : Nat) : ∀ t ∈ o.window k, t = .url q.url ∨ t = .code q.code := by
    intro t ht
    have hall := (o.upTo_prefix k).subset (List.mem_of_mem_drop ht)
    rw [o.tokens_eq, hstart] at hall
    obtain ⟨x, hx, ht⟩ := List.mem_flatMap.1 hall
    exact hsame x hx ▸ (o.complete x hx).1 t ht
  have hurl {k : Nat} {url : Str} (h : url ∈ urlsOf (o.window k)) : url = q.url := by
    rcases htokens k _ (mem_urlsOf.1 h) with heq | heq
    · exact Token.url.inj heq
    · cases heq
  have hcode {k : Nat} {code : Str} (h : code ∈ (codesOf (o.window k)).getLast?) :
      code = q.code := by
    rcases htokens k _ (mem_codesOf.1 (List.mem_of_getLast? h)) with heq | heq
    · cases heq
    · exact Token.code.inj heq
  constructor
  · intro k _ _ x hx _ code hlastCode hpair
    refine absurd (List.mem_map.2 ⟨x, hx, ?_⟩) hpair
    rw [hcode hlastCode, hsame x hx]
  · -- the last call with something in view
    obtain ⟨k, hk, hafter⟩ : ∃ k, (k ≤ o.feeds.length ∧ o.Visible k) ∧
        ∀ j, k < j → j ≤ o.feeds.length → ¬ o.Visible j := by
      classical
      obtain ⟨k, hk, hshows⟩ := hvisible
      refine ⟨Nat.findGreatest o.Visible o.feeds.length,
        ⟨Nat.findGreatest_le _, Nat.findGreatest_spec hk hshows⟩, ?_⟩
      exact fun j hkj hj => Nat.findGreatest_is_greatest hkj hj
    obtain ⟨x, hx⟩ := Option.isSome_iff_exists.1 (visible_iff.1 hk.2)
    rw [view_eq_shown hintact hk.1 hk.2] at hx
    obtain ⟨⟨hmem, hnot⟩, hlastCode⟩ :=
      shown_eq_some_iff.1 (show o.shown k = some (x.1, x.2) from hx)
    have hq : x.1 = o.lastPrompt.url := by rw [hurl hmem, hlast]
    have hc : x.2 = o.lastPrompt.code := by rw [hcode hlastCode, hlast]
    rw [hq] at hmem hnot
    rw [hc] at hlastCode
    exact ⟨k, ⟨hk.2, hk.1, hafter⟩, hmem, hnot, hlastCode⟩

end Output

/-! ## Two logins -/

def asciiTables : Tables where
  decimal _ := none
  rejects _ := false

def onePrompt : Output asciiTables where
  startUrl := none
  prompts := [(⟨Str.ofString "https://d.example/verify", Str.ofString "ABCD-EFGH"⟩,
    [.url (Str.ofString "https://d.example/verify"), .code (Str.ofString "ABCD-EFGH")])]
  feeds := [⟨Str.ofString "Open https://d.example/verify Code: abcd-efgh", 0,
    [.url (Str.ofString "https://d.example/verify"), .code (Str.ofString "ABCD-EFGH")]⟩]
  some_prompt := List.cons_ne_nil _ _
  complete := by decide
  tokens_eq := by decide
  urls_eq := by decide +kernel
  codes_eq := by decide +kernel

theorem onePrompt_intact : onePrompt.Intact := by
  have hlater : ∀ k, onePrompt.kept (k + 1) = onePrompt.kept 1
    | 0 => rfl
    | _ + 1 => rfl
  refine ⟨fun k => ?_, fun k hk hvisible => ?_⟩
  · cases k with
    | zero => exact fun _ hc => absurd hc List.not_mem_nil
    | succ k =>
      rw [hlater k]
      decide +kernel
  · cases k with
    | zero => exact absurd hvisible Output.not_visible_zero
    | succ k =>
      obtain rfl : k = 0 := Nat.le_zero.1 (Nat.le_of_succ_le_succ hk)
      constructor <;> decide +kernel

theorem paired_iff_onePrompt : onePrompt.Paired 600 :=
  (Output.paired_iff onePrompt_intact 600).2
    (@Output.leading_of_same _ _ ⟨Str.ofString "https://d.example/verify", Str.ofString "ABCD-EFGH"⟩
      (by decide) rfl
      onePrompt_intact ⟨1, le_rfl, by constructor <;> decide +kernel⟩)

/-- Two prompts, each in a call of its own. -/
def twoPrompts : Output asciiTables where
  startUrl := none
  prompts := [(⟨Str.ofString "https://a.example", Str.ofString "AAAA-BBBB"⟩,
      [.url (Str.ofString "https://a.example"), .code (Str.ofString "AAAA-BBBB")]),
    (⟨Str.ofString "https://c.example", Str.ofString "CCCC-DDDD"⟩,
      [.url (Str.ofString "https://c.example"), .code (Str.ofString "CCCC-DDDD")])]
  feeds :=
    [⟨Str.ofString "https://a.example code: AAAA-BBBB\n", 0,
      [.url (Str.ofString "https://a.example"), .code (Str.ofString "AAAA-BBBB")]⟩,
    ⟨Str.ofString "https://c.example code: CCCC-DDDD\n", 0,
    [.url (Str.ofString "https://c.example"), .code (Str.ofString "CCCC-DDDD")]⟩]
  some_prompt := List.cons_ne_nil _ _
  complete := by decide
  tokens_eq := by decide
  urls_eq := by decide +kernel
  codes_eq := by decide +kernel

/-- The second code is shown with the first URL. -/
theorem second_prompt_mixes : ¬ ∀ (u : Tables) (o : Output u) (ttl : Nat), o.Paired ttl := by
  intro hclaim
  obtain ⟨p, emitted, hrun, hheld, -⟩ := hclaim asciiTables twoPrompts 600
  have hmixed : (Parser.run asciiTables { defaultTtl := 600 }
    (twoPrompts.feeds.map fun f => (f.text, f.now))).map
      (fun x => x.1.authorization.map DeviceAuthorization.pair) =
          some (some (Str.ofString "https://a.example", Str.ofString "CCCC-DDDD")) := by
    decide +kernel
  rw [hrun, Option.map_some, hheld] at hmixed
  exact absurd hmixed (by decide)

end KiroCrew.DeviceFlow
