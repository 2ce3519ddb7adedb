import KiroCrew.RoutePolicy

/-!
# The shell's route policy

`classifyKiroCrewRoute` decides on the pathname of a parsed URL, `KiroCrewRoutePolicy.classify`
splits the pathname and the query it is sent once more. `agree_iff` says when they come to the same.
-/

namespace KiroCrew.Shell

/-! ## The shell's side -/

/-- What the URL parser leaves of a path unescaped, and the slash. -/
def isPathChar (c : Nat) : Bool :=
  decide (33 ≤ c ∧ c ≤ 126 ∧ c ≠ 34 ∧ c ≠ 35 ∧ c ≠ 60 ∧ c ≠ 62 ∧ c ≠ 63 ∧ c ≠ 96 ∧
    c ≠ 123 ∧ c ≠ 125)

def isQueryChar (c : Nat) : Bool :=
  decide (33 ≤ c ∧ c ≤ 126 ∧ c ≠ 34 ∧ c ≠ 35 ∧ c ≠ 39 ∧ c ≠ 60 ∧ c ≠ 62)

/-- A parsed `https` or `wss` URL. -/
structure PageUrl where
  canonicalOrigin : Str
  pathname : Str
  search : Str
  root : pathname.head? = some 47
  path : ∀ c ∈ pathname, isPathChar c = true
  query : search = [] ∨ ∃ q, search = 63 :: q ∧ ∀ c ∈ q, isQueryChar c = true

def kiroPrerequisitePath : Str := Str.ofString "/api/kiro-prerequisite"
def onboardingScanPath : Str := Str.ofString "/api/onboarding/import/scan"
def onboardingStatePath : Str := Str.ofString "/api/onboarding/import/state"

def syntheticRoutes : List Str :=
  [Str.ofString "GET /api/auth/status", Str.ofString "GET /api/auth/local-token",
    Str.ofString "POST /api/auth/refresh",
    Str.ofString "POST /api/auth/logout", Str.ofString "GET " ++ kiroPrerequisitePath,
    Str.ofString "GET " ++ onboardingScanPath,
    Str.ofString "PUT " ++ onboardingStatePath]

def unavailablePrefixes : List Str := [Str.ofString "/api/desktop", Str.ofString "/api/files/pick"]

def deniedPrefixes : List Str :=
  [Str.ofString "/api/token", Str.ofString "/api/auth/token", Str.ofString "/api/secrets",
    Str.ofString "/api/config/export",
    Str.ofString "/api/shutdown", Str.ofString "/api/restart", Str.ofString "/api/update",
    Str.ofString "/api/debug",
    Str.ofString "/api/kas-bundle/install"]

/-- `validatedUrl`; `none` is the `RemoteTransportError`. -/
def validatedUrl (url : PageUrl) (origin : Str) : Option PageUrl :=
  if url.canonicalOrigin ≠ origin ∨ (Str.ofString "/api/").isPrefixOf url.pathname = false ∨
    [47, 47] <:+: url.pathname ∨
      (url.pathname.splitOn 47).any (fun part => decide (part = [46] ∨ part = [46, 46])) then none
  else some url

/-- `upper` is `toUpperCase`. -/
def classifyKiroCrewRoute (upper : Str → Str) (method : Str) (url : PageUrl) (origin : Str) :
    RouteDisposition :=
  match validatedUrl url origin with
  | none => .denied
  | some url =>
    if deniedPrefixes.any (hasPrefix url.pathname) then .denied
    else if unavailablePrefixes.any (hasPrefix url.pathname) then .unavailable
    else if upper method ++ 32 :: url.pathname ∈ syntheticRoutes then .synthetic
    else .allowed

/-! ## The property -/

/-- The routes that the shell answers itself. -/
def shellOnly (method path : Str) : Prop :=
  method = Str.ofString "GET" ∧ (path = kiroPrerequisitePath ∨ path = onboardingScanPath) ∨
    method = Str.ofString "PUT" ∧ path = onboardingStatePath

instance (method path : Str) : Decidable (shellOnly method path) :=
  inferInstanceAs (Decidable (_ ∨ _))

/-- The adapter gives the pathname and query of a same-origin URL the shell's disposition. -/
def Agree (k : Url.NetlocChecks) (upper : Str → Str) (method : Str) (url : PageUrl) : Prop :=
  ∃ disposition, KiroCrewRoutePolicy.classify k upper method (url.pathname ++ url.search) =
    some disposition ∧
    if shellOnly (upper method) url.pathname then
      classifyKiroCrewRoute upper method url url.canonicalOrigin = .synthetic ∧
        disposition = .allowed
    else disposition = classifyKiroCrewRoute upper method url url.canonicalOrigin

/-- What `urlsplit` takes for a host at the front of a pathname. -/
def hostOf (rest : Str) : Str := rest.takeWhile fun c => decide (c ≠ 47)

/-- A pathname that starts with two slashes is refused by the adapter for its host, or without one
for the rest. -/
def Refused (k : Url.NetlocChecks) (pathname : Str) : Prop :=
  ∀ rest, pathname = 47 :: 47 :: rest →
    if hostOf rest = [] then KiroCrewRoutePolicy.wellFormed rest = true →
    KiroCrewRoutePolicy.DeniedFamily rest
    else k.accepts (hostOf rest) = true

/-! ## The string that is sent -/

theorem takeWhile_append_stop {p : Nat → Bool} {s t : Str} (hs : ∀ c ∈ s, p c = true)
    (ht : t.head?.all (!p ·) = true) :
    (s ++ t).takeWhile p = s ∧ (s ++ t).dropWhile p = t := by
  have hstop : t.takeWhile p = [] ∧ t.dropWhile p = t := by
    cases t with
    | nil => exact ⟨rfl, rfl⟩
    | cons c t =>
      have hc : p c = false := by simpa using ht
      simp [hc]
  rw [List.takeWhile_append_of_pos hs, List.dropWhile_append_of_pos hs, hstop.1, hstop.2,
    List.append_nil]
  exact ⟨rfl, rfl⟩

namespace PageUrl

variable (url : PageUrl)

theorem search_head : url.search.head?.all (fun c => decide (c = 63)) = true := by
  rcases url.query with hnil | ⟨q, hq, _⟩
  · rw [hnil]
    rfl
  · rw [hq]
    rfl

theorem sent_chars : ∀ c ∈ url.pathname ++ url.search, 33 ≤ c ∧ c ≤ 126 ∧ c ≠ 35 := by
  have hpath : ∀ c ∈ url.pathname, 33 ≤ c ∧ c ≤ 126 ∧ c ≠ 35 := by
    intro c hc
    have hchar := of_decide_eq_true (url.path c hc)
    exact ⟨hchar.1, hchar.2.1, hchar.2.2.2.1⟩
  have hsearch : ∀ c ∈ url.search, 33 ≤ c ∧ c ≤ 126 ∧ c ≠ 35 := by
    rcases url.query with hnil | ⟨q, hq, hchars⟩
    · rw [hnil]
      simp
    · rw [hq, List.forall_mem_cons]
      refine ⟨by decide, fun c hc => ?_⟩
      have hchar := of_decide_eq_true (hchars c hc)
      exact ⟨hchar.1, hchar.2.1, hchar.2.2.2.1⟩
  exact List.forall_mem_append.2 ⟨hpath, hsearch⟩

/-- Behind a host, or without one, the path ends where the query begins. -/
theorem cutAt_search {path : Str} (h : path <:+ url.pathname) :
    Url.cutAt 35 (path ++ url.search) = (path ++ url.search, []) ∧
    (Url.cutAt 63 (path ++ url.search)).1 = path := by
  have hmem : ∀ c ∈ path, c ∈ url.pathname := fun c hc => h.subset hc
  have hsharp : ∀ c ∈ path ++ url.search, decide (c ≠ 35) = true := by
    intro c hc
    refine decide_eq_true (url.sent_chars c ?_).2.2
    exact (List.mem_append.1 hc).elim (fun hc => List.mem_append_left _ (hmem c hc))
      (List.mem_append_right _)
  have hquestion : ∀ c ∈ path, decide (c ≠ 63) = true := fun c hc =>
    decide_eq_true (of_decide_eq_true (url.path c (hmem c hc))).2.2.2.2.2.2.1
  have hstop : url.search.head?.all (fun c => !decide (c ≠ 63)) = true := by
    have hhead := url.search_head
    cases hs : url.search.head? with
    | none => rfl
    | some c =>
      rw [hs] at hhead
      simpa using hhead
  have hfragment := takeWhile_append_stop (t := []) hsharp rfl
  rw [List.append_nil] at hfragment
  constructor
  · rw [Url.cutAt, hfragment.1, hfragment.2]
    rfl
  · exact (takeWhile_append_stop hquestion hstop).1

theorem sent_cons : ∃ s, url.pathname ++ url.search = 47 :: s := by
  cases h : url.pathname with
  | nil =>
    have hroot := url.root
    rw [h] at hroot
    cases hroot
  | cons c path =>
    have hroot := url.root
    rw [h, List.head?_cons, Option.some.injEq] at hroot
    exact ⟨path ++ url.search, by rw [hroot]; rfl⟩

theorem splitScheme_sent : Url.splitScheme (url.pathname ++ url.search) =
    ([], url.pathname ++ url.search) := by
  obtain ⟨s, hs⟩ := url.sent_cons
  rw [hs, Url.splitScheme]
  refine if_neg ?_
  rintro ⟨_, hletter, _⟩
  exact absurd hletter (by simp [Url.isAlpha])

/-- The string is split as it is: it has no control characters and no scheme. -/
theorem urlsplit_sent (k : Url.NetlocChecks) : Url.urlsplit k (url.pathname ++ url.search) =
    let (netloc, rest) := Url.splitNetloc (url.pathname ++ url.search)
    if k.accepts netloc then
      some ⟨[], netloc, (Url.cutAt 63 (Url.cutAt 35 rest).1).1,
        (Url.cutAt 63 (Url.cutAt 35 rest).1).2, (Url.cutAt 35 rest).2⟩
    else none := by
  have hchars := url.sent_chars
  have hclean : ((url.pathname ++ url.search).dropWhile fun c => decide (c ≤ 32)).filter
    (fun c => decide (c ≠ 9 ∧ c ≠ 10 ∧ c ≠ 13)) =
      url.pathname ++ url.search := by
    have hfront : ((url.pathname ++ url.search).dropWhile fun c => decide (c ≤ 32)) =
        url.pathname ++ url.search := by
      obtain ⟨s, hs⟩ := url.sent_cons
      rw [hs]
      rfl
    rw [hfront, List.filter_eq_self]
    intro c hc
    have hprintable := (hchars c hc).1
    exact decide_eq_true (by omega)
  unfold Url.urlsplit
  simp only [hclean, url.splitScheme_sent]

theorem urlsplit_single (k : Url.NetlocChecks) (h : ∀ rest, url.pathname ≠ 47 :: 47 :: rest) :
    ∃ query, Url.urlsplit k (url.pathname ++ url.search) =
      some ⟨[], [], url.pathname, query, []⟩ := by
  have htake : ¬ (url.pathname ++ url.search).take 2 = [47, 47] := by
    intro htake
    have hroot := url.root
    have hhead := url.search_head
    match hpath : url.pathname with
    | [] =>
      rw [hpath] at hroot
      cases hroot
    | [c] =>
      rw [hpath] at htake
      cases hsearch : url.search with
      | nil =>
        rw [hsearch] at htake
        cases htake
      | cons d search =>
        rw [hsearch] at htake hhead
        obtain ⟨_, rfl⟩ : c = 47 ∧ d = 47 := by simpa using htake
        cases hhead
    | c :: d :: rest =>
      rw [hpath] at htake
      obtain ⟨rfl, rfl⟩ : c = 47 ∧ d = 47 := by simpa using htake
      exact h rest hpath
  have hnetloc : Url.splitNetloc (url.pathname ++ url.search) = ([], url.pathname ++ url.search) :=
    if_neg htake
  obtain ⟨hfragment, hpath⟩ := url.cutAt_search (List.suffix_refl url.pathname)
  have haccepts : k.accepts [] = true := rfl
  rw [urlsplit_sent, hnetloc]
  simp only [haccepts, if_true, hfragment, hpath]
  exact ⟨_, rfl⟩

theorem urlsplit_double (k : Url.NetlocChecks) {rest : Str} (h : url.pathname = 47 :: 47 :: rest) :
    ∃ query, Url.urlsplit k (url.pathname ++ url.search) =
      if k.accepts (hostOf rest) then some ⟨[], hostOf rest, rest.dropWhile fun c =>
      decide (c ≠ 47), query, []⟩ else none := by
  have hmem : ∀ c ∈ rest, c ∈ url.pathname := fun c hc => by
    rw [h]
    exact List.mem_cons_of_mem _ (List.mem_cons_of_mem _ hc)
  have hhost : ∀ c ∈ hostOf rest, (!Url.isDelimiter c) = true := by
    intro c hc
    have hslash : c ≠ 47 :=
      of_decide_eq_true (List.mem_takeWhile_imp (p := fun c => decide (c ≠ 47)) hc)
    have hchar := of_decide_eq_true (url.path c (hmem c (List.takeWhile_subset _ hc)))
    have hdelimiter : ¬ (c = 47 ∨ c = 63 ∨ c = 35) := by omega
    rw [Url.isDelimiter, decide_eq_false hdelimiter]
    rfl
  have hstop : (rest.dropWhile (fun c => decide (c ≠ 47)) ++ url.search).head?.all
      (fun c => !!Url.isDelimiter c) = true := by
    cases hdrop : rest.dropWhile fun c => decide (c ≠ 47) with
    | nil =>
      have hhead := url.search_head
      cases hs : url.search with
      | nil => rfl
      | cons c search =>
        rw [hs] at hhead
        obtain rfl : c = 63 := by simpa using hhead
        rfl
    | cons c after =>
      have hfirst := List.head?_dropWhile_not (fun c => decide (c ≠ 47)) rest
      rw [hdrop, List.head?_cons] at hfirst
      obtain rfl : c = 47 := by simpa using hfirst
      rfl
  have hsplit : rest ++ url.search = hostOf rest ++
      (rest.dropWhile (fun c => decide (c ≠ 47)) ++ url.search) := by
    rw [← List.append_assoc, hostOf, List.takeWhile_append_dropWhile]
  obtain ⟨htake, hdrop⟩ := takeWhile_append_stop hhost hstop
  have hnetloc : Url.splitNetloc (url.pathname ++ url.search) =
      (hostOf rest, rest.dropWhile (fun c => decide (c ≠ 47)) ++ url.search) := by
    have htwo : (url.pathname ++ url.search).drop 2 = rest ++ url.search := by rw [h]; rfl
    have hslashes : (url.pathname ++ url.search).take 2 = [47, 47] := by rw [h]; rfl
    rw [Url.splitNetloc, if_pos hslashes, htwo, hsplit, htake, hdrop]
  have hsuffix : rest.dropWhile (fun c => decide (c ≠ 47)) <:+ url.pathname := by
    rw [h]
    exact (List.dropWhile_suffix _).trans ⟨[47, 47], rfl⟩
  obtain ⟨hfragment, hpath⟩ := url.cutAt_search hsuffix
  refine ⟨(Url.cutAt 63 (rest.dropWhile (fun c => decide (c ≠ 47)) ++ url.search)).2, ?_⟩
  rw [urlsplit_sent, hnetloc]
  simp only [hfragment, hpath]

end PageUrl

/-! ## Looking up a path -/

theorem append_cons_inj {x : Nat} {a b c d : Str} (hb : x ∉ b) (hd : x ∉ d)
    (h : a ++ x :: b = c ++ x :: d) : a = c ∧ b = d := by
  induction a generalizing c with
  | nil =>
    cases c with
    | nil => exact ⟨rfl, (List.cons.inj h).2⟩
    | cons y c =>
      obtain ⟨_, htail⟩ := List.cons.inj h
      exact absurd (htail ▸ List.mem_append_right c List.mem_cons_self) hb
  | cons y a ih =>
    cases c with
    | nil =>
      obtain ⟨_, htail⟩ := List.cons.inj h
      exact absurd (htail ▸ List.mem_append_right a List.mem_cons_self) hd
    | cons z c =>
      rw [List.cons_append, List.cons_append, List.cons.injEq] at h
      obtain ⟨hac, hbd⟩ := ih h.2
      exact ⟨by rw [h.1, hac], hbd⟩

theorem route_eq_iff {method path name rest : Str} (hpath : 32 ∉ path) (hrest : 32 ∉ rest) :
    method ++ 32 :: path = name ++ 32 :: rest ↔ method = name ∧ path = rest := by
  constructor
  · exact append_cons_inj hpath hrest
  · rintro ⟨rfl, rfl⟩
    rfl

/-- The synthetic routes by method and path. -/
def routes : List (Str × Str) :=
  [(Str.ofString "GET", Str.ofString "/api/auth/status"),
    (Str.ofString "GET", Str.ofString "/api/auth/local-token"),
    (Str.ofString "POST", Str.ofString "/api/auth/refresh"),
    (Str.ofString "POST", Str.ofString "/api/auth/logout"),
    (Str.ofString "GET", kiroPrerequisitePath), (Str.ofString "GET", onboardingScanPath),
      (Str.ofString "PUT", onboardingStatePath)]

theorem accepts_iff (method path methods stem : Str) :
    (RouteRule.mk [methods] stem false).accepts method path = true ↔ method = methods ∧
    path = stem := by
  simp [RouteRule.accepts]

theorem mem_syntheticRoutes {method path : Str} (hpath : 32 ∉ path) :
    method ++ 32 :: path ∈ syntheticRoutes ↔
    KiroCrewRoutePolicy.syntheticRules.any (·.accepts method path) = true ∨
    shellOnly method path := by
  have hroutes : syntheticRoutes = routes.map fun r => r.1 ++ 32 :: r.2 := by decide
  have hspace : ∀ r ∈ routes, 32 ∉ r.2 := by decide
  have hmem : method ++ 32 :: path ∈ syntheticRoutes ↔ (method, path) ∈ routes := by
    rw [hroutes, List.mem_map]
    constructor
    · rintro ⟨r, hr, heq⟩
      obtain ⟨rfl, rfl⟩ := (route_eq_iff (hspace r hr) hpath).1 heq
      exact hr
    · exact fun h => ⟨_, h, rfl⟩
  rw [hmem]
  simp only [routes, KiroCrewRoutePolicy.syntheticRules, List.any_cons, List.any_nil,
    Bool.or_eq_true, accepts_iff, shellOnly,
    List.mem_cons, List.not_mem_nil, Prod.mk.injEq, Bool.false_eq_true, or_false,
    and_or_left, or_assoc]

theorem lookup_shellOnly {method path : Str} (h : shellOnly method path) :
    deniedPrefixes.any (hasPrefix path) = false ∧ unavailablePrefixes.any (hasPrefix path) = false ∧
      KiroCrewRoutePolicy.syntheticRules.any (·.accepts method path) = false := by
  rcases h with ⟨rfl, rfl | rfl⟩ | ⟨rfl, rfl⟩
  · decide
  · decide
  · decide

theorem validatedUrl_eq (url : PageUrl) : validatedUrl url url.canonicalOrigin =
    if KiroCrewRoutePolicy.wellFormed url.pathname = true then some url else none := by
  have hdots : (url.pathname.splitOn 47).any (fun part => decide (part = [46] ∨ part = [46, 46])) =
    true ↔
      ¬ (url.pathname.splitOn 47).all (fun part => decide (part ≠ [46] ∧ part ≠ [46, 46])) =
      true := by
    simp only [List.any_eq_true, List.all_eq_true, decide_eq_true_eq]
    push Not
    simp only [← or_iff_not_imp_left]
  have hform : KiroCrewRoutePolicy.wellFormed url.pathname = true ↔
    ¬ (url.canonicalOrigin ≠ url.canonicalOrigin ∨
      (Str.ofString "/api/").isPrefixOf url.pathname = false ∨ [47, 47] <:+: url.pathname ∨
      (url.pathname.splitOn 47).any (fun part => decide (part = [46] ∨ part = [46, 46])) =
          true) := by
    rw [hdots, KiroCrewRoutePolicy.wellFormed, Bool.and_eq_true, Bool.and_eq_true,
      Bool.not_eq_true', decide_eq_false_iff_not]
    simp only [ne_eq, not_true_eq_false, false_or, not_or, not_not, Bool.not_eq_false, and_assoc]
  rw [validatedUrl]
  by_cases h : KiroCrewRoutePolicy.wellFormed url.pathname = true
  · rw [if_neg (hform.1 h), if_pos h]
  · rw [if_pos (not_not.1 fun hn => h (hform.2 hn)), if_neg h]

/-- On a path of the right form the two policies differ in the three routes only. -/
theorem lookup_agree (upper : Str → Str) (method : Str) {url : PageUrl}
    (hform : KiroCrewRoutePolicy.wellFormed url.pathname = true) :
    if shellOnly (upper method) url.pathname then
      classifyKiroCrewRoute upper method url url.canonicalOrigin = .synthetic ∧
        KiroCrewRoutePolicy.lookup (upper method) url.pathname = .allowed
    else KiroCrewRoutePolicy.lookup (upper method) url.pathname =
        classifyKiroCrewRoute upper method url url.canonicalOrigin := by
  have hspace : 32 ∉ url.pathname := fun hmem =>
    absurd (of_decide_eq_true (url.path 32 hmem)).1 (by decide)
  have hsame : KiroCrewRoutePolicy.deniedPrefixes = deniedPrefixes ∧
      KiroCrewRoutePolicy.unavailablePrefixes = unavailablePrefixes :=
    ⟨rfl, rfl⟩
  rw [classifyKiroCrewRoute, validatedUrl_eq, if_pos hform, KiroCrewRoutePolicy.lookup,
    hsame.1, hsame.2]
  simp only [mem_syntheticRoutes hspace]
  by_cases honly : shellOnly (upper method) url.pathname
  · obtain ⟨hdenied, hunavailable, hsynthetic⟩ := lookup_shellOnly honly
    rw [if_pos honly]
    simp only [hdenied, hunavailable, hsynthetic, honly, Bool.false_eq_true, or_true, if_false,
      if_true, and_self]
  · rw [if_neg honly]
    simp only [honly, or_false]

theorem shell_denied {url : PageUrl} (hform : ¬ KiroCrewRoutePolicy.wellFormed url.pathname = true)
    (upper : Str → Str) (method : Str) :
    classifyKiroCrewRoute upper method url url.canonicalOrigin = .denied := by
  rw [classifyKiroCrewRoute, validatedUrl_eq, if_neg hform]

theorem not_shellOnly_of_not_wellFormed {method path : Str}
    (h : ¬ KiroCrewRoutePolicy.wellFormed path = true) :
    ¬ shellOnly method path := by
  rintro (⟨_, rfl | rfl⟩ | ⟨_, rfl⟩) <;> exact h (by decide)

theorem not_wellFormed_double (rest : Str) :
    ¬ KiroCrewRoutePolicy.wellFormed (47 :: 47 :: rest) = true := by
  have hstart : (Str.ofString "/api/").isPrefixOf (47 :: 47 :: rest) = false := rfl
  rw [KiroCrewRoutePolicy.wellFormed, hstart, Bool.false_and, Bool.false_and]
  exact Bool.false_ne_true

theorem agree_of_wellFormed (k : Url.NetlocChecks) (upper : Str → Str) (method : Str)
    {url : PageUrl}
    (hform : KiroCrewRoutePolicy.wellFormed url.pathname = true) : Agree k upper method url := by
  obtain ⟨query, hsplit⟩ :=
    url.urlsplit_single k fun rest hpath => not_wellFormed_double rest (hpath ▸ hform)
  have hclassify : KiroCrewRoutePolicy.classify k upper method (url.pathname ++ url.search) =
      some (KiroCrewRoutePolicy.lookup (upper method) url.pathname) := by
    simp [KiroCrewRoutePolicy.classify, hsplit, hform]
  exact ⟨_, hclassify, lookup_agree upper method hform⟩

/-- What the shell sends, the adapter forwards. -/
theorem forwards_of_allowed (k : Url.NetlocChecks) {upper : Str → Str} {method : Str}
    {url : PageUrl}
    (h : classifyKiroCrewRoute upper method url url.canonicalOrigin = .allowed) :
    KiroCrewRoutePolicy.forwards k upper method (url.pathname ++ url.search) := by
  have hform : KiroCrewRoutePolicy.wellFormed url.pathname = true := by
    by_contra hform
    rw [shell_denied hform] at h
    cases h
  obtain ⟨disposition, hclassify, hsame⟩ := agree_of_wellFormed k upper method hform
  rw [h] at hsame
  split_ifs at hsame
  · exact absurd hsame.1 (by decide)
  · rw [KiroCrewRoutePolicy.forwards, hclassify, hsame]

/-- The two policies agree on a same-origin URL exactly when the adapter refuses a pathname that
starts with two slashes. -/
theorem agree_iff (k : Url.NetlocChecks) (upper : Str → Str) (method : Str) (url : PageUrl) :
    Agree k upper method url ↔ Refused k url.pathname := by
  by_cases hdouble : ∃ rest, url.pathname = 47 :: 47 :: rest
  · obtain ⟨rest, hpath⟩ := hdouble
    have hform : ¬ KiroCrewRoutePolicy.wellFormed url.pathname = true :=
      hpath ▸ not_wellFormed_double rest
    have hshell := shell_denied hform upper method
    have honly : ¬ shellOnly (upper method) url.pathname := not_shellOnly_of_not_wellFormed hform
    obtain ⟨query, hsplit⟩ := url.urlsplit_double k hpath
    have hagree : Agree k upper method url ↔
        KiroCrewRoutePolicy.classify k upper method (url.pathname ++ url.search) =
        some .denied := by
      simp only [Agree, if_neg honly, hshell, exists_eq_right]
    have hrefused : Refused k url.pathname ↔
        if hostOf rest = [] then KiroCrewRoutePolicy.wellFormed rest = true →
        KiroCrewRoutePolicy.DeniedFamily rest
        else k.accepts (hostOf rest) = true := by
      constructor
      · exact fun h => h rest hpath
      · intro h rest' hpath'
        obtain rfl : rest = rest' := by
          rw [hpath] at hpath'
          simpa using hpath'
        exact h
    rw [hagree, hrefused]
    by_cases haccepts : k.accepts (hostOf rest) = true
    · rw [if_pos haccepts] at hsplit
      rw [KiroCrewRoutePolicy.classify_eq_denied_iff hsplit]
      by_cases hhost : hostOf rest = []
      · have hrest : rest.dropWhile (fun c => decide (c ≠ 47)) = rest := by
          have happend :=
            List.takeWhile_append_dropWhile (p := fun c => decide (c ≠ 47)) (l := rest)
          rwa [show rest.takeWhile _ = [] from hhost, List.nil_append] at happend
        simp only [hhost, hrest, if_true, and_self, true_and, not_and, not_not]
      · simp only [hhost, if_false, false_and, and_false, not_false_eq_true, haccepts]
    · have hhost : hostOf rest ≠ [] := by
        intro hnil
        rw [hnil] at haccepts
        exact haccepts rfl
      rw [if_neg haccepts] at hsplit
      rw [if_neg hhost, KiroCrewRoutePolicy.classify, hsplit]
      exact iff_of_false (fun h => by cases h) haccepts
  · have hsingle : ∀ rest, url.pathname ≠ 47 :: 47 :: rest := fun rest hpath =>
      hdouble ⟨rest, hpath⟩
    have hrefused : Refused k url.pathname := fun rest hpath => absurd hpath (hsingle rest)
    refine iff_of_true ?_ hrefused
    by_cases hform : KiroCrewRoutePolicy.wellFormed url.pathname = true
    · exact agree_of_wellFormed k upper method hform
    · obtain ⟨query, hsplit⟩ := url.urlsplit_single k hsingle
      refine ⟨.denied, ?_, ?_⟩
      · rw [KiroCrewRoutePolicy.classify_eq_denied_iff hsplit]
        exact fun h => hform h.2.1
      · rw [if_neg (not_shellOnly_of_not_wellFormed hform), shell_denied hform]

/-- A host-less `//` at the front is all that `urlsplit` drops. -/
def tripleSlash : PageUrl where
  canonicalOrigin := Str.ofString "https://example.test"
  pathname := Str.ofString "///api/chat"
  search := []
  root := rfl
  path := by decide
  query := Or.inl rfl

theorem triple_slash_disagrees : ¬ ∀ k upper method url, Agree k upper method url := by
  intro h
  obtain ⟨disposition, hclassify, hsame⟩ :=
    h KiroCrewRoutePolicy.anyHost id (Str.ofString "GET") tripleSlash
  have hallowed : KiroCrewRoutePolicy.classify KiroCrewRoutePolicy.anyHost id (Str.ofString "GET")
      (tripleSlash.pathname ++ tripleSlash.search) = some .allowed := by decide
  have honly : ¬ shellOnly (id (Str.ofString "GET")) tripleSlash.pathname := by decide
  have hshell : classifyKiroCrewRoute id
    (Str.ofString "GET") tripleSlash tripleSlash.canonicalOrigin = .denied := by decide
  rw [hallowed] at hclassify
  cases hclassify
  rw [if_neg honly, hshell] at hsame
  cases hsame

end KiroCrew.Shell
