import KiroCrew.Lib.Url

/-!
# The adapter's route policy

`KiroCrewRoutePolicy.classify` decides on the path as it is written; the loopback client and the
gateway route it decoded. `guarded_iff` says for which spellings a route of a denied family is not
denied.
-/

namespace KiroCrew

inductive RouteDisposition
  | allowed | synthetic | unavailable | denied
deriving DecidableEq, Repr

/-- `path == prefix or path.startswith(f"{prefix}/")` -/
def hasPrefix (path stem : Str) : Bool := decide (path = stem) || (stem ++ [47]).isPrefixOf path

structure RouteRule where
  methods : List Str
  path : Str
  isPrefix : Bool := true

def RouteRule.accepts (rule : RouteRule) (method path : Str) : Bool :=
  decide (method ∈ rule.methods) &&
    (decide (path = rule.path) || rule.isPrefix && (rule.path ++ [47]).isPrefixOf path)

namespace KiroCrewRoutePolicy

def syntheticRules : List RouteRule :=
  [⟨[Str.ofString "GET"], Str.ofString "/api/auth/status", false⟩,
    ⟨[Str.ofString "GET"], Str.ofString "/api/auth/local-token", false⟩,
    ⟨[Str.ofString "POST"], Str.ofString "/api/auth/refresh", false⟩,
    ⟨[Str.ofString "POST"], Str.ofString "/api/auth/logout", false⟩]

def unavailablePrefixes : List Str := [Str.ofString "/api/desktop", Str.ofString "/api/files/pick"]

def deniedPrefixes : List Str :=
  [Str.ofString "/api/token", Str.ofString "/api/auth/token", Str.ofString "/api/secrets",
    Str.ofString "/api/config/export",
    Str.ofString "/api/shutdown", Str.ofString "/api/restart", Str.ofString "/api/update",
    Str.ofString "/api/debug",
    Str.ofString "/api/kas-bundle/install"]

/-- The form of a path that is looked up. -/
def wellFormed (path : Str) : Bool :=
  (Str.ofString "/api/").isPrefixOf path && !decide ([47, 47] <:+: path) &&
    (path.splitOn 47).all fun part => decide (part ≠ [46] ∧ part ≠ [46, 46])

/-- The disposition of a path of that form. -/
def lookup (method path : Str) : RouteDisposition :=
  if deniedPrefixes.any (hasPrefix path) then .denied
  else if unavailablePrefixes.any (hasPrefix path) then .unavailable
  else if syntheticRules.any (·.accepts method path) then .synthetic
  else .allowed

/-- `classify`; `upper` is `str.upper`, and `none` the `ValueError` of `urlsplit`. -/
def classify (k : Url.NetlocChecks) (upper : Str → Str) (method pathWithQuery : Str) :
    Option RouteDisposition :=
  (Url.urlsplit k pathWithQuery).map fun parsed =>
    if parsed.scheme ≠ [] ∨ parsed.netloc ≠ [] ∨ parsed.fragment ≠ [] ∨
      wellFormed parsed.path = false then .denied
    else lookup (upper method) parsed.path

/-- `kirocrew.http` and the WebSocket tunnel go to the gateway for an allowed route only. -/
def forwards (k : Url.NetlocChecks) (upper : Str → Str) (method pathWithQuery : Str) : Prop :=
  classify k upper method pathWithQuery = some .allowed

def DeniedFamily (path : Str) : Prop := deniedPrefixes.any (hasPrefix path) = true

instance (path : Str) : Decidable (DeniedFamily path) := inferInstanceAs (Decidable (_ = true))

/-- When the gateway would route the request to a denied family, it is denied, and does not get
there. -/
def Guarded (k : Url.NetlocChecks) (upper : Str → Str) (method pathWithQuery : Str) : Prop :=
  ∀ parsed, Url.urlsplit k pathWithQuery = some parsed → DeniedFamily (Url.routed parsed.path) →
    classify k upper method pathWithQuery = some .denied ∧ ¬ forwards k upper method pathWithQuery

/-- The characters of the denied families, and the dot of a relative segment. -/
def isSpelling (c : Nat) : Bool := decide (97 ≤ c ∧ c ≤ 122 ∨ c = 45 ∨ c = 46 ∨ c = 47)

/-- A denied route under another spelling: an escape hides what the path is routed to. -/
structure Disguised (parsed : Url.SplitResult) : Prop where
  escape : ∃ v, isSpelling v = true ∧ .escaped v ∈ Url.tokens parsed.path
  relative : parsed.scheme = [] ∧ parsed.netloc = [] ∧ parsed.fragment = []
  form : wellFormed parsed.path = true
  unlisted : ¬ DeniedFamily parsed.path
  routed : DeniedFamily (Url.routed parsed.path)

/-! ## Paths without such escapes -/

theorem spelling_of_denied {stem : Str} (h : stem ∈ deniedPrefixes) : ∀ c ∈ stem ++ [47],
    isSpelling c = true ∧ c ≠ 37 := by
  revert stem
  decide

/-- Without escapes of the characters of a denied family, a path is routed to one only when it is
written so. -/
theorem denied_of_routed {path : Str} (hescape : ∀ v, isSpelling v = true →
    .escaped v ∉ Url.tokens path)
    (hform : wellFormed path = true) (h : DeniedFamily (Url.routed path)) : DeniedFamily path := by
  have hdots : ∀ s ∈ path.splitOn 47, s ≠ [46] ∧ s ≠ [46, 46] := by
    rw [wellFormed, Bool.and_eq_true, List.all_eq_true] at hform
    exact fun s hs => of_decide_eq_true (hform.2 s hs)
  rw [Url.routed_of_no_dots hdots (hescape 46 rfl)] at h
  obtain ⟨stem, hstem, hbelow⟩ := List.any_eq_true.1 h
  have hspelling := spelling_of_denied hstem
  refine List.any_eq_true.2 ⟨stem, hstem, ?_⟩
  rw [hasPrefix, Bool.or_eq_true, decide_eq_true_eq, List.isPrefixOf_iff_prefix] at hbelow ⊢
  rcases hbelow with heq | hbelow
  · have hstem := fun c hc => hspelling c (List.mem_append_left _ hc)
    exact Or.inl ((Url.spelled_iff (fun hp => (hstem 37 hp).2 rfl) fun v hv =>
      hescape v (hstem v hv).1).2 heq)
  · exact Or.inr ((Url.spelled_iff (fun hp => (hspelling 37 hp).2 rfl) fun v hv =>
      hescape v (hspelling v hv).1).1.1 hbelow)

theorem classify_eq_denied_iff {k : Url.NetlocChecks} {upper : Str → Str}
    {method pathWithQuery : Str} {parsed : Url.SplitResult}
    (h : Url.urlsplit k pathWithQuery = some parsed) : classify k upper method pathWithQuery =
    some .denied ↔
      ¬ ((parsed.scheme = [] ∧ parsed.netloc = [] ∧ parsed.fragment = []) ∧
      wellFormed parsed.path = true ∧ ¬ DeniedFamily parsed.path) := by
  rw [classify, h, Option.map_some, Option.some.injEq]
  split_ifs with hform
  · refine iff_of_true rfl ?_
    rintro ⟨⟨hscheme, hnetloc, hfragment⟩, hwell, _⟩
    rcases hform with hne | hne | hne | hne
    · exact hne hscheme
    · exact hne hnetloc
    · exact hne hfragment
    · rw [hwell] at hne
      cases hne
  · simp only [not_or, not_not, Bool.not_eq_false] at hform
    obtain ⟨hscheme, hnetloc, hfragment, hwell⟩ := hform
    by_cases hdenied : DeniedFamily parsed.path
    · have hlookup : lookup (upper method) parsed.path = .denied := if_pos hdenied
      exact iff_of_true hlookup fun hall => hall.2.2 hdenied
    · refine iff_of_false ?_ (not_not.2 ⟨⟨hscheme, hnetloc, hfragment⟩, hwell, hdenied⟩)
      have hany : ¬ deniedPrefixes.any (hasPrefix parsed.path) = true := hdenied
      rw [lookup, if_neg hany]
      split_ifs <;> decide

/-- A denied family is guarded for every spelling but a disguised one. -/
theorem guarded_iff (k : Url.NetlocChecks) (upper : Str → Str) (method pathWithQuery : Str) :
    Guarded k upper method pathWithQuery ↔ ∀ parsed, Url.urlsplit k pathWithQuery = some parsed →
    ¬ Disguised parsed := by
  constructor
  · intro h parsed hparsed hdisguised
    obtain ⟨hdenied, _⟩ := h parsed hparsed hdisguised.routed
    exact (classify_eq_denied_iff hparsed).1 hdenied
      ⟨hdisguised.relative, hdisguised.form, hdisguised.unlisted⟩
  · intro h parsed hparsed hrouted
    have hdenied : classify k upper method pathWithQuery = some .denied := by
      rw [classify_eq_denied_iff hparsed]
      rintro ⟨hrelative, hform, hunlisted⟩
      refine h parsed hparsed ⟨?_, hrelative, hform, hunlisted, hrouted⟩
      by_contra hescape
      refine hunlisted (denied_of_routed (fun v hv hmem => hescape ⟨v, hv, hmem⟩) hform hrouted)
    refine ⟨hdenied, ?_⟩
    rw [forwards, hdenied]
    decide

/-! ## An escaped letter -/

/-- Hosts in brackets and other than ASCII are taken. -/
def anyHost : Url.NetlocChecks := ⟨fun _ => true, fun _ => true⟩

theorem token_disguised : ¬ ∀ k upper method pathWithQuery,
    Guarded k upper method pathWithQuery := by
  intro h
  have hparsed : Url.urlsplit anyHost (Str.ofString "/api/%74oken/local") =
      some ⟨[], [], Str.ofString "/api/%74oken/local", [], []⟩ := by decide
  have hrouted : DeniedFamily (Url.routed (Str.ofString "/api/%74oken/local")) := by decide
  obtain ⟨hdenied, _⟩ := h anyHost id (Str.ofString "GET") _ _ hparsed hrouted
  have hallowed : classify anyHost id (Str.ofString "GET") (Str.ofString "/api/%74oken/local") =
    some .allowed := by decide
  rw [hallowed] at hdenied
  cases hdenied

end KiroCrewRoutePolicy

end KiroCrew
