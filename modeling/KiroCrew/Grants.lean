import KiroCrew.Presign
import KiroCrew.Lib.Dict
import KiroCrew.Lib.Machine

/-!
# Chunk grants fetched ahead

`LambdaPersistenceBroker` keeps grants that a batch brought along, under a lock that
`prefetch_chunks` and the first part of `presign_chunk` hold; a plain `presign` comes after it. In
every interleaving a handed-out grant is what a direct `presign` of that chunk and method gives, a
cached one is handed out once and with a minute left, a batch that fails leads to the plain grant
and a refusal is raised (`presigns_as_direct`).
-/

namespace KiroCrew

open Json (Value)
open ManifestDecoder (Fields get)

inductive BrokerError
  /-- `BrokerRefusalError` -/
  | refusal
  /-- Another `BrokerAuthorizationError`. -/
  | authorization (message : String)
  /-- What `invoke` raises. -/
  | transport
deriving DecidableEq, Repr

/-- How a call of the broker goes. -/
inductive Service
  | refused
  /-- Another function error (the operation is not supported, or it failed), or an answer that is no
  object. -/
  | failed
  | unreachable
  | served (moments : Nat → Signing)

/-- `invoke_broker`, with what the broker answers where it serves. -/
def Service.call (service : Service) (answer : (Nat → Signing) → Option Fields) :
    Except BrokerError Fields :=
  match service with
  | .refused => .error .refusal
  | .failed => .error (.authorization "Persistence broker rejected the operation.")
  | .unreachable => .error .transport
  | .served moments =>
    match answer moments with
    | none => .error (.authorization "Persistence broker rejected the operation.")
    | some value => .ok value

structure PresignedOperation where
  url : Str
  method : StorageOperation
  expiresAt : DateTime
  headers : List (Str × Str)
deriving DecidableEq

/-- The headers, if all of them are strings. -/
def safeHeaders : Fields → Option (List (Str × Str))
  | [] => some []
  | (key, .str item) :: headers => (safeHeaders headers).map ((key, item) :: ·)
  | _ => none

/-- `_grant_from` -/
def grantFrom (value : Fields) (operation : StorageOperation) :
    Except BrokerError PresignedOperation :=
  match get value "url", get value "expiresAt", get value "headers" with
  | .str url, .str expires, .obj headers =>
    match DateTime.read (expires.map Char.ofNat) with
    | none => .error (.authorization "Persistence grant expiry is invalid.")
    | some expiresAt =>
      match safeHeaders headers with
      | none => .error (.authorization "Persistence grant headers are invalid.")
      | some headers =>
        .ok { url := url, method := operation, expiresAt := expiresAt, headers := headers }
  | _, _, _ => .error (.authorization "Persistence grant is invalid.")

def binSuffix : Str := Str.ofString ".bin"

/-- `_presign` of a chunk -/
def presignPlain (signer : Signer) (digest : Str) (operation : StorageOperation)
    (service : Service) :
    Except BrokerError PresignedOperation :=
  (service.call fun moments => signer.presign (moments 0) (Str.ofString "chunks")
    (digest ++ binSuffix) operation.value).bind
    fun value => grantFrom value operation

/-! ## The cache -/

/-- A grant object, with its number among all that batches made. -/
structure Cached where
  grant : PresignedOperation
  serial : Nat

/-- The fields of `LambdaPersistenceBroker`. -/
structure GrantCache where
  grants : Dict (Str × StorageOperation) Cached := []
  wanted : StorageOperation → List Str := fun _ => []
  batchSupported : Bool := true
  made : Nat := 0

/-- `_BATCH_GRANTS` -/
def batchGrants : Nat := 128
/-- `_GRANT_MARGIN`, in microseconds -/
def grantMargin : ℤ := 60 * 1000000

def batchInvalid : BrokerError := .authorization "Persistence batch grant is invalid."

namespace GrantCache

/-- `prefetch_chunks` -/
def prefetchChunks (c : GrantCache) (digests : List Str) (operation : StorageOperation) :
    GrantCache :=
  if operation ∈ [.get, .put] ∧ c.batchSupported = true then
    { c with wanted := Function.update c.wanted operation (c.wanted operation ++ digests) }
  else c

/-- `_take_grant` -/
def takeGrant (c : GrantCache) (now : DateTime) (digest : Str) (operation : StorageOperation) :
    GrantCache × Option Cached :=
  match Dict.get? c.grants (digest, operation) with
  | none => (c, none)
  | some x =>
    ({ c with grants := Dict.erase c.grants (digest, operation) },
      if (x.grant.expiresAt.micros : ℤ) - now.micros < grantMargin then none else some x)

/-- The `while` loop of `_fetch_batch`: the names it adds to a batch with room for so many, and what
stays announced. -/
def nextNames (skip : Str → Bool) : List Str → Nat → List Str × List Str
  | [], _ => ([], [])
  | candidate :: wanted, room =>
    if room = 0 then ([], candidate :: wanted)
    else if skip candidate then nextNames skip wanted room
    else (candidate :: (nextNames skip wanted (room - 1)).1, (nextNames skip wanted (room - 1)).2)

/-- The `for` loop of `_fetch_batch`. -/
def storeGrants (operation : StorageOperation) : GrantCache → List Value →
    GrantCache × Option BrokerError
  | c, [] => (c, none)
  | c, .obj entry :: rest =>
    match get entry "name" with
    | .str name =>
      if binSuffix.isSuffixOf name then
        match grantFrom entry operation with
        | .error e => (c, some e)
        | .ok grant =>
          storeGrants operation
            { c with
              grants := Dict.set c.grants (name.removeSuffix binSuffix, operation) ⟨grant, c.made⟩
              made := c.made + 1 } rest
      else (c, some batchInvalid)
    | _ => (c, some batchInvalid)
  | c, _ :: _ => (c, some batchInvalid)

/-- `_fetch_batch` -/
def fetchBatch (signer : Signer) (c : GrantCache) (digest : Str) (operation : StorageOperation)
    (service : Service) :
    GrantCache × Option BrokerError :=
  let (names, wanted) :=
    nextNames (fun candidate => candidate = digest ||
      (Dict.get? c.grants (candidate, operation)).isSome)
    (c.wanted operation) (batchGrants - 1)
  let c := { c with wanted := Function.update c.wanted operation wanted }
  match service.call fun moments =>
    signer.presignBatch ((digest :: names).map (· ++ binSuffix)) moments operation.value with
  | .error (.authorization _) => ({ c with batchSupported := false, wanted := fun _ => [] }, none)
  | .error e => (c, some e)
  | .ok value =>
    match get value "grants" with
    | .arr grants => storeGrants operation c grants
    | _ => (c, some batchInvalid)

/-- How the locked part of `presign_chunk` ends. -/
inductive Locked
  | cached (x : Cached) (now : DateTime)
  | raised (e : BrokerError)
  | plain

/-- The locked part of `presign_chunk`, with the clock before and after the batch; also how its
batch call went, if it made one. -/
def presignLocked (signer : Signer) (c : GrantCache) (digest : Str) (operation : StorageOperation)
    (now later : DateTime)
    (service : Service) : GrantCache × Option Service × Locked :=
  match c.takeGrant now digest operation with
  | (c, some x) => (c, none, .cached x now)
  | (c, none) =>
    if c.batchSupported = true ∧ c.wanted operation ≠ [] then
      match c.fetchBatch signer digest operation service with
      | (c, some e) => (c, some service, .raised e)
      | (c, none) =>
        match c.takeGrant later digest operation with
        | (c, some x) => (c, some service, .cached x later)
        | (c, none) => (c, some service, .plain)
    else (c, none, .plain)

end GrantCache

/-! ## Threads -/

inductive ThreadEnding
  /-- Another sandbox's name: `_validate_sandbox` raises. -/
  | denied
  | cached (x : Cached) (now : DateTime)
  /-- The batch call raised. -/
  | raised (e : BrokerError)
  | plain (service : Service) (result : Except BrokerError PresignedOperation)

/-- A `presign_chunk` that is over. -/
structure ThreadOutcome where
  digest : Str
  operation : StorageOperation
  /-- How its batch call went, if it made one. -/
  batch : Option Service
  ending : ThreadEnding

/-- A `presign_chunk` between the lock and its plain `presign`. -/
structure Waiting where
  digest : Str
  operation : StorageOperation
  batch : Option Service

structure Presigning where
  cache : GrantCache := {}
  waiting : List Waiting := []
  done : List ThreadOutcome := []
  /-- When the broker has signed. -/
  moments : List Signing := []

inductive PresignEvent
  | prefetchChunks (sandboxId : Str) (digests : List Str) (operation : StorageOperation)
  | presignChunk (sandboxId digest : Str) (operation : StorageOperation) (now later : DateTime)
      (service : Service)
  | plain (i : Nat) (service : Service)

/-- The moments of the signatures a call asks for. -/
def Service.moments (n : Nat) : Service → List Signing
  | .served moments => (List.range n).map moments
  | _ => []

def crossSandbox : BrokerError := .authorization "Cross-sandbox persistence access is denied."

def ThreadOutcome.result (o : ThreadOutcome) : Except BrokerError PresignedOperation :=
  match o.ending with
  | .denied => .error crossSandbox
  | .cached x _ => .ok x.grant
  | .raised e => .error e
  | .plain _ result => result

/-- The number of the cached grant it handed out. -/
def ThreadOutcome.serial (o : ThreadOutcome) : Option Nat :=
  match o.ending with
  | .cached x _ => some x.serial
  | _ => none

namespace Presigning

def step (signer : Signer) (s : Presigning) : PresignEvent → Option Presigning
  | .prefetchChunks sandboxId digests operation =>
    some (if sandboxId = signer.sandboxId then
      { s with cache := s.cache.prefetchChunks digests operation } else s)
  | .presignChunk sandboxId digest operation now later service =>
    if sandboxId = signer.sandboxId then
      let (cache, batch, locked) := s.cache.presignLocked signer digest operation now later service
      let s :=
        { s with cache := cache,
                 moments := (batch.elim [] (Service.moments batchGrants)) ++ s.moments }
      match locked with
      | .cached x now => some { s with done := ⟨digest, operation, batch, .cached x now⟩ :: s.done }
      | .raised e => some { s with done := ⟨digest, operation, batch, .raised e⟩ :: s.done }
      | .plain => some { s with waiting := s.waiting ++ [⟨digest, operation, batch⟩] }
    else some { s with done := ⟨digest, operation, none, .denied⟩ :: s.done }
  | .plain i service =>
    (s.waiting[i]?).map fun w =>
      { s with
        waiting := s.waiting.eraseIdx i
        done :=
          ⟨w.digest, w.operation, w.batch,
            .plain service (presignPlain signer w.digest w.operation service)⟩ :: s.done
        moments := service.moments 1 ++ s.moments }

def Reachable (signer : Signer) (s : Presigning) : Prop :=
  Machine.Reaches (step signer) Machine.Any {} s

end Presigning

/-! ## Reading what the broker signs -/

section
variable {signer : Signer} {m : Signing} {category name method digest : Str}
    {operation : StorageOperation} {value : Fields}

/-- What a direct `presign` of the chunk gives at that moment. -/
def Direct (signer : Signer) (m : Signing) (digest : Str) (operation : StorageOperation)
    (grant : PresignedOperation) : Prop :=
  presignPlain signer digest operation (.served fun _ => m) = .ok grant

theorem get_cons_of_ne {k : Str} {v : Value} {fields : Fields} {key : String}
    (h : k ≠ Str.ofString key) :
    get ((k, v) :: fields) key = get fields key := by
  have hlast : [(k, v)].find? (fun f => f.1 = Str.ofString key) = none := by simp [h]
  rw [ManifestDecoder.get, ManifestDecoder.get, Value.get, Value.get, List.reverse_cons,
    List.find?_append, hlast, Option.or_none]

/-- The name in front of an entry changes nothing in how its grant reads. -/
theorem grantFrom_named (v : Value) (value : Fields) (operation : StorageOperation) :
    grantFrom ((Str.ofString "name", v) :: value) operation = grantFrom value operation := by
  simp only [grantFrom, get_cons_of_ne (mt Str.ofString_inj.1 (by decide : "name" ≠ "url")),
    get_cons_of_ne (mt Str.ofString_inj.1 (by decide : "name" ≠ "expiresAt")),
    get_cons_of_ne (mt Str.ofString_inj.1 (by decide : "name" ≠ "headers"))]

theorem safeHeaders_headers (signer : Signer) (category : Str) :
    ∃ headers, safeHeaders (signer.headers category) = some headers := by
  unfold Signer.headers
  split_ifs
  · exact ⟨_, rfl⟩
  · exact ⟨_, rfl⟩

/-- An answer of the broker reads as a grant, and has no name of its own. -/
theorem grantFrom_presign (h : signer.presign m category name method = some value)
    (operation : StorageOperation) :
    (∃ grant, grantFrom value operation = .ok grant) ∧
    ∀ v, get ((Str.ofString "name", v) :: value) "name" = v := by
  obtain ⟨expires, headers, url, hheaders, rfl⟩ := Signer.presign_fields h
  have hread : DateTime.read (expires.iso.map (Char.ofNat ∘ Char.toNat)) = some expires := by
    rw [show Char.ofNat ∘ Char.toNat = id from funext Char.ofNat_toNat, List.map_id]
    exact DateTime.read_iso expires
  have hsafe : ∃ safe, safeHeaders headers = some safe := by
    rcases hheaders with rfl | rfl
    · exact safeHeaders_headers signer category
    · exact ⟨[], rfl⟩
  obtain ⟨safe, hsafe⟩ := hsafe
  constructor
  · refine ⟨{ url := url, method := operation, expiresAt := expires, headers := safe }, ?_⟩
    simp [grantFrom, ManifestDecoder.get, Value.get, Str.ofString_inj, hread, hsafe]
  · intro v
    simp [ManifestDecoder.get, Value.get, Str.ofString_inj]

theorem direct_of_presign {grant : PresignedOperation}
    (h : signer.presign m (Str.ofString "chunks") (digest ++ binSuffix) operation.value =
    some value)
    (hgrant : grantFrom value operation = .ok grant) : Direct signer m digest operation grant := by
  simp only [Direct, presignPlain, Service.call, h]
  exact hgrant

end

/-! ## What the cache holds -/

namespace GrantCache

variable {signer : Signer} {moments : List Signing} {used : List Nat} {c : GrantCache}
    {digest : Str} {operation : StorageOperation}
  {service : Service} {now later : DateTime}

/-- Each cached grant is what a direct `presign` gave; its number is its own and none of those that
were handed out. -/
structure Ok (signer : Signer) (moments : List Signing) (used : List Nat) (c : GrantCache) :
    Prop where
  direct : ∀ x ∈ c.grants, ∃ m ∈ moments, Direct signer m x.1.1 x.1.2 x.2.grant
  below : ∀ x ∈ c.grants, x.2.serial < c.made
  distinct : (c.grants.map (·.2.serial)).Nodup
  fresh : ∀ x ∈ c.grants, x.2.serial ∉ used
  used_below : ∀ n ∈ used, n < c.made

theorem Ok.mono {moments' : List Signing} (h : c.Ok signer moments used)
    (hsub : moments ⊆ moments') : c.Ok signer moments' used :=
  { h with direct := fun x hx => (h.direct x hx).imp fun _ hm => ⟨hsub hm.1, hm.2⟩ }

theorem Ok.of_grants {c' : GrantCache} (h : c.Ok signer moments used)
    (hgrants : c'.grants = c.grants) (hmade : c'.made = c.made) :
    c'.Ok signer moments used where
  direct := hgrants ▸ h.direct
  below := hgrants ▸ hmade ▸ h.below
  distinct := hgrants ▸ h.distinct
  fresh := hgrants ▸ h.fresh
  used_below := hmade ▸ h.used_below

theorem Ok.erase (h : c.Ok signer moments used) (k : Str × StorageOperation) :
    Ok signer moments used { c with grants := Dict.erase c.grants k } where
  direct := fun x hx => h.direct x (List.mem_of_mem_filter hx)
  below := fun x hx => h.below x (List.mem_of_mem_filter hx)
  distinct := h.distinct.sublist (List.filter_sublist.map _)
  fresh := fun x hx => h.fresh x (List.mem_of_mem_filter hx)
  used_below := h.used_below

theorem Ok.handOut {k : Str × StorageOperation} {x : Cached} (h : c.Ok signer moments used)
    (hx : Dict.get? c.grants k = some x) :
    Ok signer moments (x.serial :: used) { c with grants := Dict.erase c.grants k } where
  direct := (h.erase k).direct
  below := (h.erase k).below
  distinct := (h.erase k).distinct
  fresh := fun y hy hmem => by
    rcases List.mem_cons.1 hmem with heq | hmem
    · have hy' := List.mem_filter.1 hy
      have hsame := List.inj_on_of_nodup_map h.distinct hy'.1 (Dict.mem_of_get? hx) heq
      exact (of_decide_eq_true hy'.2) (congrArg Prod.fst hsame)
    · exact h.fresh y (List.mem_of_mem_filter hy) hmem
  used_below := fun n hn => by
    rcases List.mem_cons.1 hn with rfl | hn
    · exact h.below _ (Dict.mem_of_get? hx)
    · exact h.used_below n hn

theorem Ok.store {grant : PresignedOperation} (h : c.Ok signer moments used)
    (hgrant : ∃ m ∈ moments, Direct signer m digest operation grant) :
    Ok signer moments used { c with
        grants := Dict.set c.grants (digest, operation) ⟨grant, c.made⟩
        made := c.made + 1 } where
  direct := fun x hx => by
    rcases Dict.mem_set hx with rfl | hx
    · exact hgrant
    · exact h.direct x hx
  below := fun x hx => by
    rcases Dict.mem_set hx with rfl | hx
    · exact Nat.lt_succ_self _
    · exact (h.below x hx).trans (Nat.lt_succ_self _)
  distinct := Dict.nodup_map_set h.distinct fun x hx => (h.below x hx).ne
  fresh := fun x hx hmem => by
    rcases Dict.mem_set hx with rfl | hx
    · exact lt_irrefl _ (h.used_below _ hmem)
    · exact h.fresh x hx hmem
  used_below := fun n hn => (h.used_below n hn).trans (Nat.lt_succ_self _)

/-! ## The steps under the lock -/

theorem get?_erase_self (d : Dict (Str × StorageOperation) Cached) (k : Str × StorageOperation) :
    Dict.get? (Dict.erase d k) k = none := by
  simp [Dict.get?, Dict.erase, List.find?_filter]

theorem takeGrant_of_none (h : Dict.get? c.grants (digest, operation) = none) :
    c.takeGrant now digest operation = (c, none) := by
  rw [takeGrant, h]

theorem takeGrant_none {c' : GrantCache} (h : c.Ok signer moments used)
    (htake : c.takeGrant now digest operation = (c', none)) :
    c'.Ok signer moments used ∧ Dict.get? c'.grants (digest, operation) = none := by
  unfold takeGrant at htake
  split at htake
  · next hnone =>
    cases htake
    exact ⟨h, hnone⟩
  · obtain ⟨rfl, -⟩ := Prod.mk.inj htake
    exact ⟨h.erase _, get?_erase_self _ _⟩

theorem takeGrant_some {c' : GrantCache} {x : Cached} (h : c.Ok signer moments used)
    (htake : c.takeGrant now digest operation = (c', some x)) :
    c'.Ok signer moments (x.serial :: used) ∧ x.serial ∉ used ∧
      (∃ m ∈ moments, Direct signer m digest operation x.grant) ∧
      grantMargin ≤ (x.grant.expiresAt.micros : ℤ) - now.micros := by
  unfold takeGrant at htake
  split at htake
  · cases htake
  · next y hy =>
    obtain ⟨rfl, hmargin⟩ := Prod.mk.inj htake
    split at hmargin
    · cases hmargin
    · next hlt =>
      cases hmargin
      have hmem := Dict.mem_of_get? hy
      exact ⟨h.handOut hy, h.fresh _ hmem, h.direct _ hmem, not_lt.1 hlt⟩

/-- The entries of a batch are all stored. -/
theorem storeGrants_ok {xs : List (Str × Signing)} {grants : List Value}
    (hgrants : List.Forall₂ (signer.Grants operation.value) xs grants)
    (hnames : ∀ x ∈ xs, ∃ name, x.1 = name ++ binSuffix) (hmoments : ∀ x ∈ xs, x.2 ∈ moments)
    (h : c.Ok signer moments used) :
    (storeGrants operation c grants).1.Ok signer moments used ∧
        (storeGrants operation c grants).2 = none := by
  induction hgrants generalizing c with
  | nil => exact ⟨h, rfl⟩
  | @cons x v xs grants hv _ ih =>
    obtain ⟨value, hvalue, rfl⟩ := hv
    obtain ⟨name, m⟩ := x
    obtain ⟨digest, rfl⟩ := hnames _ List.mem_cons_self
    obtain ⟨⟨grant, hgrant⟩, hname⟩ := grantFrom_presign hvalue operation
    have hsuffix : binSuffix.isSuffixOf (digest ++ binSuffix) = true :=
      List.isSuffixOf_iff_suffix.2 (List.suffix_append _ _)
    simp only [storeGrants, hname, hsuffix, if_true, grantFrom_named, hgrant,
      Str.removeSuffix_append]
    exact ih (fun x hx => hnames x (List.mem_cons_of_mem _ hx))
      (fun x hx => hmoments x (List.mem_cons_of_mem _ hx))
      (h.store ⟨m, hmoments _ List.mem_cons_self, direct_of_presign hvalue hgrant⟩)

/-- A batch call raises only a refusal or what `invoke` raises; one that fails leaves the grants as
they are. -/
theorem fetchBatch_ok {c' : GrantCache} {raised : Option BrokerError} (h : c.Ok signer moments used)
    (hfetch : c.fetchBatch signer digest operation service = (c', raised)) :
    c'.Ok signer (service.moments batchGrants ++ moments) used ∧
    (∀ e ∈ raised, service = .refused ∧ e = .refusal ∨ service = .unreachable ∧ e = .transport) ∧
    (service = .refused → raised = some .refusal) ∧ (service = .failed → c'.grants = c.grants) := by
  have hmono := h.mono (List.subset_append_right (service.moments batchGrants) moments)
  rcases hnext : nextNames
    (fun candidate => candidate = digest || (Dict.get? c.grants (candidate, operation)).isSome)
    (c.wanted operation) (batchGrants - 1) with ⟨names, wanted⟩
  simp only [fetchBatch, hnext] at hfetch
  cases service with
  | refused =>
    obtain ⟨rfl, rfl⟩ := Prod.mk.inj hfetch
    exact ⟨hmono.of_grants rfl rfl, fun e he => .inl ⟨rfl, (Option.some.inj he).symm⟩, fun _ =>
      rfl, fun hf => by cases hf⟩
  | unreachable =>
    obtain ⟨rfl, rfl⟩ := Prod.mk.inj hfetch
    exact ⟨hmono.of_grants rfl rfl, fun e he => .inr ⟨rfl, (Option.some.inj he).symm⟩, fun hr =>
      (by cases hr), fun hf => by cases hf⟩
  | failed =>
    obtain ⟨rfl, rfl⟩ := Prod.mk.inj hfetch
    exact ⟨hmono.of_grants rfl rfl, fun e he => (by cases he), fun hr =>
      (by cases hr), fun _ => rfl⟩
  | served signings =>
    refine (?_ : _ ∧ raised = none).imp_right fun hnone =>
      ⟨fun e he => ?_, fun hr => (by cases hr), fun hf => by cases hf⟩
    · simp only [Service.call] at hfetch
      cases hbatch : signer.presignBatch ((digest :: names).map (· ++ binSuffix)) signings
        operation.value with
      | none =>
        simp only [hbatch] at hfetch
        obtain ⟨rfl, rfl⟩ := Prod.mk.inj hfetch
        exact ⟨hmono.of_grants rfl rfl, rfl⟩
      | some value =>
        obtain ⟨hlength, grants, rfl, hgrants⟩ := Signer.presignBatch_grants hbatch
        have hget : get [(Str.ofString "grants", Value.arr grants)] "grants" = .arr grants := by
          simp [ManifestDecoder.get, Value.get]
        simp only [hbatch, hget] at hfetch
        have hstored :=
          storeGrants_ok (c := { c with wanted := Function.update c.wanted operation wanted })
            hgrants
          (fun x hx => ?_) (fun x hx => ?_) (hmono.of_grants rfl rfl)
        · rw [hfetch] at hstored
          exact hstored
        · obtain ⟨⟨name, i⟩, hi, rfl⟩ := List.mem_map.1 hx
          obtain ⟨d, -, rfl⟩ := List.mem_map.1 (List.fst_mem_of_mem_zipIdx hi)
          exact ⟨d, rfl⟩
        · obtain ⟨⟨name, i⟩, hi, rfl⟩ := List.mem_map.1 hx
          have hlt := List.snd_lt_of_mem_zipIdx hi
          refine List.mem_append_left _ (List.mem_map.2 ⟨i, List.mem_range.2 ?_, rfl⟩)
          simp only [maxBatchGrants] at hlength
          simp only [batchGrants]
          omega
    · rw [hnone] at he
      cases he

/-- How the locked part ends, and what it leaves in the cache. -/
theorem presignLocked_ok {c' : GrantCache} {batch : Option Service} {locked : Locked}
    (h : c.Ok signer moments used)
    (hlocked : c.presignLocked signer digest operation now later service = (c', batch, locked)) :
    let moments' := batch.elim [] (Service.moments batchGrants) ++ moments
    match locked with
    | .cached x taken =>
      c'.Ok signer moments' (x.serial :: used) ∧ x.serial ∉ used ∧
        (∃ m ∈ moments', Direct signer m digest operation x.grant) ∧
        grantMargin ≤ (x.grant.expiresAt.micros : ℤ) - taken.micros ∧ batch ≠ some .refused ∧
        batch ≠ some .failed
    | .raised e =>
      c'.Ok signer moments' used ∧
        (batch = some .refused ∧ e = .refusal ∨ batch = some .unreachable ∧ e = .transport)
    | .plain => c'.Ok signer moments' used ∧ batch ≠ some .refused := by
  unfold presignLocked at hlocked
  split at hlocked
  · next c₁ x htake =>
    cases hlocked
    obtain ⟨hok, hfresh, hdirect, hmargin⟩ := takeGrant_some h htake
    exact ⟨hok, hfresh, hdirect, hmargin, nofun, nofun⟩
  · next c₁ htake =>
    obtain ⟨hok, hgone⟩ := takeGrant_none h htake
    split at hlocked
    · split at hlocked
      · next c₂ e hfetch =>
        cases hlocked
        obtain ⟨hok, hraised, -, -⟩ := fetchBatch_ok hok hfetch
        exact ⟨hok, (hraised e rfl).imp (fun hr => ⟨congrArg some hr.1, hr.2⟩) fun hr =>
          ⟨congrArg some hr.1, hr.2⟩⟩
      · next c₂ hfetch =>
        obtain ⟨hok, -, hrefused, hfailed⟩ := fetchBatch_ok hok hfetch
        have hnot : service ≠ .refused := fun hr => by cases hrefused hr
        split at hlocked
        · next c₃ x htake' =>
          cases hlocked
          obtain ⟨hok, hfresh, hdirect, hmargin⟩ := takeGrant_some hok htake'
          refine ⟨hok, hfresh, hdirect, hmargin, fun hr => hnot (Option.some.inj hr), fun hf => ?_⟩
          -- after a failed batch the chunk is still not there
          rw [takeGrant_of_none (by rw [hfailed (Option.some.inj hf)]; exact hgone)] at htake'
          cases htake'
        · next c₃ htake' =>
          cases hlocked
          exact ⟨(takeGrant_none hok htake').1, fun hr => hnot (Option.some.inj hr)⟩
    · cases hlocked
      exact ⟨hok, nofun⟩

end GrantCache

/-! ## Any interleaving -/

/-- What a `presign_chunk` owes to its caller. -/
structure ThreadOutcome.Kept (signer : Signer) (moments : List Signing) (o : ThreadOutcome) :
    Prop where
  /-- A grant is for this chunk and method, as a direct `presign` gives it. -/
  direct : ∀ grant, o.result = .ok grant → ∃ m ∈ moments, Direct signer m o.digest o.operation grant
  margin : ∀ x now, o.ending = .cached x now →
    grantMargin ≤ (x.grant.expiresAt.micros : ℤ) - now.micros
  /-- It raises for another sandbox, for a call that was refused or did not come through, or as the
  direct `presign` it ends with. -/
  error : ∀ e, o.result = .error e → o.ending = .denied ∨ o.batch = some .refused ∧ e = .refusal ∨
    o.batch = some .unreachable ∧ e = .transport ∨
    ∃ service, o.ending = .plain service (presignPlain signer o.digest o.operation service)
  /-- A batch that the broker does not have, or that failed, leads to the plain grant. -/
  failed : o.batch = some .failed → ∃ service, o.ending = .plain service
    (presignPlain signer o.digest o.operation service)
  refused : o.batch = some .refused ∨ (∃ result, o.ending = .plain .refused result) →
    o.result = .error .refusal

namespace Presigning

variable {signer : Signer} {s s' : Presigning} {e : PresignEvent}

structure Inv (signer : Signer) (s : Presigning) : Prop where
  cache : s.cache.Ok signer s.moments (s.done.filterMap ThreadOutcome.serial)
  once : (s.done.filterMap ThreadOutcome.serial).Nodup
  kept : ∀ o ∈ s.done, o.Kept signer s.moments
  waiting : ∀ w ∈ s.waiting, w.batch ≠ some .refused

theorem Inv.finish {cache : GrantCache} {moments : List Signing} {waiting : List Waiting}
    {o : ThreadOutcome} (h : s.Inv signer)
    (hsub : s.moments ⊆ moments)
    (hcache : cache.Ok signer moments (o.serial.toList ++ s.done.filterMap ThreadOutcome.serial))
    (honce : ∀ n ∈ o.serial, n ∉ s.done.filterMap ThreadOutcome.serial)
      (hkept : o.Kept signer moments)
    (hwaiting : ∀ w ∈ waiting, w ∈ s.waiting) :
        Inv signer ⟨cache, waiting, o :: s.done, moments⟩ where
  cache := by
    cases hserial : o.serial with
    | none => simpa [hserial] using hcache
    | some n => simpa [hserial] using hcache
  once := by
    cases hserial : o.serial with
    | none => simpa [hserial] using h.once
    | some n => simpa [hserial] using ⟨by simpa using honce n hserial, h.once⟩
  kept := fun o' ho' => by
    rcases List.mem_cons.1 ho' with rfl | ho'
    · exact hkept
    · have hold := h.kept o' ho'
      exact { hold with direct := fun grant hgrant => (hold.direct grant hgrant).imp fun _ hm =>
        ⟨hsub hm.1, hm.2⟩ }
  waiting := fun w hw => h.waiting w (hwaiting w hw)

theorem Inv.step (h : s.Inv signer) (he : s.step signer e = some s') : s'.Inv signer := by
  cases e with
  | prefetchChunks sandboxId digests operation =>
    obtain rfl := Option.some.inj he
    split
    · refine { h with cache := ?_ }
      simp only [GrantCache.prefetchChunks]
      split
      · exact h.cache.of_grants rfl rfl
      · exact h.cache
    · exact h
  | presignChunk sandboxId digest operation now later service =>
    simp only [Presigning.step] at he
    split at he
    · rcases hlocked : s.cache.presignLocked signer digest operation now later service with
        ⟨cache, batch, locked⟩
      have hok := GrantCache.presignLocked_ok h.cache hlocked
      rw [hlocked] at he
      have hsub := List.subset_append_right (batch.elim [] (Service.moments batchGrants)) s.moments
      cases locked with
      | cached x taken =>
        obtain rfl := Option.some.inj he
        obtain ⟨hcache, hfresh, hdirect, hmargin, hrefused, hfailed⟩ := hok
        refine h.finish hsub hcache (fun n hn => ?_) ?_ fun w hw => hw
        · cases hn
          exact hfresh
        · exact {
            direct := fun grant hgrant => by
              cases hgrant
              exact hdirect
            margin := fun y t hy => by
              cases hy
              exact hmargin
            error := nofun
            failed := fun hf => absurd hf hfailed
            refused := fun hr => by
              rcases hr with hr | ⟨result, hr⟩
              · exact absurd hr hrefused
              · cases hr }
      | raised err =>
        obtain rfl := Option.some.inj he
        obtain ⟨hcache, hraised⟩ := hok
        refine h.finish hsub hcache nofun ?_ fun w hw => hw
        exact {
          direct := nofun
          margin := nofun
          error := fun e' he' => by
            cases he'
            exact .inr (hraised.imp_right .inl)
          failed := fun hf => by
            rcases hraised with ⟨hr, -⟩ | ⟨hr, -⟩
            · cases hf.symm.trans hr
            · cases hf.symm.trans hr
          refused := fun hr => by
            rcases hraised with ⟨-, rfl⟩ | ⟨hu, -⟩
            · rfl
            · rcases hr with hr | ⟨result, hr⟩
              · cases hr.symm.trans hu
              · cases hr }
      | plain =>
        obtain rfl := Option.some.inj he
        obtain ⟨hcache, hrefused⟩ := hok
        refine ⟨hcache, h.once, fun o ho => ?_, fun w hw => ?_⟩
        · have hold := h.kept o ho
          exact { hold with direct := fun grant hgrant => (hold.direct grant hgrant).imp fun _ hm =>
            ⟨hsub hm.1, hm.2⟩ }
        · rcases List.mem_append.1 hw with hw | hw
          · exact h.waiting w hw
          · rw [List.mem_singleton.1 hw]
            exact hrefused
    · obtain rfl := Option.some.inj he
      refine h.finish (List.Subset.refl _) h.cache nofun ?_ fun w hw => hw
      exact {
        direct := nofun
        margin := nofun
        error := fun _ _ => .inl rfl
        failed := nofun
        refused := fun hr => by
          rcases hr with hr | ⟨result, hr⟩
          · cases hr
          · cases hr }
  | plain i service =>
    obtain ⟨w, hw, rfl⟩ := Option.map_eq_some_iff.1 he
    have hsub := List.subset_append_right (service.moments 1) s.moments
    refine h.finish hsub (h.cache.mono hsub) nofun ?_ fun w hw => List.mem_of_mem_eraseIdx hw
    exact {
      direct := fun grant hgrant => by
        cases service with
        | served signings => exact ⟨signings 0, by simp [Service.moments], hgrant⟩
        | refused | failed | unreachable => cases hgrant
      margin := nofun
      error := fun _ _ => .inr (.inr (.inr ⟨service, rfl⟩))
      failed := fun _ => ⟨service, rfl⟩
      refused := fun hr => by
        rcases hr with hr | ⟨result, hr⟩
        · exact absurd hr (h.waiting w (List.mem_of_getElem? hw))
        · cases hr
          rfl }

/-- A `presign_chunk` is over or waits for its plain `presign`. -/
theorem presignChunk_ends (s : Presigning) (sandboxId digest : Str) (operation : StorageOperation)
    (now later : DateTime)
    (service : Service) : ∃ s',
    s.step signer (.presignChunk sandboxId digest operation now later service) = some s' ∧
      ∃ batch, (∃ ending, s'.done = ⟨digest, operation, batch, ending⟩ :: s.done ∧
      s'.waiting = s.waiting) ∨
        s'.done = s.done ∧ s'.waiting = s.waiting ++ [⟨digest, operation, batch⟩] := by
  unfold Presigning.step
  dsimp only
  split_ifs with hsandbox
  · rcases s.cache.presignLocked signer digest operation now later service with
      ⟨cache, batch, locked⟩
    cases locked with
    | cached x taken => exact ⟨_, rfl, batch, .inl ⟨_, rfl, rfl⟩⟩
    | raised e => exact ⟨_, rfl, batch, .inl ⟨_, rfl, rfl⟩⟩
    | plain => exact ⟨_, rfl, batch, .inr ⟨rfl, rfl⟩⟩
  · exact ⟨_, rfl, none, .inl ⟨_, rfl, rfl⟩⟩

/-- The plain `presign` of one that waits ends it. -/
theorem plain_ends (s : Presigning) {i : Nat} {w : Waiting} (hw : s.waiting[i]? = some w)
    (service : Service) :
    ∃ s' result, s.step signer (.plain i service) = some s' ∧ s'.waiting = s.waiting.eraseIdx i ∧
      s'.done = ⟨w.digest, w.operation, w.batch, .plain service result⟩ :: s.done := by
  exact ⟨_, presignPlain signer w.digest w.operation service, congrArg (Option.map _) hw, rfl, rfl⟩

/-- In every run of prefetches, grants and plain calls in any order: every `presign_chunk` gives
what a direct `presign` does, and no cached grant twice. -/
theorem presigns_as_direct (h : Reachable signer s) :
    (∀ o ∈ s.done, o.Kept signer s.moments) ∧ (s.done.filterMap ThreadOutcome.serial).Nodup := by
  have hinv : s.Inv signer := h.invariant (fun _ _ _ hs _ he => hs.step he)
    ⟨⟨nofun, nofun, List.nodup_nil, nofun, nofun⟩, List.nodup_nil, nofun, nofun⟩
  exact ⟨hinv.kept, hinv.once⟩

/-- A signer whose URLs name the object and the signature. -/
def namingSigner : Signer where
  bucket := Str.ofString "bucket"
  kmsKeyArn := Str.ofString "key"
  sandboxId := Str.ofString "sbx"
  presignedUrl := fun m request => request.key ++ [m.seed]

/-- Two chunks are announced, and asked for by two threads; a third chunk is asked for alone. -/
def threeChunks : List PresignEvent :=
  let sbx := Str.ofString "sbx"
  let served : Service := .served fun i => ⟨⟨63000000000000000, by decide⟩, i⟩
  let now : DateTime := ⟨63000000000000000, by decide⟩
  [.prefetchChunks sbx [List.replicate 64 97, List.replicate 64 98, List.replicate 64 98] .get,
    .presignChunk sbx (List.replicate 64 97) .get now now served, .presignChunk sbx
    (List.replicate 64 99) .get now now served,
    .presignChunk sbx (List.replicate 64 98) .get now now served, .plain 0 served]

def threeGranted : Presigning :=
  (Machine.runAlong (step namingSigner) Machine.Any {} threeChunks).get (by decide +kernel)

theorem presigns_as_direct_three : threeGranted.done.length = 3 ∧
    (∀ o ∈ threeGranted.done, o.Kept namingSigner threeGranted.moments) ∧
    (threeGranted.done.filterMap ThreadOutcome.serial).Nodup :=
  ⟨by decide +kernel, @presigns_as_direct namingSigner _ (.of_isSome _)⟩

example : threeGranted.done.filterMap ThreadOutcome.serial = [2, 0] := by decide +kernel

end Presigning

end KiroCrew
