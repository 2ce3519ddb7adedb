import KiroCrew.Presign
import KiroCrew.Engine
import KiroCrew.Transport
import KiroCrew.Lib.Machine

/-!
# The data key of a sandbox

`_data_key` hands out the key the checkpoints of a sandbox are encrypted with. The first call
generates one and keeps its encrypted form in the bucket under `If-None-Match`; whoever finds an
object decrypts that. A call is a small program (`DataKeyCall.advance`) whose steps interleave with
those of every other call and with the uploads the broker signs. All answers for a sandbox carry one
key (`DataKeyWorld.one_key`), so what any of its containers encrypts all of them can decrypt
(`DataKeyWorld.opens_for_all`), under no other sandbox or digest unless AES-GCM seals the message
that was encrypted and the one it is taken for alike (`Primitives.decrypt_foreign`).
-/

namespace KiroCrew

open Json (Value)
open ManifestDecoder (get)

/-- An encryption context. -/
abbrev Context := List (Str × Str)

/-- `_context` -/
def SandboxId.context (s : SandboxId) : Context :=
  [(Str.ofString "application", Str.ofString "kirocrew-agentcore"),
    (Str.ofString "purpose", Str.ofString "sandbox-checkpoint"),
    (Str.ofString "sandboxId", s.text)]

/-- KMS under the checkpoint key: `generate_data_key` gives the key and its ciphertext blob, which
`decrypt` opens in the same context. The first argument of `generate` is what the key is drawn
from. -/
structure Kms where
  generate : Nat → Context → Bytes × Bytes
  decrypt : Context → Bytes → Option Bytes
  length_generate : ∀ seed c, (generate seed c).1.length = 32
  decrypt_generate : ∀ seed c, decrypt c (generate seed c).2 = some (generate seed c).1

/-- The key of the object in the bucket. -/
def SandboxId.dataKeyObject (s : SandboxId) : Str :=
  Str.ofString "sandboxes/" ++ s.text ++ Str.ofString "/" ++ Str.ofString "data-key.json"

def storedKeyFields (blob : Bytes) : Fields :=
  [(Str.ofString "ciphertext", .str (Base64.encode (blob.map UInt8.toNat))),
    (Str.ofString "schemaVersion", .int 1)]

/-- The body of the put. -/
def storedKey (blob : Bytes) : Bytes := dumpsBytes (.obj (storedKeyFields blob))

/-- What is read of the stored object; `none` when that raises. -/
def readStoredKey (stored : Bytes) : Option Bytes :=
  match loadsBytes stored with
  | some (.obj fields) =>
    match get fields "ciphertext" with
    | .str text => (Base64.decode text).map fun bytes => bytes.map UInt8.ofNat
    | _ => none
  | _ => none

/-! ## One call -/

inductive KeyFailure
  /-- An answer of S3 or KMS that is propagated. -/
  | service
  /-- The second read found no object. -/
  | missing
  /-- The stored object is no data key. -/
  | invalid
deriving DecidableEq

/-- Where a call of `_data_key` stands. -/
inductive DataKeyCall
  | reading
  | generating
  | storing (plaintext blob : Bytes)
  | rereading
  | opening (blob : Bytes)
  | answered (key : Bytes)
  | raised (failure : KeyFailure)
deriving DecidableEq

inductive PutAnswer
  | stored
  /-- `PreconditionFailed` -/
  | precondition
  /-- `ConditionalRequestConflict` -/
  | conflict
  /-- Any other error, which a put that took effect may report too. -/
  | failed (stored : Bool)
deriving DecidableEq

/-- How the next request of a call goes. -/
inductive KeyRequest
  | get (served : Bool)
  /-- `none` when KMS fails -/
  | generate (seed : Option Nat)
  | put (answer : PutAnswer)
  | decrypt (served : Bool)
deriving DecidableEq

namespace DataKeyCall

def found (stored : Bytes) : DataKeyCall :=
  match readStoredKey stored with
  | some blob => .opening blob
  | none => .raised .invalid

/-- One request of a call for the object `stored` of its sandbox: what is stored then, and how the
call goes on. `none` where the code does not make that request, or S3 does not answer so. -/
def advance (kms : Kms) (c : Context) (stored : Option Bytes) : DataKeyCall → KeyRequest →
    Option (Option Bytes × DataKeyCall)
  | .reading, .get served =>
    if served then some (stored, stored.elim .generating found) else some (stored, .raised .service)
  | .generating, .generate none => some (stored, .raised .service)
  | .generating, .generate (some seed) =>
    some (stored, .storing (kms.generate seed c).1 (kms.generate seed c).2)
  | .storing plaintext blob, .put .stored =>
    if stored = none then some (some (storedKey blob), .answered plaintext) else none
  | .storing _ _, .put .precondition => if stored = none then none else some (stored, .rereading)
  | .storing _ _, .put .conflict => some (stored, .rereading)
  | .storing _ blob, .put (.failed true) =>
    if stored = none then some (some (storedKey blob), .raised .service) else none
  | .storing _ _, .put (.failed false) => some (stored, .raised .service)
  | .rereading, .get served =>
    if served then some (stored, stored.elim (.raised .missing) found)
      else some (stored, .raised .service)
  | .opening blob, .decrypt served =>
    if served then some (stored, (kms.decrypt c blob).elim (.raised .invalid) .answered)
      else some (stored, .raised .service)
  | _, _ => none

end DataKeyCall

/-! ## All calls -/

/-- The bucket, and the calls made so far by their number. -/
structure DataKeyWorld where
  objects : Str → Option Bytes := fun _ => none
  calls : Nat → Option (SandboxId × DataKeyCall) := fun _ => none

inductive DataKeyEvent
  | begin (call : Nat) (sandbox : SandboxId)
  | request (call : Nat) (request : KeyRequest)
  /-- A put under a name the broker signs, or the removal of such an object. -/
  | upload (sandbox : SandboxId) (category name : Str) (body : Option Bytes)

namespace DataKeyWorld

def step (kms : Kms) (w : DataKeyWorld) : DataKeyEvent → Option DataKeyWorld
  | .begin n s =>
    if w.calls n = none then some { w with calls := Function.update w.calls n (some (s, .reading)) }
      else none
  | .request n r =>
    match w.calls n with
    | none => none
    | some (s, call) =>
      (call.advance kms s.context (w.objects s.dataKeyObject) r).map fun x =>
        { objects := Function.update w.objects s.dataKeyObject x.1,
          calls := Function.update w.calls n (some (s, x.2)) }
  | .upload s category name body =>
    (objectName category name).map fun suffix =>
      { w with
        objects := Function.update w.objects
          (Str.ofString "sandboxes/" ++ s.text ++ Str.ofString "/" ++ suffix) body }

end DataKeyWorld

/-! ## The stored object -/

theorem readStoredKey_storedKey (blob : Bytes) : readStoredKey (storedKey blob) = some blob := by
  have hbytes : ∀ x ∈ blob.map UInt8.toNat, x < 256 := by
    intro x hx
    obtain ⟨c, -, rfl⟩ := List.mem_map.1 hx
    exact c.toNat_lt
  have hsafe : Str.safe (Base64.encode (blob.map UInt8.toNat)) = true := by
    refine List.all_eq_true.2 fun c hc => ?_
    have := Base64.isText_encode hbytes c hc
    simp only [Str.isHigh, Bool.and_eq_true, decide_eq_true_eq, Bool.not_eq_true',
      decide_eq_false_iff_not]
    omega
  have hplain : (Value.obj (storedKeyFields blob)).plain = true := by
    simp [storedKeyFields, Value.plain, Json.plainFields, Str.safe_ofString, hsafe]
  have hciphertext : get (storedKeyFields blob) "ciphertext" =
      .str (Base64.encode (blob.map UInt8.toNat)) := by
    simp [ManifestDecoder.get, Value.get, storedKeyFields, List.find?, Str.ofString_inj]
  have hback : (blob.map UInt8.toNat).map UInt8.ofNat = blob := by
    rw [List.map_map]
    exact (List.map_congr_left fun c _ => by simp).trans (List.map_id _)
  simp only [readStoredKey, storedKey, Bucket.loadsBytes_dumps hplain, hciphertext,
    Base64.decode_encode hbytes, Option.map_some, hback]

theorem SandboxId.length_text (s : SandboxId) : s.text.length = 30 := by
  obtain ⟨text, pattern⟩ := s
  simp only [isSandboxId, Bool.and_eq_true, decide_eq_true_eq] at pattern
  exact pattern.1.1

theorem SandboxId.ext_text {s s' : SandboxId} (h : s.text = s'.text) : s = s' := by
  cases s
  cases s'
  cases h
  rfl

theorem SandboxId.dataKeyObject_inj {s s' : SandboxId} (h : s.dataKeyObject = s'.dataKeyObject) :
    s = s' := by
  simp only [dataKeyObject, List.append_assoc] at h
  have htext :=
    (List.append_inj (List.append_cancel_left h) (by rw [s.length_text, s'.length_text])).1
  exact ext_text htext

theorem objectName_category {category name suffix : Str}
    (h : objectName category name = some suffix) :
    category ∈ ["chunks", "manifests", "commits"].map Str.ofString ∧
    suffix = category ++ Str.ofString "/" ++ name := by
  unfold objectName at h
  dsimp only at h
  simp only [Option.ite_none_right_eq_some, Option.some.injEq] at h
  obtain ⟨hvalid, rfl⟩ := h
  refine ⟨?_, rfl⟩
  simp only [List.map_cons, List.map_nil, List.mem_cons, List.not_mem_nil, or_false]
  by_contra hne
  simp only [not_or] at hne
  rw [if_neg hne.1, if_neg hne.2.1, if_neg hne.2.2] at hvalid
  cases hvalid

/-- No grant is for the object of a data key: the name of a signed object starts with its
category. -/
theorem SandboxId.dataKeyObject_ne_grant (s s' : SandboxId) {category name suffix : Str}
    (h : objectName category name = some suffix) :
    s.dataKeyObject ≠ Str.ofString "sandboxes/" ++ s'.text ++ Str.ofString "/" ++ suffix := by
  intro heq
  obtain ⟨hcategory, rfl⟩ := objectName_category h
  simp only [dataKeyObject, List.append_assoc] at heq
  have hsuffix :=
    (List.append_inj (List.append_cancel_left heq) (by rw [s.length_text, s'.length_text])).2
  have hhead := congrArg List.head? (List.append_cancel_left hsuffix)
  simp only [List.map_cons, List.map_nil, List.mem_cons, List.not_mem_nil, or_false] at hcategory
  obtain rfl | rfl | rfl := hcategory
  all_goals
    exact absurd hhead (by simp [Str.ofString])

/-! ## One key for all -/

section

variable {kms : Kms} {c : Context} {stored stored' : Option Bytes} {call call' : DataKeyCall}
    {r : KeyRequest}

/-- An object a call put there. -/
def KeyObject (kms : Kms) (c : Context) (stored : Option Bytes) : Prop :=
  ∀ body ∈ stored, ∃ seed, body = storedKey (kms.generate seed c).2

namespace DataKeyCall

/-- What a call holds, against the stored object. -/
def Sound (kms : Kms) (c : Context) (stored : Option Bytes) : DataKeyCall → Prop
  | .storing plaintext blob => ∃ seed, kms.generate seed c = (plaintext, blob)
  | .opening blob => ∃ seed, stored = some (storedKey blob) ∧ blob = (kms.generate seed c).2
  | .answered key => ∃ seed, stored = some (storedKey (kms.generate seed c).2) ∧
      key = (kms.generate seed c).1
  | .raised failure => failure ≠ .invalid
  | _ => True

theorem sound_found {body : Bytes} (h : KeyObject kms c (some body)) :
    (found body).Sound kms c (some body) := by
  obtain ⟨seed, rfl⟩ := h body rfl
  rw [found, readStoredKey_storedKey]
  exact ⟨seed, rfl, rfl⟩

/-- An object appears at most once, so a call stays sound while others go on. -/
theorem Sound.mono (h : call.Sound kms c stored) (hkept : stored' = stored ∨ stored = none) :
    call.Sound kms c stored' := by
  obtain rfl | rfl := hkept
  · exact h
  cases call with
  | opening blob =>
    obtain ⟨seed, hnone, -⟩ := h
    cases hnone
  | answered key =>
    obtain ⟨seed, hnone, -⟩ := h
    cases hnone
  | reading => exact h
  | generating => exact h
  | storing plaintext blob => exact h
  | rereading => exact h
  | raised failure => exact h

theorem advance_get_sound {first : DataKeyCall} (hfirst : first.Sound kms c none)
    (hstored : KeyObject kms c stored) :
    (stored.elim first found).Sound kms c stored := by
  cases stored with
  | none => exact hfirst
  | some body => exact sound_found hstored

theorem keyObject_put {plaintext blob : Bytes} (h : (storing plaintext blob).Sound kms c stored) :
    KeyObject kms c (some (storedKey blob)) ∧
    (answered plaintext).Sound kms c (some (storedKey blob)) := by
  obtain ⟨seed, hseed⟩ := h
  refine ⟨?_, seed, ?_, ?_⟩
  · rintro body ⟨⟩
    exact ⟨seed, by rw [hseed]⟩
  · rw [hseed]
  · rw [hseed]

theorem service_ne_invalid : KeyFailure.service ≠ .invalid := by
  intro h
  cases h

/-- A request keeps what its call knows, and an object that is there stays. -/
theorem advance_sound (hstored : KeyObject kms c stored) (hcall : call.Sound kms c stored)
    (h : call.advance kms c stored r = some (stored', call')) :
    KeyObject kms c stored' ∧ call'.Sound kms c stored' ∧ (stored' = stored ∨ stored = none) := by
  unfold advance at h
  split at h
  · split at h
    · cases h
      exact ⟨hstored, advance_get_sound trivial hstored, .inl rfl⟩
    · cases h
      exact ⟨hstored, service_ne_invalid, .inl rfl⟩
  · cases h
    exact ⟨hstored, service_ne_invalid, .inl rfl⟩
  · next seed =>
    cases h
    exact ⟨hstored, ⟨seed, rfl⟩, .inl rfl⟩
  · split at h
    · next hnone =>
      cases h
      exact ⟨(keyObject_put hcall).1, (keyObject_put hcall).2, .inr hnone⟩
    · cases h
  · split at h
    · cases h
    · cases h
      exact ⟨hstored, trivial, .inl rfl⟩
  · cases h
    exact ⟨hstored, trivial, .inl rfl⟩
  · split at h
    · next hnone =>
      cases h
      exact ⟨(keyObject_put hcall).1, service_ne_invalid, .inr hnone⟩
    · cases h
  · cases h
    exact ⟨hstored, service_ne_invalid, .inl rfl⟩
  · split at h
    · cases h
      exact ⟨hstored, advance_get_sound (fun h => by cases h) hstored, .inl rfl⟩
    · cases h
      exact ⟨hstored, service_ne_invalid, .inl rfl⟩
  · next blob served =>
    split at h
    · obtain ⟨seed, hobject, rfl⟩ := hcall
      rw [kms.decrypt_generate] at h
      cases h
      exact ⟨hstored, ⟨seed, hobject, rfl⟩, .inl rfl⟩
    · cases h
      exact ⟨hstored, service_ne_invalid, .inl rfl⟩
  · cases h

end DataKeyCall

namespace DataKeyWorld

variable {w w' : DataKeyWorld} {e : DataKeyEvent} {n m : Nat} {s : SandboxId} {key key' : Bytes}

/-- Every object of a data key came from a call, and every call knows it. -/
structure Sound (kms : Kms) (w : DataKeyWorld) : Prop where
  objects : ∀ s : SandboxId, KeyObject kms s.context (w.objects s.dataKeyObject)
  calls : ∀ n s call, w.calls n = some (s, call) →
    call.Sound kms s.context (w.objects s.dataKeyObject)

theorem Sound.init : Sound kms {} where
  objects s := by
    rintro body ⟨⟩
  calls n s call h := by cases h

theorem Sound.begin (h : w.Sound kms) :
    Sound kms { w with calls := Function.update w.calls n (some (s, .reading)) } where
  objects := h.objects
  calls m s' call hcall := by
    dsimp only at hcall
    by_cases hm : m = n
    · subst hm
      rw [Function.update_self] at hcall
      cases hcall
      trivial
    · rw [Function.update_of_ne hm] at hcall
      exact h.calls m s' call hcall

theorem Sound.request (h : w.Sound kms) (hcall : w.calls n = some (s, call))
    (hadvance : call.advance kms s.context (w.objects s.dataKeyObject) r = some (stored', call')) :
    Sound kms { objects := Function.update w.objects s.dataKeyObject stored',
                calls := Function.update w.calls n (some (s, call')) } := by
  obtain ⟨hstored, hsound, hkept⟩ :=
    DataKeyCall.advance_sound (h.objects s) (h.calls n s call hcall) hadvance
  refine ⟨?_, ?_⟩
  · intro s'
    by_cases hs : s' = s
    · subst hs
      dsimp only
      rw [Function.update_self]
      exact hstored
    · dsimp only
      rw [Function.update_of_ne fun heq => hs (SandboxId.dataKeyObject_inj heq)]
      exact h.objects s'
  · intro m s' other hother
    dsimp only at hother ⊢
    by_cases hm : m = n
    · subst hm
      rw [Function.update_self] at hother
      cases hother
      rw [Function.update_self]
      exact hsound
    · rw [Function.update_of_ne hm] at hother
      have hbefore := h.calls m s' other hother
      by_cases hs : s' = s
      · subst hs
        rw [Function.update_self]
        exact hbefore.mono hkept
      · rw [Function.update_of_ne fun heq => hs (SandboxId.dataKeyObject_inj heq)]
        exact hbefore

theorem of_step_begin (h : step kms w (.begin n s) = some w') :
    w.calls n = none ∧ w' = { w with calls := Function.update w.calls n (some (s, .reading)) } := by
  unfold DataKeyWorld.step at h
  dsimp only at h
  split at h
  · next hnone =>
    cases h
    exact ⟨hnone, rfl⟩
  · cases h

theorem of_step_request {r : KeyRequest} (h : step kms w (.request n r) = some w') :
    ∃ s call stored' call', w.calls n = some (s, call) ∧
      DataKeyCall.advance kms s.context (w.objects s.dataKeyObject) call r = some (stored', call') ∧
      w' = ⟨Function.update w.objects s.dataKeyObject stored', Function.update w.calls n
          (some (s, call'))⟩ := by
  unfold DataKeyWorld.step at h
  dsimp only at h
  split at h
  · cases h
  · next s call hcall =>
    obtain ⟨⟨stored', call'⟩, hadvance, rfl⟩ := Option.map_eq_some_iff.1 h
    exact ⟨s, call, stored', call', hcall, hadvance, rfl⟩

theorem Sound.step (h : w.Sound kms) (hstep : step kms w e = some w') : w'.Sound kms := by
  cases e with
  | begin n s =>
    obtain ⟨-, rfl⟩ := of_step_begin hstep
    exact h.begin
  | request n r =>
    obtain ⟨s, call, stored', call', hcall, hadvance, rfl⟩ := of_step_request hstep
    exact h.request hcall hadvance
  | upload s' category name body =>
    obtain ⟨suffix, hsuffix, rfl⟩ := Option.map_eq_some_iff.1 hstep
    -- an upload leaves the object of every data key alone
    have hother : ∀ s : SandboxId, Function.update w.objects
      (Str.ofString "sandboxes/" ++ s'.text ++ Str.ofString "/" ++ suffix) body
        s.dataKeyObject = w.objects s.dataKeyObject := fun s =>
          Function.update_of_ne (s.dataKeyObject_ne_grant s' hsuffix) _ _
    refine ⟨?_, ?_⟩
    · intro s
      dsimp only
      rw [hother s]
      exact h.objects s
    · intro n s call hcall
      dsimp only
      rw [hother s]
      exact h.calls n s call hcall

theorem sound_of_reaches (h : Machine.Reaches (step kms) Machine.Any {} w) : w.Sound kms :=
  h.invariant (fun _ _ _ hsound _ hstep => hsound.step hstep) Sound.init

/-- An answered call is over. -/
theorem answered_step (hcall : w.calls n = some (s, .answered key))
    (hstep : step kms w e = some w') :
    w'.calls n = some (s, .answered key) := by
  cases e with
  | begin m s' =>
    obtain ⟨hnone, rfl⟩ := of_step_begin hstep
    have hm : n ≠ m := by
      rintro rfl
      rw [hnone] at hcall
      cases hcall
    exact (Function.update_of_ne hm _ _).trans hcall
  | request m r =>
    obtain ⟨s', call, stored', call', hother, hadvance, rfl⟩ := of_step_request hstep
    have hm : n ≠ m := by
      rintro rfl
      rw [hother] at hcall
      cases hcall
      cases hadvance
    exact (Function.update_of_ne hm _ _).trans hcall
  | upload s' category name body =>
    obtain ⟨suffix, -, rfl⟩ := Option.map_eq_some_iff.1 hstep
    exact hcall

theorem answered_of_reaches (h : Machine.Reaches (step kms) Machine.Any w w')
    (hcall : w.calls n = some (s, .answered key)) :
    w'.calls n = some (s, .answered key) :=
  h.invariant (I := fun w => w.calls n = some (s, .answered key))
    (fun _ _ _ hcall _ hstep => answered_step hcall hstep) hcall

theorem Sound.same_key (h : w.Sound kms) (hn : w.calls n = some (s, .answered key))
    (hm : w.calls m = some (s, .answered key')) :
    key' = key ∧ key.length = 32 := by
  obtain ⟨seed, hseed, rfl⟩ := h.calls n s _ hn
  obtain ⟨seed', hseed', rfl⟩ := h.calls m s _ hm
  -- both opened the same blob
  have hbody : storedKey (kms.generate seed' s.context).2 = storedKey
      (kms.generate seed s.context).2 :=
    Option.some.inj (hseed'.symm.trans hseed)
  have hblob := congrArg readStoredKey hbody
  rw [readStoredKey_storedKey, readStoredKey_storedKey] at hblob
  have hopen := kms.decrypt_generate seed' s.context
  rw [Option.some.inj hblob, kms.decrypt_generate] at hopen
  exact ⟨(Option.some.inj hopen).symm, kms.length_generate seed s.context⟩

theorem step_request {s : SandboxId} {call call' : DataKeyCall} {stored' : Option Bytes}
    {r : KeyRequest}
    (hcall : w.calls n = some (s, call))
    (hadvance : call.advance kms s.context (w.objects s.dataKeyObject) r = some (stored', call')) :
    ∃ w', step kms w (.request n r) = some w' ∧ w'.calls n = some (s, call') := by
  refine ⟨⟨Function.update w.objects s.dataKeyObject stored', Function.update w.calls n
    (some (s, call'))⟩, ?_,
    Function.update_self n _ w.calls⟩
  unfold step
  dsimp only
  rw [hcall]
  dsimp only
  rw [hadvance, Option.map_some]

/-- A call that starts where a key is stored and is served reads and opens it. -/
theorem Sound.serve (h : w.Sound kms) (hn : w.calls n = some (s, .answered key))
    (hm : w.calls m = some (s, .reading)) :
    ∃ w', Machine.runAlong (DataKeyWorld.step kms) Machine.Any w
    [.request m (.get true), .request m (.decrypt true)] = some w' ∧
      w'.calls m = some (s, .answered key) := by
  obtain ⟨seed, hstored, rfl⟩ := h.calls n s _ hn
  have hget : DataKeyCall.reading.advance kms s.context (w.objects s.dataKeyObject) (.get true) =
      some (w.objects s.dataKeyObject, .opening (kms.generate seed s.context).2) := by
    rw [hstored]
    show some (_, DataKeyCall.found _) = _
    rw [DataKeyCall.found, readStoredKey_storedKey]
  obtain ⟨w₁, hfirst, hm₁⟩ := step_request hm hget
  have hdecrypt : (DataKeyCall.opening (kms.generate seed s.context).2).advance kms s.context
    (w₁.objects s.dataKeyObject)
      (.decrypt true) = some (w₁.objects s.dataKeyObject,
          .answered (kms.generate seed s.context).1) := by
    show some (_, (kms.decrypt s.context _).elim _ _) = _
    rw [kms.decrypt_generate]
    rfl
  obtain ⟨w₂, hsecond, hm₂⟩ := step_request hm₁ hdecrypt
  refine ⟨w₂, ?_, hm₂⟩
  rw [Machine.runAlong_cons trivial, hfirst, Option.bind_some, Machine.runAlong_cons trivial,
    hsecond, Option.bind_some]
  rfl

/-- Whatever the calls, the uploads and the failures of S3 and KMS: once a call has answered a key,
every answer for that sandbox is that key, a new call that is served gets it, and no call ever finds
an object that is no data key. -/
theorem one_key (hreach : Machine.Reaches (step kms) Machine.Any {} w)
    (hn : w.calls n = some (s, .answered key))
    (hlater : Machine.Reaches (step kms) Machine.Any w w') :
    key.length = 32 ∧ (∀ m key', w'.calls m = some (s, .answered key') → key' = key) ∧
      (∀ m, w'.calls m = some (s, .reading) →
        ∃ w'', Machine.runAlong (step kms) Machine.Any w'
        [.request m (.get true), .request m (.decrypt true)] = some w'' ∧
          w''.calls m = some (s, .answered key)) ∧
      ∀ m s', w'.calls m ≠ some (s', .raised .invalid) := by
  have hsound := sound_of_reaches (hreach.trans hlater)
  have hn' := answered_of_reaches hlater hn
  refine ⟨(hsound.same_key hn' hn').2, ?_, ?_, ?_⟩
  · intro m key' hm
    exact (hsound.same_key hn' hm).1
  · intro m hm
    exact hsound.serve hn' hm
  · intro m s' hm
    exact hsound.calls m s' _ hm rfl

end DataKeyWorld

end

/-! ## What is encrypted with it -/

/-- The answer of `_data_key`. -/
def dataKeyAnswer (key : Bytes) : Fields :=
  [(Str.ofString "plaintextKey", .str (Base64.encode (key.map UInt8.toNat)))]

/-- `LambdaPersistenceBroker.cipher`, up to the cipher it builds: the key it is given, if
`SandboxCipher` takes that. -/
def receivedKey (answer : Fields) : Option Bytes :=
  match get answer "plaintextKey" with
  | .str encoded =>
    ((Base64.decode encoded).map fun bytes => bytes.map UInt8.ofNat).filter fun key =>
      key.length = 32
  | _ => none

/-- SHA-256, HMAC-SHA-256 and AES-GCM. A ciphertext that AES-GCM opens is the one it makes of what
it opened. -/
structure Primitives where
  sha : Sha256
  hmac : (key data : Bytes) → Bytes
  gcmEncrypt : (key nonce plaintext associatedData : Bytes) → Bytes
  gcmDecrypt : (key nonce ciphertext associatedData : Bytes) → Option Bytes
  length_hmac : ∀ key data, (hmac key data).length = 32
  length_encrypt : ∀ key nonce plaintext ad, (gcmEncrypt key nonce plaintext ad).length =
    plaintext.length + 16
  decrypt_encrypt : ∀ key nonce plaintext ad, gcmDecrypt key nonce
    (gcmEncrypt key nonce plaintext ad) ad = some plaintext
  encrypt_of_decrypt : ∀ key nonce ciphertext ad plaintext, gcmDecrypt key nonce ciphertext ad =
    some plaintext →
    gcmEncrypt key nonce plaintext ad = ciphertext

theorem toNat_ofNat {s : Str} (h : ∀ c ∈ s, c < 256) : (s.map UInt8.ofNat).map UInt8.toNat = s := by
  rw [List.map_map]
  refine (List.map_congr_left fun c hc => ?_).trans (List.map_id _)
  simp [Nat.mod_eq_of_lt (h c hc)]

/-- The text of a digest is ASCII. -/
theorem Digest.lt_of_mem_text {d : Digest} (h : isDigest d = true) {c : Nat} (hc : c ∈ d.text) :
    c < 128 := by
  obtain ⟨x, hx, rfl⟩ := List.mem_map.1 hc
  have hmem : x ∈ "0123456789abcdef".toList :=
    List.contains_iff_mem.1 (List.all_eq_true.1 (Bool.and_eq_true_iff.1 h).2 x hx)
  have hall : ("0123456789abcdef".toList.map Char.toNat).all (· < 128) = true := rfl
  exact of_decide_eq_true (List.all_eq_true.1 hall x.toNat (List.mem_map_of_mem hmem))

theorem SandboxId.lt_of_mem (s : SandboxId) {c : Nat} (hc : c ∈ s.text) : c < 128 := by
  obtain ⟨text, pattern⟩ := s
  simp only [isSandboxId, Bool.and_eq_true, decide_eq_true_eq, List.isPrefixOf_iff_prefix,
    List.all_eq_true] at pattern
  obtain ⟨⟨-, rest, rfl⟩, hall⟩ := pattern
  rcases List.mem_append.1 hc with hc | hc
  · have hprefix : ∀ x ∈ Str.ofString "sbx_", x < 128 := by decide
    exact hprefix c hc
  · have := hall c hc
    omega

namespace SandboxCipher

variable {cipher : SandboxCipher} {blob : EncryptedBlob} {plaintext : Bytes}

theorem decrypt_eq_ok : cipher.decrypt blob = .ok plaintext ↔
    13 ≤ blob.ciphertext.length ∧ cipher.aead (blob.ciphertext.take 12) (blob.ciphertext.drop 12)
      (cipher.associatedData blob.digest) =
      some plaintext ∧ (cipher.sha.hexdigest plaintext).text = blob.digest := by
  unfold decrypt
  split
  · next hshort =>
    constructor
    · intro h
      cases h
    · intro h
      omega
  · next hlong =>
    split
    · next hnone =>
      constructor
      · intro h
        cases h
      · intro h
        rw [hnone] at h
        cases h.2.1
    · next opened hsome =>
      constructor
      · intro h
        split at h
        · next hdigest =>
          cases h
          exact ⟨not_lt.1 hlong, hsome, hdigest⟩
        · cases h
      · rintro ⟨-, hopened, hdigest⟩
        rw [hsome] at hopened
        cases hopened
        exact if_pos hdigest

end SandboxCipher

namespace Primitives

variable (p : Primitives)

def cipher (key : Bytes) (sandbox : SandboxId) : SandboxCipher where
  sha := p.sha
  aead := p.gcmDecrypt key
  sandboxId := sandbox

/-- `SandboxCipher.encrypt` -/
def encrypt (key : Bytes) (sandbox : SandboxId) (plaintext : Bytes) : EncryptedBlob :=
  let digest := (p.sha.hexdigest plaintext).text
  let nonce := (p.hmac key (digest.map UInt8.ofNat)).take 12
  { digest := digest
    ciphertext :=
      nonce ++ p.gcmEncrypt key nonce plaintext ((p.cipher key sandbox).associatedData digest) }

/-- The nonce of `encrypt`. -/
def nonce (key plaintext : Bytes) : Bytes :=
  (p.hmac key ((p.sha.hexdigest plaintext).text.map UInt8.ofNat)).take 12

/-- The message a ciphertext is taken for under a sandbox and digest. -/
def message (key : Bytes) (sandbox : SandboxId) (digest : Str) (plaintext : Bytes) :
    Bytes × Bytes :=
  (plaintext, (p.cipher key sandbox).associatedData digest)

variable {p} {key : Bytes} {sandbox sandbox' : SandboxId} {plaintext plaintext' : Bytes}
    {digest' : Str}

theorem length_nonce (key data : Bytes) : ((p.hmac key data).take 12).length = 12 := by
  rw [List.length_take, p.length_hmac]
  rfl

theorem decrypt_own : (p.cipher key sandbox).decrypt (p.encrypt key sandbox plaintext) =
    .ok plaintext := by
  have hlength := length_nonce (p := p) key ((p.sha.hexdigest plaintext).text.map UInt8.ofNat)
  refine SandboxCipher.decrypt_eq_ok.2 ⟨?_, ?_, rfl⟩
  · dsimp only [encrypt]
    rw [List.length_append, hlength, p.length_encrypt]
    omega
  · dsimp only [encrypt]
    rw [List.take_left' hlength, List.drop_left' hlength]
    exact p.decrypt_encrypt _ _ _ _

theorem associatedData_inj (hdigest : ∀ c ∈ digest', c < 256)
    (h : (p.cipher key sandbox').associatedData digest' =
      (p.cipher key sandbox).associatedData (p.sha.hexdigest plaintext).text) :
    sandbox' = sandbox ∧ digest' = (p.sha.hexdigest plaintext).text := by
  have hown : ∀ c ∈ (p.sha.hexdigest plaintext).text, c < 256 := fun c hc => by
    have := Digest.lt_of_mem_text (p.sha.isDigest plaintext) hc
    omega
  -- both texts are the prefix, the sandbox and the digest, the first two of fixed length
  have htext : ∀ (s : SandboxId) (d : Str), (∀ c ∈ d, c < 256) →
    ((p.cipher key s).associatedData d).map UInt8.toNat =
      Str.ofString "kirocrew-checkpoint-v1" ++ ([0] ++ (s.text ++ ([0] ++ d))) := by
    intro s d hd
    have hbytes : ∀ c ∈ Str.ofString "kirocrew-checkpoint-v1" ++ [0] ++ s.text ++ [0] ++ d,
        c < 256 := by
      intro c hc
      simp only [List.mem_append, List.mem_singleton] at hc
      rcases hc with (((hc | rfl) | hc) | rfl) | hc
      · have hprefix : ∀ x ∈ Str.ofString "kirocrew-checkpoint-v1", x < 256 := by decide
        exact hprefix c hc
      · omega
      · have := s.lt_of_mem hc
        omega
      · omega
      · exact hd c hc
    refine (toNat_ofNat hbytes).trans ?_
    simp only [List.append_assoc]
  have heq := congrArg (List.map UInt8.toNat) h
  rw [htext _ _ hdigest, htext _ _ hown] at heq
  have hrest := List.append_cancel_left (List.append_cancel_left heq)
  obtain ⟨hsandbox, hd⟩ := List.append_inj hrest (by rw [sandbox'.length_text, sandbox.length_text])
  exact ⟨SandboxId.ext_text hsandbox, List.append_cancel_left hd⟩

/-- What was encrypted for one sandbox and digest opens for no other, and to nothing else, unless
AES-GCM seals the message it was encrypted as and the one it opens as, which differ, alike under the
nonce of the first. -/
theorem decrypt_foreign
    (h : (p.cipher key sandbox').decrypt
      { digest := digest', ciphertext := (p.encrypt key sandbox plaintext).ciphertext } =
        .ok plaintext') :
    (sandbox' = sandbox ∧ digest' = (p.sha.hexdigest plaintext).text ∧ plaintext' = plaintext) ∨
      p.message key sandbox' digest' plaintext' ≠
        p.message key sandbox (p.sha.hexdigest plaintext).text plaintext ∧
      (p.gcmEncrypt key (p.nonce key plaintext)).uncurry
        (p.message key sandbox' digest' plaintext') =
        (p.gcmEncrypt key (p.nonce key plaintext)).uncurry
          (p.message key sandbox (p.sha.hexdigest plaintext).text plaintext) := by
  obtain ⟨-, hopen, hdigest⟩ := SandboxCipher.decrypt_eq_ok.1 h
  have hlength := length_nonce (p := p) key ((p.sha.hexdigest plaintext).text.map UInt8.ofNat)
  dsimp only [encrypt] at hopen
  rw [List.take_left' hlength, List.drop_left' hlength] at hopen
  have hsame := p.encrypt_of_decrypt _ _ _ _ _ hopen
  by_cases heq : p.message key sandbox' digest' plaintext' =
      p.message key sandbox (p.sha.hexdigest plaintext).text plaintext
  · refine .inl ?_
    have hascii : ∀ c ∈ digest', c < 256 := fun c hc => by
      dsimp only at hdigest
      rw [← hdigest] at hc
      have := Digest.lt_of_mem_text (p.sha.isDigest plaintext') hc
      omega
    obtain ⟨hsandbox, hd⟩ := associatedData_inj hascii (congrArg Prod.snd heq)
    exact ⟨hsandbox, hd, congrArg Prod.fst heq⟩
  · exact .inr ⟨heq, hsame⟩

end Primitives

theorem receivedKey_answer {key : Bytes} (h : key.length = 32) : receivedKey (dataKeyAnswer key) =
    some key := by
  have hbytes : ∀ x ∈ key.map UInt8.toNat, x < 256 := by
    intro x hx
    obtain ⟨c, -, rfl⟩ := List.mem_map.1 hx
    exact c.toNat_lt
  have hback : (key.map UInt8.toNat).map UInt8.ofNat = key := by
    rw [List.map_map]
    exact (List.map_congr_left fun c _ => by simp).trans (List.map_id _)
  have hget : get (dataKeyAnswer key) "plaintextKey" =
      .str (Base64.encode (key.map UInt8.toNat)) := by
    simp [ManifestDecoder.get, Value.get, dataKeyAnswer]
  simp only [receivedKey, hget, Base64.decode_encode hbytes, Option.map_some, hback,
    Option.filter_some, h, decide_true, if_true]

/-- Two containers of a sandbox, whenever each asked for the key: each takes the key it is answered,
and reads what the other encrypts. -/
theorem DataKeyWorld.opens_for_all {kms : Kms} {w w' : DataKeyWorld} {n m : Nat} {s : SandboxId}
    {key key' : Bytes} (p : Primitives)
    (hreach : Machine.Reaches (step kms) Machine.Any {} w)
    (hn : w.calls n = some (s, .answered key))
    (hlater : Machine.Reaches (step kms) Machine.Any w w')
      (hm : w'.calls m = some (s, .answered key')) :
    ∃ k k', receivedKey (dataKeyAnswer key) = some k ∧ receivedKey (dataKeyAnswer key') = some k' ∧
      ∀ plaintext, (p.cipher k' s).decrypt (p.encrypt k s plaintext) = .ok plaintext ∧
        (p.cipher k s).decrypt (p.encrypt k' s plaintext) = .ok plaintext ∧
        ∀ s' digest' plaintext',
          (p.cipher k' s').decrypt
            { digest := digest', ciphertext := (p.encrypt k s plaintext).ciphertext } =
              .ok plaintext' →
          (s' = s ∧ digest' = (p.sha.hexdigest plaintext).text ∧ plaintext' = plaintext) ∨
            p.message k s' digest' plaintext' ≠ p.message k s
            (p.sha.hexdigest plaintext).text plaintext ∧
            (p.gcmEncrypt k (p.nonce k plaintext)).uncurry (p.message k s' digest' plaintext') =
              (p.gcmEncrypt k (p.nonce k plaintext)).uncurry
                (p.message k s (p.sha.hexdigest plaintext).text plaintext) := by
  have hsound := sound_of_reaches (hreach.trans hlater)
  obtain ⟨rfl, hlength⟩ := hsound.same_key (answered_of_reaches hlater hn) hm
  refine ⟨key', key', receivedKey_answer hlength, receivedKey_answer hlength, fun plaintext =>
    ⟨?_, ?_, ?_⟩⟩
  · exact Primitives.decrypt_own
  · exact Primitives.decrypt_own
  · intro s' digest' plaintext' h
    exact Primitives.decrypt_foreign h

/-! ## Two first calls at once -/

deriving instance DecidableEq for SandboxId

namespace DataKeyExample

open Example (sandbox)

def kms : Kms where
  generate seed _ := (List.replicate 32 (UInt8.ofNat seed), [UInt8.ofNat seed])
  decrypt _ blob := blob.head?.map (List.replicate 32)
  length_generate _ _ := List.length_replicate
  decrypt_generate _ _ := rfl

/-- Both find no object and generate a key; the put of the second is refused, and it opens what the
first stored. -/
def race : List DataKeyEvent :=
  [.begin 0 sandbox, .begin 1 sandbox, .request 0 (.get true), .request 1 (.get true),
    .request 1 (.generate (some 7)),
    .request 0 (.generate (some 5)), .request 0 (.put .stored)]

def lost : List DataKeyEvent :=
  [.request 1 (.put .precondition), .request 1 (.get true), .request 1 (.decrypt true)]

def raced : DataKeyWorld := (Machine.runAlong (DataKeyWorld.step kms) Machine.Any {} race).getD {}

def settled : DataKeyWorld :=
  (Machine.runAlong (DataKeyWorld.step kms) Machine.Any raced lost).getD {}

/-- The runs go through, to these answers. -/
theorem evaluated : Machine.runAlong (DataKeyWorld.step kms) Machine.Any {} race ≠ none ∧
    Machine.runAlong (DataKeyWorld.step kms) Machine.Any raced lost ≠ none ∧
    raced.calls 0 = some (sandbox, .answered (List.replicate 32 5)) ∧
    settled.calls 1 = some (sandbox, .answered (List.replicate 32 5)) := by decide +kernel

theorem reaches_raced : Machine.Reaches (DataKeyWorld.step kms) Machine.Any {} raced :=
  .of_runAlong (Option.getD_of_ne_none evaluated.1 _).symm

theorem reaches_settled : Machine.Reaches (DataKeyWorld.step kms) Machine.Any raced settled :=
  .of_runAlong (Option.getD_of_ne_none evaluated.2.1 _).symm

/-- Both calls of the race answer the key of the first put. -/
theorem one_key_race : ∃ key : Bytes, key.length = 32 ∧ ∀ m key', settled.calls m =
    some (sandbox, .answered key') → key' = key :=
  have h := DataKeyWorld.one_key reaches_raced evaluated.2.2.1 reaches_settled
  ⟨_, h.1, h.2.1⟩

/-- A cipher that only appends a tag. -/
def primitives : Primitives where
  sha := Example.sha256
  hmac _ _ := List.replicate 32 0
  gcmEncrypt _ _ plaintext _ := plaintext ++ List.replicate 16 0
  gcmDecrypt _ _ ciphertext _ :=
    if ciphertext.drop (ciphertext.length - 16) = List.replicate 16 0 then
      some (ciphertext.take (ciphertext.length - 16)) else none
  length_hmac _ _ := List.length_replicate
  length_encrypt _ _ plaintext _ := by rw [List.length_append, List.length_replicate]
  decrypt_encrypt _ _ plaintext _ := by
    have hlength : (plaintext ++ List.replicate 16 (0 : UInt8)).length - 16 = plaintext.length := by
      simp
    rw [hlength, List.drop_left, if_pos rfl, List.take_left]
  encrypt_of_decrypt key nonce ciphertext ad plaintext h := by
    split at h
    · next hdrop =>
      cases h
      rw [← hdrop, List.take_append_drop]
    · cases h

theorem opens_for_both : ∃ k k', receivedKey (dataKeyAnswer (List.replicate 32 5)) = some k ∧
    receivedKey (dataKeyAnswer (List.replicate 32 5)) = some k' ∧
    ∀ plaintext, (primitives.cipher k' sandbox).decrypt (primitives.encrypt k sandbox plaintext) =
      .ok plaintext ∧
      (primitives.cipher k sandbox).decrypt (primitives.encrypt k' sandbox plaintext) =
        .ok plaintext :=
  have ⟨k, k', hk, hk', h⟩ :=
    DataKeyWorld.opens_for_all primitives reaches_raced evaluated.2.2.1 reaches_settled
      evaluated.2.2.2
  ⟨k, k', hk, hk', fun plaintext => ⟨(h plaintext).1, (h plaintext).2.1⟩⟩

end DataKeyExample

end KiroCrew
