import KiroCrew.Lib.Dict
import KiroCrew.Lib.Double
import KiroCrew.Lib.PyText
import KiroCrew.Transport

/-!
# Sanitizing an error

`sanitize_error` takes any mapping and checks what it has made of it against the schema of errors,
which asks for a message of at least one character. So an empty message makes it raise, as does a
value that `str` cannot write out (an integer too long, lists and mappings too deep); everything
else gives a valid error, and no text in it has a secret (`sanitizes_iff`).
-/

namespace KiroCrew.Sanitizer

open Json PyText

/-- `[A-Za-z0-9_-]`, in any case -/
def tokenChar : Regex Nat := .one fun c => isLetter c || isDigit c || decide (c = 95 ∨ c = 45)

def dot : Regex Nat := .one fun c => decide (c = 46)

/-- A word and the white space after it. -/
def spaced (s : String) : Regex Nat := .seq (word s) (.plus space)

/-- `_SECRET_TEXT` -/
def secretText : Regex Nat :=
  .alt (.seq (spaced "bearer") (.plus (.one fun c => !isWhite c)))
    (.alt (.seq (word "eyJ")
      (.seq (.plus tokenChar) (.seq dot (.seq (.plus tokenChar) (.seq dot (.plus tokenChar))))))
      (.seq (spaced "-----BEGIN")
        (.seq (.opt (.alt (spaced "RSA") (.alt (spaced "EC") (spaced "OPENSSH"))))
          (word "PRIVATE KEY-----"))))

def safeDetailKeys : List Str :=
  ["feature", "generation", "limit", "operation", "retryAfterSeconds", "state"].map Str.ofString

def errorCodes : List Str :=
  ["INVALID_MESSAGE", "UNSUPPORTED_PROTOCOL", "FRAME_TOO_LARGE", "SEQUENCE_ERROR",
    "IDEMPOTENCY_CONFLICT", "AUTHENTICATION_FAILED",
    "AUTHORIZATION_FAILED", "BINDING_MISMATCH", "SANDBOX_CONFLICT", "CHECKPOINT_FAILED",
    "PERSISTENCE_RESTORE_FAILED",
    "KIRO_AUTH_REQUIRED", "KIROCREW_UNAVAILABLE", "FEATURE_UNAVAILABLE_IN_AGENTCORE", "THROTTLED",
      "INTERNAL_ERROR"].map Str.ofString

def errorCategories : List Str :=
  ["AUTHENTICATION", "AUTHORIZATION", "BINDING", "LIFECYCLE", "PROVISIONING", "TRANSPORT",
    "KIRO_AUTH", "KIROCREW", "PERSISTENCE",
    "THROTTLING", "INTERNAL"].map Str.ofString

def protocolVersion : Str := Str.ofString "kirocrew-agentcore.v1"

inductive Raised
  /-- `ValueError`: an integer is too long for its text; `RecursionError`: a value is nested too
  deeply. -/
  | unprintable
  /-- `ProtocolContractError` -/
  | contract (code : Str) (message : Str)
deriving DecidableEq, Repr

/-! ## The schema -/

/-- `string`, `number`, `integer`, `boolean` or `null` -/
def isScalar : Value → Bool
  | .null | .bool _ | .int _ | .float _ | .str _ => true
  | .arr _ | .obj _ => false

def isEnum (values : List Str) : Value → Bool
  | .str s => decide (s ∈ values)
  | _ => false

def isMessage : Value → Bool
  | .str s => decide (1 ≤ s.length ∧ s.length ≤ 512)
  | _ => false

def isBoolean : Value → Bool
  | .bool _ => true
  | _ => false

/-- `^[0-9A-HJKMNP-TV-Z]{26}$`, whose end may be before a last newline -/
def isCorrelationId : Value → Bool
  | .str s => isUlid s || isUlid s.dropLast && decide (s.getLast? = some 10)
  | _ => false

def isDetails : Value → Bool
  | .obj fields => fields.all fun x => isScalar x.2
  | _ => false

/-- The properties of the schema; all but the last are required. -/
def properties : List (Str × (Value → Bool)) :=
  [(Str.ofString "code", isEnum errorCodes), (Str.ofString "category", isEnum errorCategories),
    (Str.ofString "message", isMessage),
    (Str.ofString "retryable", isBoolean), (Str.ofString "correlationId", isCorrelationId),
    (Str.ofString "details", isDetails)]

/-- `error.schema.json` -/
def errorSchema : Value → Bool
  | .obj fields =>
    (fields.all fun x => decide (x.1 ∈ properties.map Prod.fst)) &&
      (properties.dropLast.all fun x => (Value.get fields x.1).isSome) &&
      properties.all fun x => (Value.get fields x.1).all x.2
  | _ => false

/-- `validate_schema("error.schema.json", fields)` -/
def validateSchema (fields : List (Str × Value)) : Except Raised Unit :=
  if errorSchema (.obj fields) then .ok ()
  else if (Value.get fields (Str.ofString "version")).any (isEnum [protocolVersion]) then
    .error (.contract (Str.ofString "INVALID_MESSAGE")
      (Str.ofString "Message does not match the protocol contract."))
  else .error (.contract (Str.ofString "UNSUPPORTED_PROTOCOL")
    (Str.ofString "Unsupported protocol version."))

/-! ## The function -/

/-- `str(value.get(key, default))` -/
def text (p : Printing) (value : List (Str × Value)) (key default : String) : Except Raised Str :=
  match p.str ((Value.get value (Str.ofString key)).getD (.str (Str.ofString default))) with
  | some s => .ok s
  | none => .error .unprintable

def refusalText : Str := Str.ofString "The request could not be completed."

/-- One round of the loop over the details. -/
def addDetail (p : Printing) (details : Dict Str Value) (x : Str × Value) :
    Except Raised (Dict Str Value) :=
  if x.1 ∈ safeDetailKeys ∧ isScalar x.2 = true then
    match p.str x.2 with
    | some s => .ok (if secretText.search s then details else details.set x.1 x.2)
    | none => .error .unprintable
  else .ok details

def safeDetails (p : Printing) : Option Value → Except Raised (Dict Str Value)
  | some (.obj fields) => fields.foldlM (addDetail p) []
  | _ => .ok []

def sanitizeError (p : Printing) (value : List (Str × Value)) :
    Except Raised (List (Str × Value)) := do
  let code ← text p value "code" "INTERNAL_ERROR"
  let category ← text p value "category" "INTERNAL"
  let code := if code ∈ errorCodes then code else Str.ofString "INTERNAL_ERROR"
  let category := if category ∈ errorCategories then category else Str.ofString "INTERNAL"
  let rawMessage ← text p value "message" "The request could not be completed."
  let message := if secretText.search rawMessage then refusalText else rawMessage.take 512
  let correlationId ← text p value "correlationId" ""
  let details ← safeDetails p (Value.get value (Str.ofString "details"))
  let retryable := ((Value.get value (Str.ofString "retryable")).getD (.bool false)).truthy
  let result := [(Str.ofString "code", .str code), (Str.ofString "category", .str category),
    (Str.ofString "message", .str message),
    (Str.ofString "retryable", .bool retryable),
    (Str.ofString "correlationId", .str correlationId)] ++
    if details = [] then [] else [(Str.ofString "details", .obj details)]
  validateSchema result
  return result

/-! ## What is promised -/

/-- A valid error, and no string in its message or its details has a secret. -/
structure Sanitized (result : List (Str × Value)) : Prop where
  valid : errorSchema (.obj result) = true
  clean : ∀ key ∈ [Str.ofString "message", Str.ofString "details"], ∀ v,
    Value.get result key = some v →
    ∀ s ∈ strings v, secretText.search s = false

/-- The value under the key has a text: its integers are not too long, and it is not nested too
deeply. -/
def Textual (p : Printing) (value : List (Str × Value)) (key : String) : Prop :=
  ∀ v ∈ Value.get value (Str.ofString key), fits p.nesting v = true

/-- The details that are kept or looked at have a text. -/
def DetailsTextual (p : Printing) : Option Value → Prop
  | some (.obj fields) => ∀ x ∈ fields, x.1 ∈ safeDetailKeys → isScalar x.2 = true →
      fits p.nesting x.2 = true
  | _ => True

/-- The message is not the empty string, and whatever is to be written out has a text. -/
structure Printable (p : Printing) (value : List (Str × Value)) : Prop where
  message : Value.get value (Str.ofString "message") ≠ some (.str [])
  texts : ∀ key ∈ ["code", "category", "message"], Textual p value key
  details : DetailsTextual p (Value.get value (Str.ofString "details"))

/-! ## Its parts -/

variable {p : Printing} {value : List (Str × Value)} {key default : String}

theorem text_eq_ok {s : Str} :
    text p value key default = .ok s ↔
    p.str ((Value.get value (Str.ofString key)).getD (.str (Str.ofString default))) = some s := by
  unfold text
  split
  · next t ht => simp [ht]
  · next ht => simp [ht]

theorem exists_text : (∃ s, text p value key default = .ok s) ↔ Textual p value key := by
  simp only [text_eq_ok, ← Option.isSome_iff_exists, Printing.str_isSome, Textual]
  cases Value.get value (Str.ofString key) with
  | none => simp [fits]
  | some v => simp

theorem addDetail_eq_ok {details details' : Dict Str Value} {x : Str × Value}
    (h : addDetail p details x = .ok details') :
    details' = details ∨ details' = details.set x.1 x.2 ∧ x.1 ∈ safeDetailKeys ∧
    isScalar x.2 = true ∧
      ∃ s, p.str x.2 = some s ∧ secretText.search s = false := by
  unfold addDetail at h
  split_ifs at h with hsafe
  · split at h
    · next s hs =>
      cases hsearch : secretText.search s with
      | true => exact .inl (by simpa [hsearch] using h.symm)
      | false => exact .inr ⟨by simpa [hsearch] using h.symm, hsafe.1, hsafe.2, s, hs, hsearch⟩
    · cases h
  · exact .inl (Except.ok.inj h).symm

theorem exists_addDetail {details : Dict Str Value} {x : Str × Value} :
    (∃ details', addDetail p details x = .ok details') ↔
    (x.1 ∈ safeDetailKeys → isScalar x.2 = true → fits p.nesting x.2 = true) := by
  unfold addDetail
  split_ifs with hsafe
  · rw [← @Printing.str_isSome p x.2]
    cases p.str x.2 <;> simp [hsafe]
  · simp only [Except.ok.injEq, exists_eq', true_iff]
    exact fun hkey hscalar => absurd ⟨hkey, hscalar⟩ hsafe

/-- What is kept of the details: scalars under safe names, with no secret in their texts. -/
def Safe (details : Dict Str Value) : Prop :=
  ∀ x ∈ details, x.1 ∈ safeDetailKeys ∧ isScalar x.2 = true ∧ ∀ s, x.2 = .str s →
    secretText.search s = false

theorem addDetail_safe {details details' : Dict Str Value} {x : Str × Value} (hsafe : Safe details)
    (h : addDetail p details x = .ok details') : Safe details' := by
  rcases addDetail_eq_ok h with rfl | ⟨rfl, hkey, hscalar, s, hs, hsearch⟩
  · exact hsafe
  · intro y hy
    rcases Dict.mem_set hy with rfl | hy
    · refine ⟨hkey, hscalar, fun t ht => ?_⟩
      rw [ht] at hs
      cases hs
      exact hsearch
    · exact hsafe y hy

theorem foldlM_addDetail_safe {fields : List (Str × Value)} {details details' : Dict Str Value}
    (hsafe : Safe details)
    (h : fields.foldlM (addDetail p) details = .ok details') : Safe details' := by
  induction fields generalizing details with
  | nil =>
    cases h
    exact hsafe
  | cons x fields ih =>
    rw [List.foldlM_cons] at h
    cases hx : addDetail p details x with
    | error e =>
      rw [hx] at h
      cases h
    | ok next =>
      rw [hx] at h
      exact ih (addDetail_safe hsafe hx) h

theorem exists_foldlM_addDetail {fields : List (Str × Value)} {details : Dict Str Value} :
    (∃ details', fields.foldlM (addDetail p) details = .ok details') ↔
      ∀ x ∈ fields, x.1 ∈ safeDetailKeys → isScalar x.2 = true → fits p.nesting x.2 = true := by
  induction fields generalizing details with
  | nil => exact ⟨fun _ x hx => absurd hx List.not_mem_nil, fun _ => ⟨details, rfl⟩⟩
  | cons x fields ih =>
    rw [List.foldlM_cons, List.forall_mem_cons, ← @exists_addDetail p details]
    cases hx : addDetail p details x with
    | error e =>
      constructor
      · rintro ⟨_, h⟩
        cases h
      · rintro ⟨⟨_, h⟩, -⟩
        cases h
    | ok next =>
      show (∃ details', fields.foldlM (addDetail p) next = .ok details') ↔ _
      rw [ih]
      simp

theorem safeDetails_safe {v : Option Value} {details : Dict Str Value}
    (h : safeDetails p v = .ok details) : Safe details := by
  unfold safeDetails at h
  split at h
  · exact foldlM_addDetail_safe (fun _ hx => absurd hx List.not_mem_nil) h
  · cases h
    exact fun _ hx => absurd hx List.not_mem_nil

theorem exists_safeDetails {v : Option Value} : (∃ details, safeDetails p v = .ok details) ↔
    DetailsTextual p v := by
  unfold safeDetails DetailsTextual
  split
  · exact exists_foldlM_addDetail
  · simp

/-! ## The result -/

/-- What a call makes of its parts. -/
def assembled (code category message : Str) (retryable : Bool) (correlationId : Str)
    (details : Dict Str Value) : List (Str × Value) :=
  [(Str.ofString "code", .str code), (Str.ofString "category", .str category),
    (Str.ofString "message", .str message),
    (Str.ofString "retryable", .bool retryable),
    (Str.ofString "correlationId", .str correlationId)] ++
    if details = [] then [] else [(Str.ofString "details", .obj details)]

section Assembled

variable {code category message correlationId : Str} {retryable : Bool} {details : Dict Str Value}

theorem get_message : Value.get (assembled code category message retryable correlationId details)
    (Str.ofString "message") =
      some (.str message) := by
  unfold assembled
  split_ifs <;> simp [Value.get, Str.ofString_inj]

theorem get_details : Value.get (assembled code category message retryable correlationId details)
    (Str.ofString "details") =
    if details = [] then none else some (.obj details) := by
  unfold assembled
  split_ifs <;> simp [Value.get, Str.ofString_inj]

theorem errorSchema_assembled (hcode : code ∈ errorCodes) (hcategory : category ∈ errorCategories)
    (hid : isUlid correlationId = true)
    (hdetails : Safe details) :
    errorSchema (.obj (assembled code category message retryable correlationId details)) = isMessage
        (.str message) := by
  have hscalars : (details.all fun x => isScalar x.2) = true :=
    List.all_eq_true.2 fun x hx => (hdetails x hx).2.1
  unfold assembled
  split_ifs <;> simp [errorSchema, properties, Value.get, Str.ofString_inj, isEnum, isBoolean,
    isCorrelationId, isDetails,
    hcode, hcategory, hid, hscalars]

end Assembled

theorem bind_eq_ok {α β : Type} {x : Except Raised α} {f : α → Except Raised β} {b : β} :
    (x >>= f) = .ok b ↔ ∃ a, x = .ok a ∧ f a = .ok b := by
  cases x with
  | error e =>
    constructor
    · rintro ⟨⟩
    · rintro ⟨_, ⟨⟩, -⟩
  | ok a =>
    constructor
    · exact fun h => ⟨a, rfl, h⟩
    · rintro ⟨_, ⟨⟩, h⟩
      exact h

/-- A known text, or the other one. -/
def known (texts : List Str) (s : Str) (other : String) : Str :=
  if s ∈ texts then s else Str.ofString other

/-- The message that is sent for a text. -/
def cleared (raw : Str) : Str := if secretText.search raw then refusalText else raw.take 512

theorem validateSchema_eq_ok {fields : List (Str × Value)} : validateSchema fields = .ok () ↔
    errorSchema (.obj fields) = true := by
  unfold validateSchema
  split_ifs with h <;> simp [h]

theorem sanitizeError_eq_ok {result : List (Str × Value)} :
    sanitizeError p value = .ok result ↔ ∃ code category raw correlationId details,
      text p value "code" "INTERNAL_ERROR" = .ok code ∧ text p value "category" "INTERNAL" =
        .ok category ∧
      text p value "message" "The request could not be completed." = .ok raw ∧
        text p value "correlationId" "" = .ok correlationId ∧
      safeDetails p (Value.get value (Str.ofString "details")) = .ok details ∧
      result = assembled (known errorCodes code "INTERNAL_ERROR")
        (known errorCategories category "INTERNAL") (cleared raw)
          ((Value.get value (Str.ofString "retryable")).getD (.bool false)).truthy
          correlationId details ∧
      errorSchema (.obj result) = true := by
  unfold sanitizeError
  simp only [bind_eq_ok]
  constructor
  · rintro ⟨code, hcode, category, hcategory, raw, hraw, id, hid, details, hdetails, _,
      hvalid, hresult⟩
    cases hresult
    exact ⟨code, category, raw, id, details, hcode, hcategory, hraw, hid, hdetails, rfl,
      validateSchema_eq_ok.1 hvalid⟩
  · rintro ⟨code, category, raw, id, details, hcode, hcategory, hraw, hid, hdetails, rfl, hvalid⟩
    exact ⟨code, hcode, category, hcategory, raw, hraw, id, hid, details, hdetails, (),
      validateSchema_eq_ok.2 hvalid, rfl⟩

theorem known_mem {texts : List Str} {other : String} (s : Str)
    (hother : Str.ofString other ∈ texts) : known texts s other ∈ texts := by
  unfold known
  split_ifs with hs
  · exact hs
  · exact hother

theorem cleared_clean (raw : Str) : secretText.search (cleared raw) = false := by
  unfold cleared
  split_ifs with hsearch
  · decide
  · exact Regex.search_infix (eq_false_of_ne_true hsearch) (List.take_prefix 512 raw).isInfix

theorem isMessage_cleared (raw : Str) : isMessage (.str (cleared raw)) = true ↔ raw ≠ [] := by
  unfold cleared isMessage
  split_ifs with hsearch
  · refine ⟨fun _ hraw => ?_, fun _ => by decide⟩
    rw [hraw] at hsearch
    exact absurd hsearch (by decide)
  · rw [decide_eq_true_eq, List.length_take, ← List.length_pos_iff]
    omega

theorem stringsFields_safe {details : Dict Str Value} (hsafe : Safe details) :
    ∀ s ∈ stringsFields details, secretText.search s = false := by
  have hkeys : ∀ k ∈ safeDetailKeys, secretText.search k = false := by decide
  induction details with
  | nil => exact fun s hs => absurd hs List.not_mem_nil
  | cons x details ih =>
    obtain ⟨hx, hrest⟩ := List.forall_mem_cons.1 hsafe
    intro s hs
    rw [stringsFields, List.cons_append, List.mem_cons, List.mem_append] at hs
    rcases hs with rfl | hs | hs
    · exact hkeys _ hx.1
    · have hscalar := hx.2.1
      cases hv : x.2 with
      | str t =>
        rw [hv, strings, List.mem_singleton] at hs
        exact hs ▸ hx.2.2 t hv
      | arr items => simp [hv, isScalar] at hscalar
      | obj fields => simp [hv, isScalar] at hscalar
      | _ => simp [hv, strings] at hs
    · exact ih hrest s hs

theorem assembled_sanitized {code category raw correlationId : Str} {retryable : Bool}
    {details : Dict Str Value} (hsafe : Safe details)
    (hvalid : errorSchema (.obj
    (assembled code category (cleared raw) retryable correlationId details)) = true) :
    Sanitized (assembled code category (cleared raw) retryable correlationId details) := by
  refine ⟨hvalid, fun key hkey v hv s hs => ?_⟩
  rcases List.mem_pair.1 hkey with rfl | rfl
  · rw [get_message] at hv
    cases hv
    rw [strings, List.mem_singleton] at hs
    exact hs ▸ cleared_clean raw
  · rw [get_details] at hv
    split_ifs at hv
    cases hv
    exact stringsFields_safe hsafe s hs

/-- For every mapping with a correlation id, the function gives a valid error without a secret if
and only if the message is not the empty string and there is nothing to write out that has no
text. -/
theorem sanitizes_iff {id : Str} (hget : Value.get value (Str.ofString "correlationId") =
    some (.str id)) (hid : isUlid id = true) :
    (∃ result, sanitizeError p value = .ok result ∧ Sanitized result) ↔ Printable p value := by
  have htext : text p value "correlationId" "" = .ok id := text_eq_ok.2 (by rw [hget]; rfl)
  constructor
  · rintro ⟨result, hresult, -⟩
    obtain ⟨code, category, raw, id', details, hcode, hcategory, hraw, hid', hdetails, rfl,
      hvalid⟩ := sanitizeError_eq_ok.1 hresult
    cases htext.symm.trans hid'
    rw [errorSchema_assembled (known_mem code (by decide)) (known_mem category (by decide)) hid
      (safeDetails_safe hdetails),
      isMessage_cleared] at hvalid
    refine ⟨fun hempty => hvalid ?_, ?_, exists_safeDetails.1 ⟨details, hdetails⟩⟩
    · have hnil := text_eq_ok.1 hraw
      rw [hempty] at hnil
      exact (Option.some.inj hnil).symm
    · intro key hkey
      simp only [List.mem_cons, List.not_mem_nil, or_false] at hkey
      rcases hkey with rfl | rfl | rfl
      · exact exists_text.1 ⟨code, hcode⟩
      · exact exists_text.1 ⟨category, hcategory⟩
      · exact exists_text.1 ⟨raw, hraw⟩
  · rintro ⟨hmessage, htexts, hdetails⟩
    obtain ⟨code, hcode⟩ :=
      (@exists_text p value "code" "INTERNAL_ERROR").2 (htexts "code" (by decide))
    obtain ⟨category, hcategory⟩ :=
      (@exists_text p value "category" "INTERNAL").2 (htexts "category" (by decide))
    obtain ⟨raw, hraw⟩ := (@exists_text p value "message" "The request could not be completed.").2
      (htexts "message" (by decide))
    obtain ⟨details, hdetails⟩ := (@exists_safeDetails p _).2 hdetails
    have hne : raw ≠ [] := by
      rintro rfl
      have hnil := Printing.str_eq_nil.1 (text_eq_ok.1 hraw)
      cases hmsg : Value.get value (Str.ofString "message") with
      | none =>
        rw [hmsg] at hnil
        cases hnil
      | some v =>
        rw [hmsg, Option.getD_some] at hnil
        exact hmessage (hnil ▸ hmsg)
    have hsafe := safeDetails_safe hdetails
    have hcode' : known errorCodes code "INTERNAL_ERROR" ∈ errorCodes := known_mem code (by decide)
    have hcategory' : known errorCategories category "INTERNAL" ∈ errorCategories :=
      known_mem category (by decide)
    have hvalid (retryable : Bool) :
      errorSchema (.obj (assembled (known errorCodes code "INTERNAL_ERROR")
        (known errorCategories category "INTERNAL") (cleared raw) retryable id details)) =
            true := by
      rw [errorSchema_assembled hcode' hcategory' hid hsafe]
      exact (isMessage_cleared raw).2 hne
    exact ⟨_, sanitizeError_eq_ok.2 ⟨code, category, raw, id, details, hcode, hcategory, hraw,
      htext, hdetails, rfl, hvalid _⟩,
      assembled_sanitized hsafe (hvalid _)⟩

/-- An interpreter that takes only ASCII for printable. -/
def asciiPrinting : Printing where
  float text := if text = [] then Str.ofString "0.0" else text
  float_ne text := by
    split_ifs with h
    · decide
    · exact h
  printable _ := false
  nesting := 100

def withMessage (message : Str) : List (Str × Value) :=
  [(Str.ofString "correlationId", .str (Str.ofString "01ARZ3NDEKTSV4RRFFQ69G5FAV")),
    (Str.ofString "message", .str message)]

theorem withMessage_printable {message : Str} (h : message ≠ []) :
    Printable asciiPrinting (withMessage message) := by
  refine ⟨?_, ?_, ?_⟩
  · simp [Value.get, withMessage, h]
  · intro key hkey
    simp only [List.mem_cons, List.not_mem_nil, or_false] at hkey
    rcases hkey with rfl | rfl | rfl <;>
      simp [Textual, Value.get, withMessage, Str.ofString_inj, fits]
  · simp [DetailsTextual, Value.get, withMessage, Str.ofString_inj]

theorem sanitizes_iff_bearer :
    ∃ result, sanitizeError asciiPrinting (withMessage (Str.ofString "Bearer abc")) = .ok result ∧
    Sanitized result :=
  (@sanitizes_iff asciiPrinting (withMessage (Str.ofString "Bearer abc"))
    (Str.ofString "01ARZ3NDEKTSV4RRFFQ69G5FAV") rfl (by decide)).2
    (withMessage_printable (by decide))

/-- An empty message stays empty, and the schema does not have it: the check raises. -/
theorem empty_message_raises : isUlid (Str.ofString "01ARZ3NDEKTSV4RRFFQ69G5FAV") = true ∧
    ¬ ∃ result, sanitizeError asciiPrinting (withMessage []) = .ok result ∧ Sanitized result := by
  have hraises : sanitizeError asciiPrinting (withMessage []) =
      .error (.contract (Str.ofString "UNSUPPORTED_PROTOCOL")
      (Str.ofString "Unsupported protocol version.")) := rfl
  refine ⟨by decide, ?_⟩
  rintro ⟨result, hresult, -⟩
  rw [hraises] at hresult
  cases hresult

end KiroCrew.Sanitizer
