import Wadi.Http.Base64
import Wadi.Http.Uri

/-!
The request as it is sent. `encodeHtml` adds the fields for the host, the length and, when the
address has user information, the credentials. Names and values of header fields are checked
before they are written; the method and the target are written as they are.
-/

namespace Wadi.Http
open ByteText Numerals Runs

def encodeRequestLine (method target : Bytes) : Bytes :=
  method ++ ascii " " ++ target ++ ascii " HTTP/1.1\r\n"

def fieldLine (field : HeaderField) : Bytes := field.1 ++ ascii ": " ++ field.2 ++ crlf

def encodeHeaderField (field : HeaderField) : Except HttpError Bytes :=
  if field.1 = [] then .error (.request .invalidFieldName)
  else if !field.1.all isTokenChar then .error (.request .invalidFieldName)
  else if !field.2.all isFieldChar then .error (.request .invalidFieldValue)
  else .ok (fieldLine field)

def encodeHeaderFields (fields : List HeaderField) : Except HttpError Bytes :=
  fields.foldlM (fun result field => do return result ++ (← encodeHeaderField field)) []

def requestTarget (uri : Uri) : Bytes :=
  uri.path ++ if uri.query = [] then [] else 0x3F :: uri.query

/-- The fields of a request: those of the caller and those that are always added. -/
def requestFields (uri : Uri) (body : Bytes) (fields : List HeaderField) : List HeaderField :=
  let fields := fields ++ [(ascii "Host", uri.host),
    (ascii "Content-Length", ofStr (decimal body.length))]
  if uri.user ≠ [] ∨ uri.password ≠ [] then
    fields ++ [(ascii "Authorization",
      ascii "Basic " ++ encodeBase64 (uri.user ++ 0x3A :: uri.password))]
  else fields

def encodeHtml (uri : Uri) (method body : Bytes) (fields : List HeaderField) :
    Except HttpError Bytes := do
  if uri.scheme ≠ ascii "http" then .error (.request .onlyHttp)
  let headerFields ← encodeHeaderFields (requestFields uri body fields)
  return encodeRequestLine method (requestTarget uri) ++ headerFields ++ crlf ++ body

/-- A field that can be sent. -/
structure ValidField (field : HeaderField) : Prop where
  name : field.1 ≠ []
  token : ∀ c ∈ field.1, isTokenChar c = true
  value : ∀ c ∈ field.2, isFieldChar c = true

theorem encodeHeaderField_eq_ok {field : HeaderField} {line : Bytes} :
    encodeHeaderField field = .ok line ↔ ValidField field ∧ line = fieldLine field := by
  rw [encodeHeaderField]
  constructor
  · intro h
    split at h
    next => cases h
    next name =>
      split at h
      next => cases h
      next token =>
        split at h
        next => cases h
        next value =>
          refine ⟨⟨name, ?_, ?_⟩, (Except.ok.inj h).symm⟩
          · simpa using token
          · simpa using value
  · rintro ⟨valid, rfl⟩
    have token : field.1.all isTokenChar = true := by simpa using valid.token
    have value : field.2.all isFieldChar = true := by simpa using valid.value
    rw [if_neg valid.name, token, value]
    rfl

/-- The fields are written one behind the other, if all of them can be sent. -/
theorem encodeHeaderFields_eq_ok {fields : List HeaderField} {text : Bytes} :
    encodeHeaderFields fields = .ok text ↔
      (∀ field ∈ fields, ValidField field) ∧ text = fields.flatMap fieldLine := by
  have general (result : Bytes) : fields.foldlM
      (fun result field => do return result ++ (← encodeHeaderField field)) result = .ok text ↔
      (∀ field ∈ fields, ValidField field) ∧ text = result ++ fields.flatMap fieldLine := by
    induction fields generalizing result with
    | nil =>
        constructor
        · intro h
          exact ⟨by simp, by simpa using (Except.ok.inj h).symm⟩
        · rintro ⟨-, rfl⟩
          simp
          rfl
    | cons field fields ih =>
        rw [List.foldlM_cons]
        constructor
        · intro h
          obtain ⟨result', first, rest⟩ := bind_eq_ok h
          obtain ⟨line, encoded, same⟩ := bind_eq_ok first
          obtain rfl := Except.ok.inj same
          obtain ⟨valid, rfl⟩ := encodeHeaderField_eq_ok.mp encoded
          obtain ⟨all, rfl⟩ := (ih _).mp rest
          exact ⟨List.forall_mem_cons.mpr ⟨valid, all⟩, by simp⟩
        · rintro ⟨all, rfl⟩
          have first := encodeHeaderField_eq_ok.mpr ⟨all field List.mem_cons_self, rfl⟩
          have rest := (ih (result ++ fieldLine field)).mpr
            ⟨fun f hf => all f (List.mem_cons_of_mem field hf), by simp⟩
          rw [first]
          exact rest
  rw [encodeHeaderFields, general [], List.nil_append]

theorem encodeHtml_eq_ok {uri : Uri} {method body text : Bytes} {fields : List HeaderField} :
    encodeHtml uri method body fields = .ok text ↔
      uri.scheme = ascii "http" ∧ (∀ field ∈ requestFields uri body fields, ValidField field) ∧
        text = encodeRequestLine method (requestTarget uri) ++
          (requestFields uri body fields).flatMap fieldLine ++ crlf ++ body := by
  rw [encodeHtml]
  by_cases scheme : uri.scheme = ascii "http"
  · rw [if_neg (not_not.mpr scheme)]
    constructor
    · intro h
      obtain ⟨headerFields, encoded, h⟩ := bind_eq_ok h
      obtain rfl := Except.ok.inj h
      obtain ⟨valid, rfl⟩ := encodeHeaderFields_eq_ok.mp encoded
      exact ⟨scheme, valid, rfl⟩
    · rintro ⟨-, valid, rfl⟩
      rw [encodeHeaderFields_eq_ok.mpr ⟨valid, rfl⟩]
      rfl
  · rw [if_pos scheme]
    constructor
    · intro h
      cases h
    · rintro ⟨same, -⟩
      exact absurd same scheme

end Wadi.Http
