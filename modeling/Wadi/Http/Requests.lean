import Wadi.Http.HeaderFields

/-!
The request as a server reads it: a line with the method and the target, lines with fields up to
an empty one, and as many bytes of body as the one field for the length says. `readRequest` also
returns what is left of the stream, so that nothing of one request can pass for another.

Fields are checked before they are sent, the method and the target are not. The request is read
as it was meant exactly when these two have no space and no line end in them.
-/

namespace Wadi.Http
open ByteText Draining Numerals Runs SizeString

section Server

structure ReceivedRequest where
  method : Bytes
  target : Bytes
  headerFields : List HeaderField
  body : Bytes
  deriving DecidableEq, Repr

def require (holds : Bool) : Option Unit := if holds then some () else none

def trim (value : Bytes) : Bytes :=
  (value.dropWhile isWhiteSpaceChar).rdropWhile isWhiteSpaceChar

def readField (line : Bytes) : Option HeaderField :=
  (cut [0x3A] line).map (fun p => (toLower p.1, trim p.2))

def readFieldRound (fields : List HeaderField) (i : Bytes) :
    Round (List HeaderField) UInt8 (Option (List HeaderField × Bytes)) :=
  match cut crlf i with
  | none => .stop none
  | some (line, rest) =>
      if line = [] then .stop (some (fields, rest))
      else
        match readField line with
        | none => .stop none
        | some field => .next (fields ++ [field]) rest

def readFields (i : Bytes) : Option (List HeaderField × Bytes) :=
  match drain readFieldRound [] i with
  | .error result => result
  | .ok _ => none

def readLength (value : Bytes) : Option Nat :=
  if value ≠ [] ∧ value.all isDigitChar then some (digitsValue (toStr value)) else none

/-- A length that is given twice is refused, and so is a transfer coding. -/
def bodyLength (fields : List HeaderField) : Option Nat :=
  if fields.any (fun field => field.1 == ascii "transfer-encoding") then none
  else
    match fields.filter (fun field => field.1 == ascii "content-length") with
    | [] => some 0
    | [field] => readLength field.2
    | _ => none

/-- The first request of a stream, and the rest of the stream. -/
def readRequest (stream : Bytes) : Option (ReceivedRequest × Bytes) := do
  let (line, i) ← cut crlf stream
  let (method, behind) ← cut [0x20] line
  let (target, version) ← cut [0x20] behind
  require (version = ascii "HTTP/1.1")
  let (fields, i) ← readFields i
  let length ← bodyLength fields
  require (length ≤ i.length)
  return (⟨method, target, fields, i.take length⟩, i.drop length)

/-- The user and the password in the value of a field for the authorization. -/
def readCredentials (value : Bytes) : Option (Bytes × Bytes) := do
  require (ascii "Basic " <+: value)
  let userinfo ← decodeBase64 (value.drop 6)
  cut [0x3A] userinfo

end Server

section Fields
variable {field : HeaderField}

theorem cr_not_mem_line (valid : ValidField field) : 0x0D ∉ field.1 ++ ascii ": " ++ field.2 := by
  have name : 0x0D ∉ field.1 := fun mem => absurd (valid.token _ mem) (by decide)
  have value : 0x0D ∉ field.2 := fun mem => absurd (valid.value _ mem) (by decide)
  simp [name, value, show 0x0D ∉ ascii ": " by decide]

theorem readField_line (valid : ValidField field) :
    readField (field.1 ++ ascii ": " ++ field.2) = some (received field) := by
  have colon : 0x3A ∉ field.1 := fun mem => absurd (valid.token _ mem) (by decide)
  have line : field.1 ++ ascii ": " ++ field.2 = field.1 ++ 0x3A :: 0x20 :: field.2 := by
    rw [List.append_assoc]
    rfl
  rw [readField, line, cut_single colon, Option.map_some, trim,
    List.dropWhile_cons_of_pos (by decide)]
  rfl

theorem readFieldRound_line (valid : ValidField field) (fields : List HeaderField) (rest : Bytes) :
    readFieldRound fields (fieldLine field ++ rest) = .next (fields ++ [received field]) rest := by
  have found : cut crlf (fieldLine field ++ rest) =
      some (field.1 ++ ascii ": " ++ field.2, rest) := by
    rw [fieldLine, List.append_assoc, crlf, cut_of_not_mem (cr_not_mem_line valid), cut_pattern]
    simp
  have proper : field.1 ++ ascii ": " ++ field.2 ≠ [] := by simp [valid.name]
  simp only [readFieldRound, found, if_neg proper, readField_line valid]

theorem readFieldRound_end (fields : List HeaderField) (rest : Bytes) :
    readFieldRound fields (crlf ++ rest) = .stop (some (fields, rest)) := by
  simp only [readFieldRound, cut_pattern, if_true]

theorem readFieldRound_shrinks : Shrinks readFieldRound := by
  intro fields i t rest h
  rw [readFieldRound] at h
  split at h
  next => cases h
  next line after found =>
    split at h
    next => cases h
    next =>
      split at h
      next => cases h
      next =>
        cases h
        rw [eq_of_cut found, crlf]
        simp only [List.length_append, List.length_cons]
        omega

theorem readFields_lines {fields : List HeaderField} (valid : ∀ field ∈ fields, ValidField field)
    (rest : Bytes) :
    readFields (fields.flatMap fieldLine ++ (crlf ++ rest)) =
      some (fields.map received, rest) := by
  have rounds (before : List HeaderField) :
      drain readFieldRound before (fields.flatMap fieldLine ++ (crlf ++ rest)) =
        .error (some (before ++ fields.map received, rest)) := by
    induction fields generalizing before with
    | nil => simpa using drain_stop (readFieldRound_end before rest)
    | cons field fields ih =>
        have first := readFieldRound_line (valid field List.mem_cons_self) before
          (fields.flatMap fieldLine ++ (crlf ++ rest))
        have others : ∀ f ∈ fields, ValidField f := fun f hf =>
          valid f (List.mem_cons_of_mem field hf)
        rw [List.flatMap_cons, List.append_assoc, drain_next readFieldRound_shrinks first,
          ih others, List.map_cons, List.append_assoc]
        rfl
  rw [readFields, rounds []]
  rfl

end Fields

section Length

theorem range_of_mem_decimal {n : Nat} {d : Char} (mem : d ∈ decimal n) :
    48 ≤ d.toNat ∧ d.toNat ≤ 57 := by
  simpa [Char.isDigit, UInt32.le_iff_toNat_le] using isDigit_of_mem_decimal mem

theorem isDigitChar_of_mem_decimal {n : Nat} {c : UInt8} (h : c ∈ ofStr (decimal n)) :
    isDigitChar c = true := by
  obtain ⟨d, mem, rfl⟩ := List.mem_map.mp h
  have range := range_of_mem_decimal mem
  have code : (UInt8.ofNat d.toNat).toNat = d.toNat :=
    UInt8.toNat_ofNat_of_lt' (Nat.lt_of_le_of_lt range.2 (by decide))
  rw [isDigitChar_iff, code]
  exact range

theorem readLength_decimal (n : Nat) : readLength (ofStr (decimal n)) = some n := by
  have proper : ofStr (decimal n) ≠ [] := by
    rw [ofStr, ne_eq, List.map_eq_nil_iff]
    exact Nat.toDigits_ne_nil
  have digits : (ofStr (decimal n)).all isDigitChar = true :=
    List.all_eq_true.mpr fun c hc => isDigitChar_of_mem_decimal hc
  have small : ∀ c ∈ decimal n, c.toNat < 256 := fun c hc =>
    Nat.lt_of_le_of_lt (range_of_mem_decimal hc).2 (by decide)
  rw [readLength, if_pos ⟨proper, digits⟩, toStr_ofStr small, digitsValue_decimal]

theorem trim_eq {value : Bytes}
    (first : ∀ c, value.head? = some c → isWhiteSpaceChar c = false)
    (last : ∀ c, value.getLast? = some c → isWhiteSpaceChar c = false) : trim value = value := by
  have front : value.dropWhile isWhiteSpaceChar = value := by
    cases value with
    | nil => rfl
    | cons c value => exact List.dropWhile_cons_of_neg (by simp [first c rfl])
  rw [trim, front, List.rdropWhile_eq_self_iff]
  intro proper
  simp [last _ (List.getLast?_eq_some_getLast proper)]

theorem not_isWhiteSpaceChar_of_isDigitChar {c : UInt8} (h : isDigitChar c = true) :
    isWhiteSpaceChar c = false :=
  not_isWhiteSpaceChar_of_isTokenChar (by simp [isTokenChar, h])

theorem trim_decimal (n : Nat) : trim (ofStr (decimal n)) = ofStr (decimal n) := by
  have plain {c : UInt8} (hc : c ∈ ofStr (decimal n)) : isWhiteSpaceChar c = false :=
    not_isWhiteSpaceChar_of_isDigitChar (isDigitChar_of_mem_decimal hc)
  exact trim_eq (fun c hc => plain (List.mem_of_head? hc))
    (fun c hc => plain (List.mem_of_getLast? hc))

theorem bodyLength_requestFields (uri : Uri) (body : Bytes) {fields : List HeaderField}
    (own : ∀ field ∈ fields, toLower field.1 ≠ ascii "content-length" ∧
      toLower field.1 ≠ ascii "transfer-encoding") :
    bodyLength ((requestFields uri body fields).map received) = some body.length := by
  have noCoding : (fields.map received).any (fun field => field.1 == ascii "transfer-encoding") =
      false := by
    rw [List.any_eq_false]
    intro f mem
    obtain ⟨g, given, rfl⟩ := List.mem_map.mp mem
    simpa [received] using (own g given).2
  have noLength : (fields.map received).filter (fun field => field.1 == ascii "content-length") =
      [] := by
    rw [List.filter_eq_nil_iff]
    intro f mem
    obtain ⟨g, given, rfl⟩ := List.mem_map.mp mem
    simpa [received] using (own g given).1
  have readBack : readLength (trim (ofStr (decimal body.length))) = some body.length := by
    rw [trim_decimal, readLength_decimal]
  have added : (requestFields uri body fields).map received = fields.map received ++
      (requestFields uri body []).map received := by
    simp only [requestFields]
    split <;> simp
  have coding : ((requestFields uri body []).map received).any
      (fun field => field.1 == ascii "transfer-encoding") = false := by
    simp only [requestFields]
    split <;> rfl
  have length : ((requestFields uri body []).map received).filter
      (fun field => field.1 == ascii "content-length") =
        [(ascii "content-length", trim (ofStr (decimal body.length)))] := by
    simp only [requestFields]
    split <;> rfl
  rw [bodyLength, added, List.any_append, noCoding, coding, List.filter_append, noLength, length]
  exact readBack

theorem validField_length (n : Nat) :
    ValidField (ascii "Content-Length", ofStr (decimal n)) := by
  refine ⟨show ascii "Content-Length" ≠ [] by decide, List.all_eq_true.mp rfl, ?_⟩
  intro c mem
  have range := isDigitChar_iff.mp (isDigitChar_of_mem_decimal mem)
  apply isFieldChar_of_isVisibleChar
  simp only [isVisibleChar, UInt8.le_iff_toNat_le, Bool.and_eq_true, decide_eq_true_eq]
  change 33 ≤ c.toNat ∧ c.toNat ≤ 126
  omega

theorem validField_authorization (userinfo : Bytes) :
    ValidField (ascii "Authorization", ascii "Basic " ++ encodeBase64 userinfo) := by
  refine ⟨show ascii "Authorization" ≠ [] by decide, List.all_eq_true.mp rfl, ?_⟩
  refine List.forall_mem_append.mpr ⟨List.all_eq_true.mp rfl, ?_⟩
  intro c mem
  exact isFieldChar_of_isVisibleChar (isVisibleChar_of_mem_base64 userinfo c mem)

/-- Of the fields that are added, only the host can be one that cannot be sent. -/
theorem validFields_iff (uri : Uri) (body : Bytes) (fields : List HeaderField) :
    (∀ field ∈ requestFields uri body fields, ValidField field) ↔
      (∀ field ∈ fields, ValidField field) ∧ ∀ c ∈ uri.host, isFieldChar c = true := by
  have host : ValidField (ascii "Host", uri.host) ↔ ∀ c ∈ uri.host, isFieldChar c = true :=
    ⟨fun valid => valid.value,
      fun chars => ⟨show ascii "Host" ≠ [] by decide, List.all_eq_true.mp rfl, chars⟩⟩
  simp only [requestFields]
  split
  next =>
    simp only [List.forall_mem_append, List.forall_mem_cons, host, validField_length,
      validField_authorization]
    simp
  next =>
    simp only [List.forall_mem_append, List.forall_mem_cons, host, validField_length]
    simp

end Length

section RequestLine
variable {method target : Bytes}

theorem encodeRequestLine_eq (method target : Bytes) :
    encodeRequestLine method target =
      method ++ 0x20 :: (target ++ 0x20 :: ascii "HTTP/1.1") ++ crlf := by
  have space : ascii " " = [0x20] := rfl
  have version : ascii " HTTP/1.1\r\n" = 0x20 :: (ascii "HTTP/1.1" ++ crlf) := rfl
  simp [encodeRequestLine, space, version]

theorem crlf_requestLine_iff :
    crlf <:+: method ++ 0x20 :: (target ++ 0x20 :: ascii "HTTP/1.1") ↔
      crlf <:+: method ∨ crlf <:+: target := by
  have outside : 0x20 ∉ crlf := by decide
  have version : ¬ crlf <:+: ascii "HTTP/1.1" := by decide
  rw [infix_append_cons_iff outside crlf_ne_nil, infix_append_cons_iff outside crlf_ne_nil]
  simp only [version, or_false]

end RequestLine

section Sent
variable {uri : Uri} {method body text : Bytes} {fields : List HeaderField}

/-- With a first line that is one line of three words, the request is read as it was meant. -/
theorem readRequest_encodeHtml (encoded : encodeHtml uri method body fields = .ok text)
    (own : ∀ field ∈ fields, toLower field.1 ≠ ascii "content-length" ∧
      toLower field.1 ≠ ascii "transfer-encoding")
    (methodWord : 0x20 ∉ method ∧ ¬ crlf <:+: method)
    (targetWord : 0x20 ∉ requestTarget uri ∧ ¬ crlf <:+: requestTarget uri) (next : Bytes) :
    readRequest (text ++ next) = some (⟨method, requestTarget uri,
      (requestFields uri body fields).map received, body⟩, next) := by
  obtain ⟨-, valid, rfl⟩ := encodeHtml_eq_ok.mp encoded
  have line : ¬ crlf <:+: method ++ 0x20 :: (requestTarget uri ++ 0x20 :: ascii "HTTP/1.1") := by
    rw [crlf_requestLine_iff, not_or]
    exact ⟨methodWord.2, targetWord.2⟩
  have first := cut_crlf_line line
    ((requestFields uri body fields).flatMap fieldLine ++ (crlf ++ (body ++ next)))
  simp only [encodeRequestLine_eq, List.append_assoc] at first ⊢
  rw [readRequest, first]
  simp [cut_single methodWord.1, cut_single targetWord.1, readFields_lines valid,
    bodyLength_requestFields uri body own, require]

theorem colon_not_mem_user {s : Bytes} (parsed : parseUri s = .ok uri) : 0x3A ∉ uri.user := by
  obtain ⟨-, user, -⟩ := parseUri_eq_ok.mp parsed
  cases user with
  | absent none_ => simp [none_]
  | present _ colon => exact colon

theorem readCredentials_basic {user password : Bytes} (colon : 0x3A ∉ user) :
    readCredentials (trim (ascii "Basic " ++ encodeBase64 (user ++ 0x3A :: password))) =
      some (user, password) := by
  have some_char : encodeBase64 (user ++ 0x3A :: password) ≠ [] := by
    intro empty
    have decoded := decodeBase64_encodeBase64 (user ++ 0x3A :: password)
    rw [empty] at decoded
    exact absurd (Option.some.inj decoded) (by simp)
  have ends : trim (ascii "Basic " ++ encodeBase64 (user ++ 0x3A :: password)) =
      ascii "Basic " ++ encodeBase64 (user ++ 0x3A :: password) := by
    refine trim_eq ?_ ?_
    · intro c first
      obtain rfl : 0x42 = c := Option.some.inj first
      decide
    · intro c last
      rw [List.getLast?_append_of_ne_nil _ some_char] at last
      have visible := isVisibleChar_of_mem_base64 _ c (List.mem_of_getLast? last)
      rw [Bool.eq_false_iff]
      intro space
      simp only [isWhiteSpaceChar, Bool.or_eq_true, beq_iff_eq] at space
      obtain rfl | rfl := space
      all_goals exact absurd visible (by decide)
  rw [ends, readCredentials]
  have behind : (ascii "Basic " ++ encodeBase64 (user ++ 0x3A :: password)).drop 6 =
      encodeBase64 (user ++ 0x3A :: password) := rfl
  simp [behind, decodeBase64_encodeBase64, cut_single colon, require]

end Sent

def offerUri : Uri :=
  { scheme := ascii "http", user := ascii "a", host := ascii "h", path := ascii "/w" }

def offerFields : List HeaderField := [(ascii "Content-Type", ascii "application/sdp")]

/-- The user and the password of an address reach the server as they are in the address. -/
theorem credentials_readBack (s : Bytes) (uri : Uri) (method body : Bytes)
    (fields : List HeaderField) (text next : Bytes) (parsed : parseUri s = .ok uri)
    (given : uri.user ≠ [] ∨ uri.password ≠ [])
    (encoded : encodeHtml uri method body fields = .ok text)
    (own : ∀ field ∈ fields, toLower field.1 ≠ ascii "content-length" ∧
      toLower field.1 ≠ ascii "transfer-encoding")
    (methodWord : 0x20 ∉ method ∧ ¬ crlf <:+: method)
    (targetWord : 0x20 ∉ requestTarget uri ∧ ¬ crlf <:+: requestTarget uri) :
    ∃ r value, readRequest (text ++ next) = some (r, next) ∧
      (ascii "authorization", value) ∈ r.headerFields ∧
      readCredentials value = some (uri.user, uri.password) := by
  refine ⟨_, _, readRequest_encodeHtml encoded own methodWord targetWord next, ?_,
    readCredentials_basic (colon_not_mem_user parsed)⟩
  refine List.mem_map.mpr ⟨(ascii "Authorization",
    ascii "Basic " ++ encodeBase64 (uri.user ++ 0x3A :: uri.password)), ?_, rfl⟩
  simp only [requestFields, if_pos given]
  exact List.mem_append_right _ (List.mem_singleton.mpr rfl)

theorem credentials_readBack_offer :
    ∃ text r value, encodeHtml offerUri (ascii "POST") (ascii "v=0") offerFields = .ok text ∧
      readRequest (text ++ []) = some (r, []) ∧
      (ascii "authorization", value) ∈ r.headerFields ∧
      readCredentials value = some (ascii "a", []) := by
  obtain ⟨r, value, found⟩ := credentials_readBack (ascii "http://a@h/w") offerUri (ascii "POST")
    (ascii "v=0") offerFields _ [] rfl (Or.inl (by decide)) rfl
    (List.forall_mem_singleton.mpr ⟨by decide, by decide⟩) ⟨by decide, by decide⟩
    ⟨by decide, by decide⟩
  exact ⟨_, r, value, rfl, found⟩

end Wadi.Http
