import Wadi.Http.Encoding
import Wadi.Http.Receive

/-!
Header fields as they are read. A field that was written by `encodeHeaderFields` is read back
with its name in lower case and without the white space around its value, and no field can pass
for two. Whatever the parser returns could be sent again.
-/

namespace Wadi.Http
open ByteText Draining Runs

def received (field : HeaderField) : HeaderField :=
  (toLower field.1, (field.2.dropWhile isWhiteSpaceChar).rdropWhile isWhiteSpaceChar)

section Characters

theorem isTokenChar_of_isAlphaChar {c : UInt8} (h : isAlphaChar c = true) :
    isTokenChar c = true := by
  simp [isTokenChar, h]

theorem isTokenChar_toLowerChar {c : UInt8} (h : isTokenChar c = true) :
    isTokenChar (toLowerChar c) = true := by
  rw [toLowerChar]
  split
  next upper =>
    have range : 0x41 ≤ c.toNat ∧ c.toNat ≤ 0x5A := by
      simpa [UInt8.le_iff_toNat_le] using upper
    have lower : (c - (0x41 - 0x61)).toNat = c.toNat + 32 := by
      have shift : c - (0x41 - 0x61) = c + 32 := by
        rw [UInt8.sub_eq_add_neg]
        rfl
      rw [shift, UInt8.toNat_add]
      change (c.toNat + 32) % 256 = _
      omega
    have alpha : isAlphaChar (c - (0x41 - 0x61)) = true := by
      simp only [isAlphaChar, UInt8.le_iff_toNat_le, lower, Bool.or_eq_true, Bool.and_eq_true,
        decide_eq_true_eq]
      left
      change 97 ≤ c.toNat + 32 ∧ c.toNat + 32 ≤ 122
      omega
    exact isTokenChar_of_isAlphaChar alpha
  next => exact h

theorem isFieldChar_of_isVisibleChar {c : UInt8} (h : isVisibleChar c = true) :
    isFieldChar c = true := by
  simp [isFieldChar, h]

end Characters

section FieldContent
variable {i rest value input content : Bytes} {c : UInt8}

/-- The value of a field in one line or in several: the text, the value that is read from it,
and what is left. A line that starts with white space continues the value. -/
inductive Folded : Bytes → Bytes → Bytes → Prop where
  | last {value rest : Bytes} (chars : ∀ c ∈ value, isFieldChar c = true)
      (stops : ∀ c, rest.head? = some c → isFieldChar c = false)
      (ends : ∀ c tail, rest = crlf ++ c :: tail → isWhiteSpaceChar c = false) :
      Folded (value ++ rest) (value.rdropWhile isWhiteSpaceChar) rest
  | fold {value input content rest : Bytes} {c : UInt8}
      (chars : ∀ c ∈ value, isFieldChar c = true) (white : isWhiteSpaceChar c = true)
      (more : Folded input content rest) :
      Folded (value ++ (crlf ++ c :: input))
        (value.rdropWhile isWhiteSpaceChar ++ 0x20 :: content) rest

theorem parseFieldValue_run (chars : ∀ c ∈ value, isFieldChar c = true)
    (stops : ∀ c, rest.head? = some c → isFieldChar c = false) :
    parseFieldValue (value ++ rest) = (value.rdropWhile isWhiteSpaceChar, rest) := by
  obtain ⟨run, left⟩ := takeWhile_run rest chars stops
  rw [parseFieldValue, run, left]

theorem not_isFieldChar_crlf (rest : Bytes) :
    ∀ c, (crlf ++ rest).head? = some c → isFieldChar c = false := by
  simp [crlf, isFieldChar_cr]

theorem fieldContentRound_last (result : Bytes) (chars : ∀ c ∈ value, isFieldChar c = true)
    (stops : ∀ c, rest.head? = some c → isFieldChar c = false)
    (ends : ∀ c tail, rest = crlf ++ c :: tail → isWhiteSpaceChar c = false) :
    fieldContentRound result (value ++ rest) =
      .stop (result ++ value.rdropWhile isWhiteSpaceChar, rest) := by
  rw [fieldContentRound, parseFieldValue_run chars stops]
  simp only
  split
  next _ c tail =>
    have plain := ends c tail rfl
    simp [plain]
  next => rfl

theorem fieldContentRound_fold (result : Bytes) (chars : ∀ c ∈ value, isFieldChar c = true)
    (white : isWhiteSpaceChar c = true) (input : Bytes) :
    fieldContentRound result (value ++ (crlf ++ c :: input)) =
      .next (result ++ value.rdropWhile isWhiteSpaceChar ++ [0x20]) input := by
  rw [fieldContentRound, parseFieldValue_run chars (not_isFieldChar_crlf _)]
  simp [crlf, white]

/-- Every text is the value of a field in lines, and something behind it. -/
theorem folded_cases (i : Bytes) :
    (∃ value rest, i = value ++ rest ∧ (∀ c ∈ value, isFieldChar c = true) ∧
      (∀ c, rest.head? = some c → isFieldChar c = false) ∧
      ∀ c tail, rest = crlf ++ c :: tail → isWhiteSpaceChar c = false) ∨
    ∃ value c input, i = value ++ (crlf ++ c :: input) ∧
      (∀ c ∈ value, isFieldChar c = true) ∧ isWhiteSpaceChar c = true := by
  obtain ⟨whole, chars, stops⟩ := span_iff.mp
    ⟨(rfl : i.takeWhile isFieldChar = _), (rfl : i.dropWhile isFieldChar = _)⟩
  by_cases goesOn : ∃ c tail, i.dropWhile isFieldChar = crlf ++ c :: tail ∧
      isWhiteSpaceChar c = true
  · obtain ⟨c, tail, behind, white⟩ := goesOn
    exact Or.inr ⟨_, c, tail, behind ▸ whole, chars, white⟩
  · refine Or.inl ⟨_, _, whole, chars, stops, ?_⟩
    intro c tail behind
    rw [Bool.eq_false_iff]
    exact fun white => goesOn ⟨c, tail, behind, white⟩

theorem fieldContentRound_shrinks : Shrinks fieldContentRound := by
  intro result i t rest h
  obtain ⟨value, left, rfl, chars, stops, ends⟩ | ⟨value, c, input, rfl, chars, white⟩ :=
    folded_cases i
  · rw [fieldContentRound_last result chars stops ends] at h
    cases h
  · rw [fieldContentRound_fold result chars white] at h
    cases h
    simp only [List.length_append, List.length_cons]
    omega

theorem drain_folded (folded : Folded i content rest) (result : Bytes) :
    drain fieldContentRound result i = .error (result ++ content, rest) := by
  induction folded generalizing result with
  | last chars stops ends => exact drain_stop (fieldContentRound_last result chars stops ends)
  | fold chars white _ ih =>
      rw [drain_next fieldContentRound_shrinks (fieldContentRound_fold result chars white _), ih]
      simp

theorem exists_folded (i : Bytes) : ∃ content rest, Folded i content rest := by
  induction hn : i.length using Nat.strongRecOn generalizing i with
  | ind n ih =>
      obtain ⟨value, left, rfl, chars, stops, ends⟩ | ⟨value, c, input, rfl, chars, white⟩ :=
        folded_cases i
      · exact ⟨_, left, .last chars stops ends⟩
      · have shorter : input.length < n := by
          rw [← hn]
          simp only [List.length_append, List.length_cons]
          omega
        obtain ⟨content, rest, folded⟩ := ih input.length shorter input rfl
        exact ⟨_, rest, .fold chars white folded⟩

/-- The value that is read is the one the lines spell. -/
theorem parseFieldContent_eq_iff :
    parseFieldContent i = (content, rest) ↔ Folded i content rest := by
  have read {content rest : Bytes} (folded : Folded i content rest) :
      parseFieldContent i = (content, rest) := by
    rw [parseFieldContent, drain_folded folded []]
    rfl
  constructor
  · intro h
    obtain ⟨content', rest', folded⟩ := exists_folded i
    obtain ⟨rfl, rfl⟩ := Prod.mk.inj ((read folded).symm.trans h)
    exact folded
  · exact read

theorem parseFieldContent_line (chars : ∀ c ∈ value, isFieldChar c = true)
    (ends : ∀ c, rest.head? = some c → isWhiteSpaceChar c = false) :
    parseFieldContent (value ++ (crlf ++ rest)) =
      (value.rdropWhile isWhiteSpaceChar, crlf ++ rest) := by
  refine parseFieldContent_eq_iff.mpr (.last chars (not_isFieldChar_crlf rest) ?_)
  intro c tail behind
  exact ends c (by rw [List.append_cancel_left behind]; rfl)

/-- The content consists of field characters, and lies in front of what is left. -/
theorem Folded.spec (folded : Folded i content rest) :
    (∀ c ∈ content, isFieldChar c = true) ∧ rest <:+ i := by
  have trimmed {value : Bytes} (chars : ∀ c ∈ value, isFieldChar c = true) :
      ∀ c ∈ value.rdropWhile isWhiteSpaceChar, isFieldChar c = true :=
    fun c mem => chars c ((List.rdropWhile_prefix isWhiteSpaceChar _).subset mem)
  induction folded with
  | last chars stops ends => exact ⟨trimmed chars, List.suffix_append _ _⟩
  | @fold value input content rest c chars white _ ih =>
      constructor
      · exact List.forall_mem_append.mpr
          ⟨trimmed chars, List.forall_mem_cons.mpr ⟨by decide, ih.1⟩⟩
      · have behind : input <:+ value ++ (crlf ++ c :: input) :=
          ⟨value ++ (crlf ++ [c]), by simp⟩
        exact ih.2.trans behind

end FieldContent

section HeaderField
variable {i rest : Bytes} {field : HeaderField}

theorem not_isTokenChar_colon : isTokenChar 0x3A = false := by decide

theorem not_isWhiteSpaceChar_of_isTokenChar {c : UInt8} (h : isTokenChar c = true) :
    isWhiteSpaceChar c = false := by
  rw [Bool.eq_false_iff]
  intro space
  simp only [isWhiteSpaceChar, Bool.or_eq_true, beq_iff_eq] at space
  obtain rfl | rfl := space
  all_goals exact absurd h (by decide)

theorem skipWhiteSpaces_value (value rest : Bytes) :
    skipWhiteSpaces (0x20 :: (value ++ (crlf ++ rest))) =
      value.dropWhile isWhiteSpaceChar ++ (crlf ++ rest) := by
  rw [skipWhiteSpaces, List.dropWhile_cons_of_pos (by decide), List.dropWhile_append]
  split
  next empty =>
    rw [List.isEmpty_iff.mp empty, crlf]
    rfl
  next => rfl

theorem parseHeaderField_line (valid : ValidField field)
    (ends : ∀ c, rest.head? = some c → isWhiteSpaceChar c = false) :
    parseHeaderField (fieldLine field ++ rest) = .ok (received field, rest) := by
  have text : fieldLine field ++ rest =
      field.1 ++ 0x3A :: 0x20 :: (field.2 ++ (crlf ++ rest)) := by
    rw [fieldLine, List.append_assoc, List.append_assoc, List.append_assoc]
    rfl
  have token : parseToken (fieldLine field ++ rest) =
      .ok (field.1, 0x3A :: 0x20 :: (field.2 ++ (crlf ++ rest))) := by
    obtain ⟨run, left⟩ := takeWhile_run (0x3A :: 0x20 :: (field.2 ++ (crlf ++ rest)))
      valid.token (by simp [not_isTokenChar_colon])
    rw [text, parseToken, run, left, if_neg valid.name]
  have chars : ∀ c ∈ field.2.dropWhile isWhiteSpaceChar, isFieldChar c = true :=
    fun c mem => valid.value c ((List.dropWhile_suffix _).subset mem)
  have content := parseFieldContent_line chars ends
  rw [parseHeaderField, token]
  simp only [bind, Except.bind, expect_cons, skipWhiteSpaces_value, content]
  simp [crlf, pure, Except.pure, received]

theorem fieldLine_head (valid : ValidField field) (rest : Bytes) :
    ∃ c, (fieldLine field ++ rest).head? = some c ∧ isTokenChar c = true := by
  obtain ⟨name, value⟩ := field
  cases name with
  | nil => exact absurd rfl valid.name
  | cons c name => exact ⟨c, by simp [fieldLine], valid.token c List.mem_cons_self⟩

theorem parseToken_eq_ok {token : Bytes} (h : parseToken i = .ok (token, rest)) :
    i = token ++ rest ∧ token ≠ [] ∧ ∀ c ∈ token, isTokenChar c = true := by
  rw [parseToken] at h
  split at h
  next => cases h
  next proper =>
    obtain ⟨run, left⟩ := Prod.mk.inj (Except.ok.inj h)
    obtain ⟨whole, chars, -⟩ := span_iff.mp ⟨run, left⟩
    exact ⟨whole, run ▸ proper, chars⟩

/-- A field that was read could be sent, and something was taken from the input for it. -/
theorem parseHeaderField_spec (h : parseHeaderField i = .ok (field, rest)) :
    ValidField field ∧ rest.length < i.length := by
  obtain ⟨⟨token, i₁⟩, h₁, h⟩ := bind_eq_ok h
  obtain ⟨i₂, h₂, h⟩ := bind_eq_ok h
  cases content : parseFieldContent (skipWhiteSpaces i₂) with
  | mk value i₃ =>
      simp only [content] at h
      obtain ⟨i₄, h₄, h⟩ := bind_eq_ok h
      obtain ⟨i₅, h₅, h⟩ := bind_eq_ok h
      obtain ⟨rfl, rfl⟩ := Prod.mk.inj (Except.ok.inj h)
      obtain ⟨rfl, proper, chars⟩ := parseToken_eq_ok h₁
      obtain ⟨values, suffix⟩ := (parseFieldContent_eq_iff.mp content).spec
      refine ⟨⟨?_, ?_, values⟩, ?_⟩
      · simpa [toLower] using proper
      · intro c mem
        obtain ⟨d, inToken, rfl⟩ := List.mem_map.mp mem
        exact isTokenChar_toLowerChar (chars d inToken)
      · obtain rfl := expect_eq_ok.mp h₂
        obtain rfl := expect_eq_ok.mp h₄
        obtain rfl := expect_eq_ok.mp h₅
        have inside := (suffix.trans (List.dropWhile_suffix isWhiteSpaceChar)).length_le
        simp only [List.length_append, List.length_cons] at inside ⊢
        omega

end HeaderField

namespace Head
variable {h h' : Head} {i : Bytes}

theorem fieldRound_error {e : HttpError} (read : parseHeaderField i = .error e) :
    fieldRound h i = .stop (.error e) := by
  simp only [fieldRound, read]

theorem fieldRound_refused {field : HeaderField} {rest : Bytes} {e : HttpError}
    (read : parseHeaderField i = .ok (field, rest)) (refused : h.acceptField field = .error e) :
    fieldRound h i = .stop (.error e) := by
  simp only [fieldRound, read, refused]

theorem fieldRound_accepted {field : HeaderField} {rest : Bytes}
    (read : parseHeaderField i = .ok (field, rest)) (accepted : h.acceptField field = .ok h') :
    fieldRound h i = if rest = [] then .stop (.ok h') else .next h' rest := by
  simp only [fieldRound, read, accepted]

theorem fieldRound_shrinks : Shrinks fieldRound := by
  intro h i t rest round
  cases read : parseHeaderField i with
  | error e =>
      rw [fieldRound_error read] at round
      cases round
  | ok parsed =>
      obtain ⟨field, left⟩ := parsed
      cases accepted : h.acceptField field with
      | error e =>
          rw [fieldRound_refused read accepted] at round
          cases round
      | ok h' =>
          rw [fieldRound_accepted read accepted] at round
          split at round
          next => cases round
          next =>
            cases round
            exact (parseHeaderField_spec read).2

theorem parseFields_lines (h : Head) {fields : List HeaderField} (some_field : fields ≠ [])
    (valid : ∀ field ∈ fields, ValidField field) :
    h.parseFields (fields.flatMap fieldLine) = (fields.map received).foldlM acceptField h := by
  have rounds : drain fieldRound h (fields.flatMap fieldLine) =
      .error ((fields.map received).foldlM acceptField h) := by
    induction fields generalizing h with
    | nil => exact absurd rfl some_field
    | cons field fields ih =>
        have restValid : ∀ f ∈ fields, ValidField f := fun f hf =>
          valid f (List.mem_cons_of_mem field hf)
        have ends : ∀ c, (fields.flatMap fieldLine).head? = some c →
            isWhiteSpaceChar c = false := by
          intro c first
          cases fields with
          | nil => simp at first
          | cons next fields =>
              obtain ⟨d, head, token⟩ := fieldLine_head (restValid next List.mem_cons_self)
                (fields.flatMap fieldLine)
              rw [List.flatMap_cons, head] at first
              exact Option.some.inj first ▸ not_isWhiteSpaceChar_of_isTokenChar token
        have read := parseHeaderField_line (valid field List.mem_cons_self) ends
        rw [List.flatMap_cons, List.map_cons, List.foldlM_cons]
        cases accepted : h.acceptField (received field) with
        | error e => exact drain_stop (fieldRound_refused read accepted)
        | ok h' =>
            have round := fieldRound_accepted read accepted
            by_cases last : fields = []
            · subst last
              exact drain_stop (round.trans (if_pos rfl))
            · have more : fields.flatMap fieldLine ≠ [] := by
                obtain ⟨next, fields, rfl⟩ := List.exists_cons_of_ne_nil last
                obtain ⟨d, head, -⟩ := fieldLine_head (restValid next List.mem_cons_self)
                  (fields.flatMap fieldLine)
                intro empty
                rw [← List.flatMap_cons, empty] at head
                cases head
              rw [drain_next fieldRound_shrinks (round.trans (if_neg more))]
              exact ih h' last restValid
  rw [parseFields, rounds]

theorem parse_lines (h : Head) {st : Status} (fits : st.WellFormed) {fields : List HeaderField}
    (some_field : fields ≠ []) (valid : ∀ field ∈ fields, ValidField field) {text : Bytes}
    (lines : text ++ crlf = st.line ++ fields.flatMap fieldLine) :
    h.parse text = (fields.map received).foldlM acceptField { h with status := st } := by
  rw [parse, lines, parseStatusLine_eq_ok.mpr ⟨fits, rfl⟩]
  exact parseFields_lines _ some_field valid

theorem readFraming_fields {field : HeaderField} (read : h.readFraming field = .ok h') :
    h'.headerFields = h.headerFields ∧ h'.status = h.status := by
  rw [readFraming] at read
  split at read
  next =>
    split at read
    next =>
      cases read
      exact ⟨rfl, rfl⟩
    next => cases read
  next =>
    split at read
    next =>
      obtain ⟨length, -, read⟩ := bind_eq_ok read
      split at read
      next => cases read
      next =>
        cases read
        exact ⟨rfl, rfl⟩
    next =>
      cases read
      exact ⟨rfl, rfl⟩

theorem acceptField_fields {field : HeaderField} (accepted : h.acceptField field = .ok h') :
    h'.headerFields = h.headerFields ++ [field] ∧ h'.status = h.status := by
  obtain ⟨g, framing, same⟩ := bind_eq_ok accepted
  obtain rfl := Except.ok.inj same
  obtain ⟨fields, status⟩ := readFraming_fields framing
  exact ⟨congrArg (· ++ [field]) fields, status⟩

theorem foldlM_acceptField {fields : List HeaderField}
    (accepted : fields.foldlM acceptField h = .ok h') :
    h'.headerFields = h.headerFields ++ fields ∧ h'.status = h.status := by
  induction fields generalizing h with
  | nil =>
      obtain rfl := Except.ok.inj accepted
      simp
  | cons field fields ih =>
      rw [List.foldlM_cons] at accepted
      obtain ⟨g, first, rest⟩ := bind_eq_ok accepted
      obtain ⟨kept, status⟩ := acceptField_fields first
      obtain ⟨more, same⟩ := ih rest
      rw [more, kept, List.append_assoc]
      exact ⟨rfl, same.trans status⟩

/-- One inversion of a round: it fails, or it takes a field that could be sent. -/
theorem fieldRound_cases (h : Head) (i : Bytes) :
    (∃ e, fieldRound h i = .stop (.error e)) ∨
      ∃ h' field rest, ValidField field ∧
        (h'.headerFields = h.headerFields ++ [field] ∧ h'.status = h.status) ∧
        (fieldRound h i = .stop (.ok h') ∨ fieldRound h i = .next h' rest) := by
  cases read : parseHeaderField i with
  | error e => exact Or.inl ⟨e, fieldRound_error read⟩
  | ok parsed =>
      obtain ⟨field, rest⟩ := parsed
      cases accepted : h.acceptField field with
      | error e => exact Or.inl ⟨e, fieldRound_refused read accepted⟩
      | ok h' =>
          have round := fieldRound_accepted read accepted
          refine Or.inr ⟨h', field, rest, (parseHeaderField_spec read).1,
            acceptField_fields accepted, ?_⟩
          by_cases last : rest = []
          · exact Or.inl (round.trans (if_pos last))
          · exact Or.inr (round.trans (if_neg last))

structure Proper (h : Head) : Prop where
  status : h.status.WellFormed
  some_field : h.headerFields ≠ []
  valid : ∀ field ∈ h.headerFields, ValidField field

/-- A head that was read has at least one field, and all its fields could be sent. -/
theorem proper_of_parse {text : Bytes} (empty : h.headerFields = [])
    (parsed : h.parse text = .ok h') : h'.Proper := by
  obtain ⟨⟨status, i⟩, line, fields⟩ := bind_eq_ok parsed
  obtain ⟨fits, -⟩ := parseStatusLine_eq_ok.mp line
  have appended {g g' : Head} {field : HeaderField}
      (start : g.status = status ∧ ∀ f ∈ g.headerFields, ValidField f)
      (valid : ValidField field)
      (kept : g'.headerFields = g.headerFields ++ [field] ∧ g'.status = g.status) :
      g'.status = status ∧ ∀ f ∈ g'.headerFields, ValidField f := by
    rw [kept.1]
    exact ⟨kept.2.trans start.1,
      List.forall_mem_append.mpr ⟨start.2, List.forall_mem_singleton.mpr valid⟩⟩
  have keeps (g : Head) (j : Bytes)
      (start : g.status = status ∧ ∀ f ∈ g.headerFields, ValidField f) :
      (fieldRound g j).Leaves
        (fun g _ => g.status = status ∧ ∀ f ∈ g.headerFields, ValidField f)
        (fun _ _ => False) (fun r => ∀ g, r = .ok g → g.Proper) := by
    obtain ⟨e, fails⟩ | ⟨g', field, rest, valid, kept, stop | next⟩ := fieldRound_cases g j
    · rw [fails]
      intro g' result
      cases result
    · rw [stop]
      intro g'' result
      cases result
      obtain ⟨same, all⟩ := appended start valid kept
      exact ⟨same ▸ fits, by simp [kept.1], all⟩
    · rw [next]
      exact appended start valid kept
  obtain ⟨r, drained, spec⟩ := drain_stops fieldRound_shrinks keeps { h with status := status } i
    ⟨rfl, by simp [empty]⟩
  apply spec h'
  simpa only [parseFields, drained] using fields

end Head

end Wadi.Http
