import Wadi.Http.Framing

/-!
The heads that are accepted, as a grammar: a status line, and at least one field, each in one
line or in several. The names of the fields are read in lower case, and what the fields say
together is `Head.extend`. Nothing else is accepted, and nothing that has this form is refused
except for what single fields say.
-/

namespace Wadi.Http
open ByteText Draining Runs Receiving

/-- A field, the text it is read from, and what is left behind it. -/
inductive FieldText : Bytes → HeaderField → Bytes → Prop where
  | intro {name pad input content rest : Bytes} (some_char : name ≠ [])
      (token : ∀ c ∈ name, isTokenChar c = true)
      (white : ∀ c ∈ pad, isWhiteSpaceChar c = true)
      (first : ∀ c, input.head? = some c → isWhiteSpaceChar c = false)
      (folded : Folded input content (crlf ++ rest)) :
      FieldText (name ++ 0x3A :: (pad ++ input)) (toLower name, content) rest

inductive FieldTexts : Bytes → List HeaderField → Prop where
  | last {i : Bytes} {field : HeaderField} (one : FieldText i field []) : FieldTexts i [field]
  | more {i rest : Bytes} {field : HeaderField} {fields : List HeaderField}
      (one : FieldText i field rest) (left : rest ≠ []) (others : FieldTexts rest fields) :
      FieldTexts i (field :: fields)

section
variable {i rest : Bytes} {field : HeaderField}

theorem parseHeaderField_eq_ok :
    parseHeaderField i = .ok (field, rest) ↔ FieldText i field rest := by
  constructor
  · intro h
    obtain ⟨⟨name, i₁⟩, h₁, h⟩ := bind_eq_ok h
    obtain ⟨i₂, h₂, h⟩ := bind_eq_ok h
    cases content : parseFieldContent (skipWhiteSpaces i₂) with
    | mk value i₃ =>
        simp only [content] at h
        obtain ⟨i₄, h₄, h⟩ := bind_eq_ok h
        obtain ⟨i₅, h₅, h⟩ := bind_eq_ok h
        obtain ⟨rfl, rfl⟩ := Prod.mk.inj (Except.ok.inj h)
        obtain ⟨rfl, some_char, token⟩ := parseToken_eq_ok h₁
        obtain rfl := expect_eq_ok.mp h₂
        obtain rfl := expect_eq_ok.mp h₄
        obtain rfl := expect_eq_ok.mp h₅
        obtain ⟨whole, white, first⟩ := span_iff.mp
          ⟨(rfl : i₂.takeWhile isWhiteSpaceChar = _), (rfl : i₂.dropWhile isWhiteSpaceChar = _)⟩
        have read := FieldText.intro some_char token white first
          (parseFieldContent_eq_iff.mp content)
        rw [← whole] at read
        exact read
  · intro text
    cases text with
    | @intro name pad input content _ some_char token white first folded =>
        have word : parseToken (name ++ 0x3A :: (pad ++ input)) =
            .ok (name, 0x3A :: (pad ++ input)) := by
          obtain ⟨run, left⟩ := takeWhile_run (0x3A :: (pad ++ input)) token
            (by simp [not_isTokenChar_colon])
          rw [parseToken, run, left, if_neg some_char]
        have skipped : skipWhiteSpaces (pad ++ input) = input :=
          (takeWhile_run input white first).2
        have read := parseFieldContent_eq_iff.mpr folded
        rw [parseHeaderField, word]
        simp only [bind, Except.bind, expect_cons, skipped, read]
        simp [crlf, pure, Except.pure]

/-- Of the white space that continues a value only the first character is taken away. -/
example : parseHeaderField (ascii "A: b \r\n\t c\r\n") = .ok ((ascii "a", ascii "b  c"), []) := rfl

end

namespace Head
variable {h h' : Head} {i rest : Bytes} {field : HeaderField}

theorem parseFields_error {e : HttpError} (read : parseHeaderField i = .error e) :
    h.parseFields i = .error e := by
  rw [parseFields, drain_stop (fieldRound_error read)]

theorem parseFields_refused {e : HttpError} (read : parseHeaderField i = .ok (field, rest))
    (refused : h.acceptField field = .error e) : h.parseFields i = .error e := by
  rw [parseFields, drain_stop (fieldRound_refused read refused)]

theorem parseFields_last (read : parseHeaderField i = .ok (field, []))
    (accepted : h.acceptField field = .ok h') : h.parseFields i = .ok h' := by
  rw [parseFields, drain_stop ((fieldRound_accepted read accepted).trans (if_pos rfl))]

theorem parseFields_more (read : parseHeaderField i = .ok (field, rest)) (left : rest ≠ [])
    (accepted : h.acceptField field = .ok h') : h.parseFields i = h'.parseFields rest := by
  rw [parseFields, parseFields,
    drain_next fieldRound_shrinks ((fieldRound_accepted read accepted).trans (if_neg left))]

theorem parseFields_of_texts {fields : List HeaderField} (texts : FieldTexts i fields)
    (acceptable : ∀ field ∈ fields, Acceptable field) :
    h.parseFields i = .ok (h.extend fields) := by
  induction texts generalizing h with
  | last one =>
      have accepted := List.forall_mem_singleton.mp acceptable
      exact parseFields_last (parseHeaderField_eq_ok.mpr one)
        (acceptField_eq_ok.mpr ⟨accepted, rfl⟩)
  | more one left _ ih =>
      obtain ⟨accepted, others⟩ := List.forall_mem_cons.mp acceptable
      rw [parseFields_more (parseHeaderField_eq_ok.mpr one) left
        (acceptField_eq_ok.mpr ⟨accepted, rfl⟩), ih others, ← extend_cons]

theorem texts_of_parseFields (parsed : h.parseFields i = .ok h') :
    ∃ fields, FieldTexts i fields ∧ (∀ field ∈ fields, Acceptable field) ∧
      h' = h.extend fields := by
  induction hn : i.length using Nat.strongRecOn generalizing h i with
  | ind n ih =>
      cases read : parseHeaderField i with
      | error e =>
          rw [parseFields_error read] at parsed
          cases parsed
      | ok pair =>
          obtain ⟨field, rest⟩ := pair
          have one := parseHeaderField_eq_ok.mp read
          cases accepted : h.acceptField field with
          | error e =>
              rw [parseFields_refused read accepted] at parsed
              cases parsed
          | ok g =>
              obtain ⟨acceptable, rfl⟩ := acceptField_eq_ok.mp accepted
              by_cases left : rest = []
              · subst left
                rw [parseFields_last read accepted] at parsed
                exact ⟨[field], .last one, List.forall_mem_singleton.mpr acceptable,
                  (Except.ok.inj parsed).symm⟩
              · rw [parseFields_more read left accepted] at parsed
                have shorter := (parseHeaderField_spec read).2
                obtain ⟨fields, texts, others, rfl⟩ := ih rest.length (hn ▸ shorter) parsed rfl
                exact ⟨field :: fields, .more one left texts,
                  List.forall_mem_cons.mpr ⟨acceptable, others⟩, (extend_cons h field fields).symm⟩

end Head

/-- The heads that are accepted, and what is known from them. -/
theorem head_accepted_iff (version : Version) (code : UInt16) (text : Bytes) (h : Head) :
    (start version code).head.parse text = .ok h ↔
      ∃ st i fields, st.WellFormed ∧ text ++ crlf = st.line ++ i ∧ FieldTexts i fields ∧
        (∀ field ∈ fields, Head.Acceptable field) ∧
        h = ({ status := st } : Head).extend fields := by
  constructor
  · intro parsed
    obtain ⟨⟨st, i⟩, line, parsed⟩ := bind_eq_ok parsed
    obtain ⟨fits, whole⟩ := parseStatusLine_eq_ok.mp line
    obtain ⟨fields, texts, acceptable, same⟩ := Head.texts_of_parseFields parsed
    exact ⟨st, i, fields, fits, whole, texts, acceptable, same⟩
  · rintro ⟨st, i, fields, fits, whole, texts, acceptable, rfl⟩
    rw [Head.parse, parseStatusLine_eq_ok.mpr ⟨fits, whole⟩]
    exact Head.parseFields_of_texts texts acceptable

end Wadi.Http
