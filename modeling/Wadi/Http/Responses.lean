import Wadi.Http.HeaderFields
import Wadi.Http.Segmentation

/-!
What the loop returns, whatever events it sees. Once the head has been read the response keeps
its status and its fields, and its body only grows; the end of the connection is taken for the
end of the body, so that a response that breaks off is returned as if it were complete. Without
a complete head in the first piece the response is blank.

A response that is written with its length, or in chunks, is returned as it was written.
-/

namespace Wadi.Http
open ByteText Draining Runs
namespace Receiving

theorem chunkSizeRound_grows {before : Bytes} {c : ChunkedBody} (kept : before <+: c.body)
    (b : Bytes) :
    (chunkSizeRound c b).Leaves (fun t _ => before <+: t.body) (fun t _ => before <+: t.body)
      (fun r => ∀ t, r = .ok t → before <+: t.body) := by
  cases found : cut crlf b with
  | none =>
      rw [chunkSizeRound_none found]
      exact kept
  | some parts =>
      obtain ⟨line, rest⟩ := parts
      rw [chunkSizeRound_some found]
      cases size : hexStringToUint line with
      | error e =>
          rw [openChunk_error size]
          intro t failed
          cases failed
      | ok n =>
          by_cases last : n = 0
          · rw [openChunk_zero (last ▸ size)]
            intro t ended
            obtain rfl := Except.ok.inj ended
            exact kept
          · rw [openChunk_size size last]
            exact kept

theorem chunkRound_grows {before : Bytes} (c : ChunkedBody) (b : Bytes)
    (kept : before <+: c.body) :
    (chunkRound c b).Leaves (fun t _ => before <+: t.body) (fun t _ => before <+: t.body)
      (fun r => ∀ t, r = .ok t → before <+: t.body) := by
  obtain open_ | ⟨closed, ended⟩ | ⟨closed, plain⟩ := chunk_situation c
  · by_cases long : c.expectedChunkSize < b.length
    · rw [chunkRound_long open_ long]
      exact kept.trans (List.prefix_append _ _)
    · rw [chunkRound_short open_ (Nat.not_lt.mp long)]
      exact kept.trans (List.prefix_append _ _)
  · rw [chunkRound_end closed ended]
    split
    next => exact kept
    next =>
      split
      next => exact chunkSizeRound_grows (c := { c with removeCrlfAfterChunk := false }) kept _
      next =>
        intro t failed
        cases failed
  · rw [chunkRound_size closed plain]
    exact chunkSizeRound_grows kept b

/-- A loop that has read the head, or its end: the head is kept, and the body has grown. -/
def Extends (h : Head) (body : Bytes) : Except Ending Receiving → Prop
  | .ok s => ∃ c data, s = inBody h c data ∧ body <+: c.body
  | .error (.returned r) => ∃ more, r = h.response more ∧ body <+: more
  | .error (.thrown _) => True

theorem readBody_extends (h : Head) (c : ChunkedBody) (data : Bytes) :
    Extends h c.body (inBody h c data).readBody := by
  cases chunked : h.chunkedResponse with
  | true =>
      rw [readBody_chunked chunked]
      obtain ⟨r, drained, grown⟩ | ⟨t, rest, drained, grown⟩ :=
        drain_leaves chunkRound_shrinks chunkRound_grows c data (List.prefix_rfl (l := c.body))
      · rw [drained]
        cases r with
        | error e => trivial
        | ok t => exact ⟨t.body, rfl, grown t rfl⟩
      · rw [drained]
        exact ⟨t, rest, rfl, grown⟩
  | false =>
      rw [readBody, if_neg (by simp [chunked])]
      have grown : c.body <+: c.body ++ data := List.prefix_append _ _
      simp only
      split
      next => exact ⟨c.body ++ data, rfl, grown⟩
      next => exact ⟨_, [], rfl, grown⟩

theorem step_extends (h : Head) (c : ChunkedBody) (data : Bytes) (event : RecvEvent) :
    Extends h c.body (step (inBody h c data) event) := by
  cases event with
  | data segment => exact readBody_extends h c (data ++ segment.bytes)
  | closed => exact ⟨c.body, rfl, List.prefix_rfl⟩
  | timedOut => trivial
  | selectFailed errno => trivial
  | readFailed errno => trivial

theorem Extends.events {h : Head} {body : Bytes} {outcome : Except Ending Receiving}
    (start : Extends h body outcome) (events : List RecvEvent) :
    Extends h body (outcome >>= fun s => run step s events) := by
  induction events generalizing outcome with
  | nil => cases outcome <;> exact start
  | cons event events ih =>
      cases outcome with
      | error ending => exact start
      | ok s =>
          obtain ⟨c, data, rfl, grown⟩ := start
          have next : Extends h body (step (inBody h c data) event) := by
            have one := step_extends h c data event
            cases taken : step (inBody h c data) event with
            | ok t =>
                rw [taken] at one
                obtain ⟨c', data', rfl, more⟩ := one
                exact ⟨c', data', rfl, grown.trans more⟩
            | error ending =>
                rw [taken] at one
                cases ending with
                | thrown e => trivial
                | returned r =>
                    obtain ⟨all, rfl, more⟩ := one
                    exact ⟨all, rfl, grown.trans more⟩
          change Extends h body (run step (inBody h c data) (event :: events))
          rw [run_cons]
          exact ih next

variable {version : Version} {code : UInt16} {first : Segment}

theorem receive_parsed {text rest : Bytes} {h : Head}
    (found : cut emptyLine first.bytes = some (text, rest))
    (parsed : (start version code).head.parse text = .ok h) (events : List RecvEvent) :
    receive version code (.data first :: events) =
      (inBody h {} rest).readBody >>= fun s => run step s events := by
  rw [receive_first, readWhole_found found, parsed]
  rfl

/-- Without the end of the head in the first piece, the loop is left before anything is read. -/
theorem receive_unfinished (missing : ¬ emptyLine <:+: first.bytes) (events : List RecvEvent) :
    receive version code (.data first :: events) =
      .error (.returned (start version code).response) := by
  have none_ : cut emptyLine first.bytes = none :=
    (cut_eq_none_iff emptyLine_ne_nil _).mpr missing
  have left : readWhole version code first.bytes =
      .error (.returned (start version code).response) := by
    simp only [readWhole, readHead, none_]
    rfl
  rw [receive_first, left]
  rfl

theorem receive_malformed {text rest : Bytes} {e : HttpError}
    (found : cut emptyLine first.bytes = some (text, rest))
    (failed : (start version code).head.parse text = .error e) (events : List RecvEvent) :
    receive version code (.data first :: events) = .error (.thrown e) := by
  rw [receive_first, readWhole_found found, failed]
  rfl

/-- A response is returned blank, or its head has been read from the first piece. -/
theorem receive_returned {events : List RecvEvent} {r : Response}
    (h : receive version code events = .error (.returned r)) :
    (r = (start version code).response ∧ ((∃ rest, events = .closed :: rest) ∨
      ∃ segment rest, events = .data segment :: rest ∧ ¬ emptyLine <:+: segment.bytes)) ∨
    ∃ (head : Head) (body : Bytes), head.Proper ∧ r = head.response body := by
  cases events with
  | nil => cases h
  | cons event events =>
      rw [receive, run_cons] at h
      cases event with
      | timedOut => cases h
      | selectFailed errno => cases h
      | readFailed errno => cases h
      | closed =>
          cases h
          exact Or.inl ⟨rfl, Or.inl ⟨events, rfl⟩⟩
      | data segment =>
          rw [← run_cons, ← receive] at h
          cases found : cut emptyLine segment.bytes with
          | none =>
              have missing := (cut_eq_none_iff emptyLine_ne_nil _).mp found
              rw [receive_unfinished missing] at h
              cases h
              exact Or.inl ⟨rfl, Or.inr ⟨segment, events, rfl, missing⟩⟩
          | some parts =>
              obtain ⟨text, rest⟩ := parts
              cases parsed : (start version code).head.parse text with
              | error e =>
                  rw [receive_malformed found parsed] at h
                  cases h
              | ok head =>
                  have extends_ := (readBody_extends head {} rest).events events
                  rw [← receive_parsed found parsed, h] at extends_
                  obtain ⟨body, rfl, -⟩ := extends_
                  exact Or.inr ⟨head, body, Head.proper_of_parse rfl parsed, rfl⟩

end Receiving

open Receiving

/-- A blank response, with version and code as they were in memory, is returned exactly when
the connection ends before anything has arrived or when the first piece ends before the head
does. -/
theorem returned_blank_iff (version : Version) (code : UInt16) (events : List RecvEvent) :
    receive version code events = .error (.returned (start version code).response) ↔
      (∃ rest, events = .closed :: rest) ∨
        ∃ segment rest, events = .data segment :: rest ∧ ¬ emptyLine <:+: segment.bytes := by
  constructor
  · intro h
    obtain ⟨-, early⟩ | ⟨head, body, proper, same⟩ := receive_returned h
    · exact early
    · have none_ : [] = head.headerFields := congrArg Response.headerFields same
      exact absurd none_.symm proper.some_field
  · rintro (⟨rest, rfl⟩ | ⟨segment, rest, rfl, missing⟩)
    · rfl
    · exact receive_unfinished missing rest

/-- Every response but the blank one has a status that fits into a status line, and at least one
header field; and all its fields could be sent with a request. -/
theorem returned_fields_sendable (version : Version) (code : UInt16) (events : List RecvEvent)
    (r : Response) (h : receive version code events = .error (.returned r)) :
    r = (start version code).response ∨
      r.status.WellFormed ∧ r.headerFields ≠ [] ∧
        encodeHeaderFields r.headerFields = .ok (r.headerFields.flatMap fieldLine) := by
  obtain ⟨blank, -⟩ | ⟨head, body, proper, rfl⟩ := receive_returned h
  · exact Or.inl blank
  · exact Or.inr ⟨proper.status, proper.some_field,
      encodeHeaderFields_eq_ok.mpr ⟨proper.valid, rfl⟩⟩

theorem returned_fields_sendable_created :
    ∃ r, receive ⟨0, 0⟩ 0 [.data createdHead, .closed] = .error (.returned r) ∧
      (r = (start ⟨0, 0⟩ 0).response ∨ r.status.WellFormed ∧ r.headerFields ≠ [] ∧
        encodeHeaderFields r.headerFields = .ok (r.headerFields.flatMap fieldLine)) :=
  ⟨_, rfl, returned_fields_sendable ⟨0, 0⟩ 0 [.data createdHead, .closed] _ rfl⟩

/-- With the chunked transfer coding a response is returned exactly when what follows the head
starts with chunks up to the last, however it is cut; the body is the data of the chunks. -/
theorem chunked_returned_iff (version : Version) (code : UInt16) (first : Segment)
    (more : List Segment) (text rest : Bytes) (h : Head) (r : Response)
    (found : cut emptyLine first.bytes = some (text, rest))
    (parsed : (start version code).head.parse text = .ok h)
    (chunked : h.chunkedResponse = true) :
    receive version code (arrivals (first :: more)) = .error (.returned r) ↔
      ∃ body trailing, ChunkedStream (rest ++ streamOf more) body trailing ∧
        r = h.response body := by
  change receive version code (.data first :: arrivals more) = _ ↔ _
  rw [receive_parsed found parsed, pieces_chunked chunked, readBody_chunked chunked]
  constructor
  · intro returned
    cases drained : drain chunkRound {} (rest ++ streamOf more) with
    | ok p =>
        rw [drained] at returned
        cases returned
    | error result =>
        rw [drained] at returned
        cases result with
        | error e => cases returned
        | ok done =>
            cases returned
            obtain ⟨body, trailing, chunks, rfl⟩ := chunks_of_drain drained
            exact ⟨body, trailing, chunks, rfl⟩
  · rintro ⟨body, trailing, chunks, rfl⟩
    rw [drain_of_chunks chunks []]
    rfl

def chunkedHead : Segment :=
  ⟨ascii "HTTP/1.1 201 Created\r\nTransfer-Encoding: chunked\r\n\r\n3\r\nv", by decide,
    by decide⟩

def chunkedRest : Segment := ⟨ascii "=0\r\n0\r\n\r\n", by decide, by decide⟩

theorem chunked_returned_iff_created :
    receive ⟨0, 0⟩ 0 (arrivals [chunkedHead, chunkedRest]) =
        .error (.returned ⟨createdStatus, [(ascii "transfer-encoding", ascii "chunked")],
          ascii "v=0"⟩) ↔
      ∃ body trailing, ChunkedStream (ascii "3\r\nv=0\r\n0\r\n\r\n") body trailing ∧
        (⟨createdStatus, [(ascii "transfer-encoding", ascii "chunked")], ascii "v=0"⟩ : Response) =
          ⟨createdStatus, [(ascii "transfer-encoding", ascii "chunked")], body⟩ :=
  chunked_returned_iff ⟨0, 0⟩ 0 chunkedHead [chunkedRest]
    (ascii "HTTP/1.1 201 Created\r\nTransfer-Encoding: chunked") (ascii "3\r\nv")
    { status := createdStatus
      headerFields := [(ascii "transfer-encoding", ascii "chunked")]
      chunkedResponse := true } _ rfl rfl rfl

def headText (st : Status) (fields : List HeaderField) : Bytes :=
  st.line ++ fields.flatMap fieldLine ++ crlf

/-- How a body is written behind a head: in chunks, with anything behind the last, or with its
length. -/
inductive Framed (h : Head) (stream body : Bytes) : Prop where
  | chunks (coding : h.chunkedResponse = true) (trailing : Bytes)
      (chunks : ChunkedStream stream body trailing)
  | length (plain : h.chunkedResponse = false) (received : h.contentLengthReceived = true)
      (whole : stream = body) (length : body.length = h.contentLength)

section Lines
variable {st : Status} {fields : List HeaderField}

theorem lf_not_mem {p : UInt8 → Bool} (without : p 0x0A = false) {text : Bytes}
    (chars : ∀ c ∈ text, p c = true) : 0x0A ∉ text := by
  intro mem
  rw [chars 0x0A mem] at without
  cases without

theorem Status.WellFormed.oneLine (fits : st.WellFormed) :
    ∃ line, st.line = line ++ crlf ∧ 0x0A ∉ line ∧ line ≠ [] := by
  have digit {n : Nat} (small : n < 10) : 0x0A ≠ digitByte n := by
    intro same
    have code := toNat_digitByte small
    rw [← same] at code
    change 10 = 48 + n at code
    omega
  have code : 0x0A ∉ codeDigits st.code :=
    lf_not_mem (by decide) (isDigitChar_of_mem_codeDigits fits.code)
  have reason : 0x0A ∉ st.reason := lf_not_mem (by decide) fits.reason
  have major := digit (n := st.version.major.toNat) (UInt16.lt_iff_toNat_lt.mp fits.major)
  have minor := digit (n := st.version.minor.toNat) (UInt16.lt_iff_toNat_lt.mp fits.minor)
  refine ⟨ascii "HTTP/" ++ digitByte st.version.major.toNat :: 0x2E ::
    digitByte st.version.minor.toNat :: 0x20 :: (codeDigits st.code ++ 0x20 :: st.reason),
    by simp [Status.line], ?_, by simp⟩
  simp [major, minor, code, reason, show 0x0A ∉ ascii "HTTP/" by decide]

theorem ValidField.oneLine {field : HeaderField} (valid : ValidField field) :
    0x0A ∉ field.1 ++ ascii ": " ++ field.2 ∧ field.1 ++ ascii ": " ++ field.2 ≠ [] := by
  have name : 0x0A ∉ field.1 := lf_not_mem (by decide) valid.token
  have value : 0x0A ∉ field.2 := lf_not_mem (by decide) valid.value
  constructor
  · simp [name, value, show 0x0A ∉ ascii ": " by decide]
  · simp [valid.name]

theorem cut_headText (fits : st.WellFormed) (valid : ∀ field ∈ fields, ValidField field)
    (rest : Bytes) :
    ∃ text, text ++ crlf = st.line ++ fields.flatMap fieldLine ∧
      cut emptyLine (headText st fields ++ rest) = some (text, rest) := by
  obtain ⟨line, whole, plain, proper⟩ := fits.oneLine
  have lines : (line :: fields.map (fun f => f.1 ++ ascii ": " ++ f.2)).flatMap (· ++ crlf) =
      st.line ++ fields.flatMap fieldLine := by
    rw [List.flatMap_cons, List.flatMap_map, whole]
    rfl
  have some_line : line :: fields.map (fun f => f.1 ++ ascii ": " ++ f.2) ≠ [] :=
    List.cons_ne_nil _ _
  obtain ⟨text, ends, found⟩ := cut_emptyLine_lines some_line
    (List.forall_mem_cons.mpr ⟨plain, List.forall_mem_map.mpr fun f hf => (valid f hf).oneLine.1⟩)
    (List.forall_mem_cons.mpr ⟨proper, List.forall_mem_map.mpr fun f hf => (valid f hf).oneLine.2⟩)
    rest
  rw [lines] at ends found
  exact ⟨text, ends, by rw [headText, List.append_assoc, found]⟩

theorem cut_first (fits : st.WellFormed) (valid : ∀ field ∈ fields, ValidField field)
    {first : Segment} {more : List Segment} {stream : Bytes}
    (sent : streamOf (first :: more) = headText st fields ++ stream)
    (inFirst : (headText st fields).length ≤ first.bytes.length) :
    ∃ text rest, text ++ crlf = st.line ++ fields.flatMap fieldLine ∧
      cut emptyLine first.bytes = some (text, rest) ∧ rest ++ streamOf more = stream := by
  obtain ⟨rest, begins⟩ : headText st fields <+: first.bytes :=
    List.prefix_of_prefix_length_le (sent ▸ List.prefix_append _ _)
      (streamOf_cons first more ▸ List.prefix_append _ _) inFirst
  obtain ⟨text, lines, found⟩ := cut_headText fits valid rest
  rw [begins] at found
  refine ⟨text, rest, lines, found, ?_⟩
  rw [streamOf_cons, ← begins, List.append_assoc] at sent
  exact List.append_cancel_left sent

end Lines

/-- A response that is written with its length or in chunks, and that arrives with its head in
the first piece. -/
structure Written (st : Status) (fields : List HeaderField) (h : Head) (body : Bytes)
    (first : Segment) (more : List Segment) : Prop where
  fits : st.WellFormed
  some_field : fields ≠ []
  valid : ∀ field ∈ fields, ValidField field
  accepted : (fields.map received).foldlM Head.acceptField { status := st } = .ok h
  framed : ∃ stream, streamOf (first :: more) = headText st fields ++ stream ∧
    Framed h stream body
  inFirst : (headText st fields).length ≤ first.bytes.length

theorem Written.receive_eq {st : Status} {fields : List HeaderField} {h : Head} {body : Bytes}
    {first : Segment} {more : List Segment} (written : Written st fields h body first more)
    (version : Version) (code : UInt16) (events : List RecvEvent) :
    receive version code (arrivals (first :: more) ++ events) =
      .error (.returned ⟨st, fields.map received, body⟩) := by
  obtain ⟨fits, some_field, valid, accepted, ⟨stream, sent, framed⟩, inFirst⟩ := written
  obtain ⟨text, rest, lines, found, behind⟩ := cut_first fits valid sent inFirst
  have parsed : (start version code).head.parse text = .ok h :=
    (Head.parse_lines _ fits some_field valid lines).trans accepted
  obtain ⟨kept, status⟩ := Head.foldlM_acceptField accepted
  have response : h.response body = ⟨st, fields.map received, body⟩ := by
    rw [Head.response, kept, status]
    rfl
  have ended : receive version code (arrivals (first :: more)) =
      .error (.returned (h.response body)) := by
    change receive version code (.data first :: arrivals more) = _
    rw [receive_parsed found parsed]
    cases framed with
    | chunks coding trailing chunks =>
        rw [pieces_chunked coding, behind, readBody_chunked coding, drain_of_chunks chunks []]
        rfl
    | length plain announced whole length =>
        subst whole
        rw [pieces_plain plain [] rest more (Or.inr (by rw [List.nil_append, behind, length])),
          behind, readBody_complete plain announced (by simp [length])]
        rfl
  rw [receive] at ended ⊢
  rw [run_append_error ended, response]

end Wadi.Http
