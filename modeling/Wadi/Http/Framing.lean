import Wadi.Http.Requests
import Wadi.Http.Responses

/-!
What a head says about the body behind it. Every field is looked at, so that of several lengths
the last one counts, and a length is read modulo `2 ^ 64`. A body that is announced with neither
a length nor a transfer coding ends with the connection and not before.
-/

namespace Wadi.Http
open ByteText Draining Numerals Runs SizeString Receiving

section Numbers
variable {base n : Nat} {digit : UInt8 → Except HttpError Nat} {s : Bytes}

end Numbers

namespace Head

/-- A field that does not make the head be refused. -/
structure Acceptable (field : HeaderField) : Prop where
  coding : field.1 = ascii "transfer-encoding" → field.2 = ascii "chunked"
  length : field.1 = ascii "content-length" → ∃ n, stringToUint field.2 = .ok n ∧ n ≤ maxSize

def lastLength : List HeaderField → Option Nat
  | [] => none
  | field :: fields =>
      (lastLength fields).or
        (if field.1 = ascii "content-length" then (stringToUint field.2).toOption else none)

def extend (h : Head) (fields : List HeaderField) : Head where
  status := h.status
  headerFields := h.headerFields ++ fields
  contentLengthReceived :=
    h.contentLengthReceived || fields.any (fun field => field.1 == ascii "content-length")
  contentLength := (lastLength fields).getD h.contentLength
  chunkedResponse :=
    h.chunkedResponse || fields.any (fun field => field.1 == ascii "transfer-encoding")

theorem extend_cons (h : Head) (field : HeaderField) (fields : List HeaderField) :
    h.extend (field :: fields) = (h.extend [field]).extend fields := by
  cases last : lastLength fields <;> simp [extend, lastLength, last, Bool.or_assoc]

section Field
variable {h h' : Head} {field : HeaderField}

theorem coding_ne_length : ascii "transfer-encoding" ≠ ascii "content-length" := by decide

theorem acceptField_coding (name : field.1 = ascii "transfer-encoding") :
    h.acceptField field = if field.2 = ascii "chunked" then .ok (h.extend [field])
      else .error (.response (.unsupportedEncoding field.2)) := by
  rw [acceptField, readFraming, if_pos name]
  split
  next => simp [extend, lastLength, name, coding_ne_length, bind, Except.bind, pure, Except.pure]
  next => rfl

theorem acceptField_length (name : field.1 = ascii "content-length") :
    h.acceptField field = stringToUint field.2 >>= fun length =>
      if maxSize < length then .error .lengthError else .ok (h.extend [field]) := by
  have other : field.1 ≠ ascii "transfer-encoding" := name ▸ coding_ne_length.symm
  rw [acceptField, readFraming, if_neg other, if_pos name]
  cases read : stringToUint field.2 with
  | error e => rfl
  | ok length =>
      have notCoding : (ascii "content-length" == ascii "transfer-encoding") = false := by decide
      by_cases long : maxSize < length
      · simp [long, bind, Except.bind]
      · simp [long, extend, lastLength, name, notCoding, read, Except.toOption, bind, Except.bind,
          pure, Except.pure]

theorem acceptField_other (coding : field.1 ≠ ascii "transfer-encoding")
    (length : field.1 ≠ ascii "content-length") :
    h.acceptField field = .ok (h.extend [field]) := by
  rw [acceptField, readFraming, if_neg coding, if_neg length]
  simp [extend, lastLength, coding, length, bind, Except.bind, pure, Except.pure]

/-- What one field does: it is refused, or it is kept along with what it says. -/
theorem acceptField_eq_ok :
    h.acceptField field = .ok h' ↔ Acceptable field ∧ h' = h.extend [field] := by
  by_cases coding : field.1 = ascii "transfer-encoding"
  · have noLength : field.1 ≠ ascii "content-length" := coding ▸ coding_ne_length
    rw [acceptField_coding coding]
    constructor
    · intro accepted
      split at accepted
      next chunked =>
        exact ⟨⟨fun _ => chunked, fun name => absurd name noLength⟩,
          (Except.ok.inj accepted).symm⟩
      next => cases accepted
    · rintro ⟨acceptable, rfl⟩
      rw [if_pos (acceptable.coding coding)]
  · by_cases length : field.1 = ascii "content-length"
    · rw [acceptField_length length]
      constructor
      · intro accepted
        obtain ⟨n, read, accepted⟩ := bind_eq_ok accepted
        split at accepted
        next => cases accepted
        next small =>
          exact ⟨⟨fun name => absurd name coding, fun _ => ⟨n, read, Nat.not_lt.mp small⟩⟩,
            (Except.ok.inj accepted).symm⟩
      · rintro ⟨acceptable, rfl⟩
        obtain ⟨n, read, small⟩ := acceptable.length length
        rw [read]
        exact if_neg (Nat.not_lt.mpr small)
    · rw [acceptField_other coding length]
      constructor
      · intro accepted
        exact ⟨⟨fun name => absurd name coding, fun name => absurd name length⟩,
          (Except.ok.inj accepted).symm⟩
      · rintro ⟨-, rfl⟩
        rfl

end Field

end Head

section Unframed
variable {h : Head}

/-- Without a length and without a coding, only the end of the connection ends the body. -/
theorem run_unframed_iff (plain : h.chunkedResponse = false)
    (unknown : h.contentLengthReceived = false) (body : Bytes) (events : List RecvEvent)
    (r : Response) :
    run step (inBody h { body := body } []) events = .error (.returned r) ↔
      ∃ more later, events = arrivals more ++ .closed :: later ∧
        r = h.response (body ++ streamOf more) := by
  induction events generalizing body with
  | nil =>
      constructor
      · intro waiting
        cases waiting
      · rintro ⟨more, later, none_, -⟩
        simp at none_
  | cons event events ih =>
      rw [run_cons]
      cases event with
      | data segment =>
          have grown : step (inBody h { body := body } []) (.data segment) =
              .ok (inBody h { body := body ++ segment.bytes } []) := by
            rw [step_inBody, List.nil_append]
            exact readBody_incomplete plain (Or.inl unknown)
          rw [grown]
          change run step _ events = _ ↔ _
          rw [ih]
          constructor
          · rintro ⟨more, later, rfl, rfl⟩
            exact ⟨segment :: more, later, rfl, by rw [streamOf_cons, List.append_assoc]⟩
          · rintro ⟨more, later, split_, rfl⟩
            cases more with
            | nil => cases split_
            | cons first more =>
                obtain ⟨same, rest⟩ := List.cons.inj split_
                obtain rfl := RecvEvent.data.inj same
                exact ⟨more, later, rest, by rw [streamOf_cons, List.append_assoc]⟩
      | closed =>
          constructor
          · intro ended
            cases ended
            exact ⟨[], events, rfl, by simp [streamOf, response]⟩
          · rintro ⟨more, later, split_, rfl⟩
            cases more with
            | nil => simp [streamOf, step, response, bind, Except.bind]
            | cons first more => cases split_
      | timedOut | selectFailed errno | readFailed errno =>
          constructor
          · intro ended
            cases ended
          · rintro ⟨more, later, split_, -⟩
            cases more <;> cases split_

end Unframed

/-- A response with neither a length nor a transfer coding is returned exactly when the
connection is closed, after any number of pieces, and its body is all that has arrived. -/
theorem unframed_returned_iff (version : Version) (code : UInt16) (first : Segment)
    (events : List RecvEvent) (text rest : Bytes) (h : Head) (r : Response)
    (found : cut emptyLine first.bytes = some (text, rest))
    (parsed : (start version code).head.parse text = .ok h)
    (plain : h.chunkedResponse = false) (unknown : h.contentLengthReceived = false) :
    receive version code (.data first :: events) = .error (.returned r) ↔
      ∃ more later, events = arrivals more ++ .closed :: later ∧
        r = h.response (rest ++ streamOf more) := by
  have waits : (inBody h {} rest).readBody = .ok (inBody h { body := rest } []) :=
    readBody_incomplete plain (Or.inl unknown)
  rw [receive_parsed found parsed, waits]
  exact run_unframed_iff plain unknown rest events r

def unframedHead : Segment :=
  ⟨ascii "HTTP/1.1 204 No Content\r\nServer: s\r\n\r\n", by decide, by decide⟩

theorem unframed_returned_iff_noContent :
    receive ⟨0, 0⟩ 0 [.data unframedHead, .data createdRest] ≠
      .error (.returned ⟨⟨⟨1, 1⟩, 204, ascii "No Content"⟩, [(ascii "server", ascii "s")],
        ascii "=0"⟩) := by
  intro returned
  obtain ⟨more, later, split_, -⟩ := (unframed_returned_iff ⟨0, 0⟩ 0 unframedHead
    [.data createdRest] (ascii "HTTP/1.1 204 No Content\r\nServer: s") []
    { status := ⟨⟨1, 1⟩, 204, ascii "No Content"⟩
      headerFields := [(ascii "server", ascii "s")] } _ rfl rfl rfl rfl).mp returned
  have closed : .closed ∈ arrivals more ++ .closed :: later := by simp
  rw [← split_] at closed
  simp at closed

end Wadi.Http
