import Wadi.Http.ChunkedCoding

/-!
How the response depends on the pieces in which it arrives. The head has to be complete in the
first piece: otherwise the loop is left at once, with a response in which nothing has been set.
Behind the head the cuts do not matter, with one exception. A body that is longer than the
announced length is kept up to the end of the piece that completes the length.
-/

namespace Wadi.Http
open ByteText Draining Runs

def arrivals (segments : List Segment) : List RecvEvent := segments.map .data

def streamOf (segments : List Segment) : Bytes := (segments.map Segment.bytes).flatten

@[simp] theorem streamOf_cons (first : Segment) (more : List Segment) :
    streamOf (first :: more) = first.bytes ++ streamOf more := by
  simp [streamOf]

namespace Receiving

abbrev inBody (h : Head) (c : ChunkedBody) (data : Bytes) : Receiving := ⟨h, c, data, true⟩

theorem step_inBody (h : Head) (c : ChunkedBody) (data : Bytes) (segment : Segment) :
    step (inBody h c data) (.data segment) = (inBody h c (data ++ segment.bytes)).readBody := rfl

theorem readBody_chunked {h : Head} (chunked : h.chunkedResponse = true) (c : ChunkedBody)
    (data : Bytes) :
    (inBody h c data).readBody = ((drain chunkRound c data).map
      (fun p => inBody h p.1 p.2)).mapError h.chunksEnded := by
  simp only [readBody, chunked, if_true]

/-- In pieces or at once, the chunked transfer coding comes to the same. -/
theorem pieces_chunked {h : Head} (chunked : h.chunkedResponse = true) (c : ChunkedBody)
    (data : Bytes) (segments : List Segment) :
    ((inBody h c data).readBody >>= fun s => run step s (arrivals segments)) =
      (inBody h c (data ++ streamOf segments)).readBody := by
  have follow (p : ChunkedBody × Bytes) (segment : Segment) :
      step (inBody h p.1 p.2) (.data segment) = ((feed chunkRound p segment.bytes).map
        (fun p => inBody h p.1 p.2)).mapError h.chunksEnded := by
    rw [step_inBody, readBody_chunked chunked]
    rfl
  rw [readBody_chunked chunked, readBody_chunked chunked, drain_append chunkRound_resumable]
  cases drained : drain chunkRound c data with
  | error r => rfl
  | ok p =>
      have transported := run_transport (fun p : ChunkedBody × Bytes => inBody h p.1 p.2)
        h.chunksEnded RecvEvent.data Segment.bytes follow p segments
      rw [run_feed chunkRound_resumable (settled_of_drain chunkRound_resumable drained)]
        at transported
      exact transported

theorem readBody_plain {h : Head} (plain : h.chunkedResponse = false) (body data : Bytes) :
    (inBody h { body := body } data).readBody =
      if h.contentLengthReceived = true ∧ h.contentLength ≤ (body ++ data).length then
        .error (.returned (h.response (body ++ data)))
      else .ok (inBody h { body := body ++ data } []) := by
  simp [readBody, plain, response]

theorem readBody_complete {h : Head} (plain : h.chunkedResponse = false)
    (received : h.contentLengthReceived = true) {body data : Bytes}
    (complete : h.contentLength ≤ (body ++ data).length) :
    (inBody h { body := body } data).readBody = .error (.returned (h.response (body ++ data))) := by
  rw [readBody_plain plain, if_pos ⟨received, complete⟩]

theorem readBody_incomplete {h : Head} (plain : h.chunkedResponse = false) {body data : Bytes}
    (incomplete : h.contentLengthReceived = false ∨ (body ++ data).length < h.contentLength) :
    (inBody h { body := body } data).readBody = .ok (inBody h { body := body ++ data } []) := by
  rw [readBody_plain plain, if_neg]
  rintro ⟨received, complete⟩
  obtain missing | short := incomplete
  · rw [received] at missing
    cases missing
  · omega

/-- Nothing follows a body whose length is announced. -/
def NothingBeyond (h : Head) (body : Bytes) : Prop :=
  h.chunkedResponse = true ∨ h.contentLengthReceived = false ∨ body.length ≤ h.contentLength

theorem pieces_plain {h : Head} (plain : h.chunkedResponse = false) (body data : Bytes)
    (segments : List Segment)
    (exact_ : h.contentLengthReceived = false ∨
      (body ++ (data ++ streamOf segments)).length ≤ h.contentLength) :
    ((inBody h { body := body } data).readBody >>= fun s => run step s (arrivals segments)) =
      (inBody h { body := body } (data ++ streamOf segments)).readBody := by
  induction segments generalizing body data with
  | nil =>
      rw [streamOf, List.map_nil, List.flatten_nil, List.append_nil]
      cases (inBody h { body := body } data).readBody <;> rfl
  | cons segment segments ih =>
      rw [streamOf_cons] at exact_ ⊢
      by_cases done : h.contentLengthReceived = true ∧ h.contentLength ≤ (body ++ data).length
      · -- the length is reached, so that no piece can follow
        obtain missing | short := exact_
        · rw [done.1] at missing
          cases missing
        · have some_byte := List.length_pos_iff.mpr segment.proper
          simp only [List.length_append] at short done
          omega
      · have still : h.contentLengthReceived = false ∨
            (body ++ data).length < h.contentLength := by
          cases received : h.contentLengthReceived with
          | false => exact Or.inl rfl
          | true => exact Or.inr (Nat.not_le.mp (fun reached => done ⟨received, reached⟩))
        have rest := ih (body ++ data) segment.bytes (by simpa using exact_)
        rw [readBody_incomplete plain still]
        change run step _ (.data segment :: arrivals segments) = _
        rw [run_cons, step_inBody, List.nil_append, rest, readBody_plain plain,
          readBody_plain plain, List.append_assoc]

/-- In pieces or at once, the body comes to the same unless more than was announced arrives. -/
theorem pieces_eq {h : Head} {data : Bytes} {segments : List Segment}
    (exact_ : NothingBeyond h (data ++ streamOf segments)) :
    ((inBody h {} data).readBody >>= fun s => run step s (arrivals segments)) =
      (inBody h {} (data ++ streamOf segments)).readBody := by
  cases chunked : h.chunkedResponse with
  | true => exact pieces_chunked chunked {} data segments
  | false =>
      have within := exact_.resolve_left (by simp [chunked])
      exact pieces_plain chunked [] data segments within

theorem readHead_found {s : Receiving} {text rest : Bytes}
    (found : cut emptyLine s.responseData = some (text, rest)) :
    s.readHead = ((s.head.parse text).map
      (fun h => inBody h s.collected rest)).mapError .thrown := by
  simp only [readHead, found]
  cases s.head.parse text <;> rfl

/-- The loop body run once, on all of the response. -/
def readWhole (version : Version) (code : UInt16) (stream : Bytes) : Except Ending Receiving := do
  (← { start version code with responseData := stream }.readHead).readBody

theorem readWhole_found {version : Version} {code : UInt16} {stream text rest : Bytes}
    (found : cut emptyLine stream = some (text, rest)) :
    readWhole version code stream = (((start version code).head.parse text).mapError .thrown >>=
      fun h => (inBody h {} rest).readBody) := by
  rw [readWhole, readHead_found found]
  change (((start version code).head.parse text).map _).mapError _ >>= _ = _
  cases (start version code).head.parse text <;> rfl

theorem receive_first (version : Version) (code : UInt16) (first : Segment)
    (events : List RecvEvent) :
    receive version code (.data first :: events) =
      readWhole version code first.bytes >>= fun s => run step s events :=
  run_cons _ _ _

/-- With the head in the first piece, and nothing beyond an announced length, the loop does what
it would do with all of the response at once. -/
theorem receive_eq_readWhole (version : Version) (code : UInt16) (first : Segment)
    (more : List Segment) {text rest : Bytes}
    (found : cut emptyLine first.bytes = some (text, rest))
    (exact_ : ∀ h, (start version code).head.parse text = .ok h →
      NothingBeyond h (rest ++ streamOf more)) :
    receive version code (arrivals (first :: more)) =
      readWhole version code (streamOf (first :: more)) := by
  have foundWhole : cut emptyLine (streamOf (first :: more)) =
      some (text, rest ++ streamOf more) := by
    rw [streamOf_cons]
    exact cut_append emptyLine_ne_nil found _
  rw [readWhole_found foundWhole]
  change receive version code (.data first :: arrivals more) = _
  rw [receive_first, readWhole_found found]
  cases parsed : (start version code).head.parse text with
  | error e => rfl
  | ok h => exact pieces_eq (exact_ h parsed)

end Receiving

open Receiving

/-- The cuts between the pieces do not matter, as long as the first piece holds the head and
nothing is sent beyond an announced length. -/
theorem cuts_irrelevant (version : Version) (code : UInt16) (first first' : Segment)
    (more more' : List Segment) (events : List RecvEvent)
    (same : streamOf (first :: more) = streamOf (first' :: more'))
    (head : emptyLine <:+: first.bytes) (head' : emptyLine <:+: first'.bytes)
    (exact_ : ∀ text rest h, cut emptyLine (streamOf (first :: more)) = some (text, rest) →
      (start version code).head.parse text = .ok h → NothingBeyond h rest) :
    receive version code (arrivals (first :: more) ++ events) =
      receive version code (arrivals (first' :: more') ++ events) := by
  have whole (f : Segment) (m : List Segment) (inFirst : emptyLine <:+: f.bytes)
      (stream : streamOf (f :: m) = streamOf (first :: more)) :
      receive version code (arrivals (f :: m)) =
        readWhole version code (streamOf (first :: more)) := by
    cases found : cut emptyLine f.bytes with
    | none => exact absurd inFirst ((cut_eq_none_iff emptyLine_ne_nil _).mp found)
    | some parts =>
        obtain ⟨text, rest⟩ := parts
        have foundWhole := cut_append emptyLine_ne_nil found (streamOf m)
        rw [← streamOf_cons, stream] at foundWhole
        rw [receive_eq_readWhole version code f m found
          (fun h parsed => exact_ text _ h foundWhole parsed), stream]
  have both : receive version code (arrivals (first :: more)) =
      receive version code (arrivals (first' :: more')) :=
    (whole first more head rfl).trans (whole first' more' head' same.symm).symm
  rw [receive, receive] at both ⊢
  cases ended : run step (start version code) (arrivals (first :: more)) with
  | error e => rw [run_append_error ended, run_append_error (both ▸ ended)]
  | ok s => rw [run_append_ok ended, run_append_ok (both ▸ ended)]

def createdWhole : Segment :=
  ⟨ascii "HTTP/1.1 201 Created\r\nContent-Length: 3\r\n\r\nv=0", by decide, by decide⟩

def createdHead : Segment :=
  ⟨ascii "HTTP/1.1 201 Created\r\nContent-Length: 3\r\n\r\nv", by decide, by decide⟩

def createdRest : Segment := ⟨ascii "=0", by decide, by decide⟩

def createdStatus : Status := ⟨⟨1, 1⟩, 201, ascii "Created"⟩

theorem cuts_irrelevant_created :
    receive ⟨0, 0⟩ 0 (arrivals [createdWhole] ++ [.closed]) =
      receive ⟨0, 0⟩ 0 (arrivals [createdHead, createdRest] ++ [.closed]) := by
  refine cuts_irrelevant ⟨0, 0⟩ 0 createdWhole createdHead [] [createdRest] [.closed]
    (by decide) (by decide) (by decide) ?_
  intro text rest h found parsed
  have parts : cut emptyLine (streamOf [createdWhole]) =
      some (ascii "HTTP/1.1 201 Created\r\nContent-Length: 3", ascii "v=0") := rfl
  rw [parts] at found
  cases found
  have head : (start ⟨0, 0⟩ 0).head.parse (ascii "HTTP/1.1 201 Created\r\nContent-Length: 3") =
      .ok ⟨createdStatus, [(ascii "content-length", ascii "3")], true, 3, false⟩ := rfl
  rw [head] at parsed
  cases parsed
  exact Or.inr (Or.inr (by decide))

end Wadi.Http
