import Wadi.Http.Requests
import Wadi.Http.Responses
import Wadi.Http.Send
import Wadi.Session.Answer

/-!
The callback that sends the offer, over a network. `Session.onSuccess` is given the response;
here the response is what `Request::send` makes of the answers of the system, and an exception
of the request leaves the callback.

Whatever comes back is taken for the answer. A response that arrives with its head in one piece
is applied as it was written; one whose head is cut, or that never comes, is applied as the
empty text.
-/

namespace Wadi
open ByteText Runs SizeString

inductive Interruption where
  | stop (s : Stop)
  | http (e : Http.HttpError)
  | waiting
  deriving DecidableEq, Repr

def sdpFields : List Http.HeaderField := [(ascii "Content-Type", ascii "application/sdp")]

theorem sdpFields_own : ∀ field ∈ sdpFields, Http.toLower field.1 ≠ ascii "content-length" ∧
    Http.toLower field.1 ≠ ascii "transfer-encoding" :=
  List.forall_mem_singleton.mpr ⟨by decide, by decide⟩

/-- `http::Request request(url)` and `request.send("POST", sdp, ...)`. -/
def postOffer (url sdp : Str) (w : Http.World) : Http.Sent :=
  match Http.parseUri (ofStr url) with
  | .error e => { ending := some (.thrown e) }
  | .ok uri => Http.send uri (ascii "POST") (ofStr sdp) sdpFields w

def responseOf (sent : Http.Sent) : Except Interruption Http.Response :=
  match sent.ending with
  | none => .error .waiting
  | some (.thrown e) => .error (.http e)
  | some (.returned r) => .ok r

section
variable {Rest Answer : Type} (parseAnswer : Str → Option Answer)

def Session.onSuccessOver (s : Session Rest Answer) (desc : Str) (w : Http.World) :
    Except Interruption (Session Rest Answer) := do
  let pc ← s.usePc.mapError .stop
  let senders ← (s.limitFirst pc.senders).mapError .stop
  let pc := { pc with localDescription := some desc, senders := senders }
  let sdp ← (s.offerText desc).mapError .stop
  let response ← responseOf (postOffer s.url sdp w)
  let s := { s with pc := some pc, sdp := sdp, posted := s.posted ++ [(s.url, sdp)] }
  if response.status.ok = 0 then
    return s
  match parseAnswer response.text with
  | none => return s
  | some answer =>
      return { s with
        pc := some { pc with remoteDescriptions := pc.remoteDescriptions ++ [answer] } }

variable {parseAnswer} {s t : Session Rest Answer} {desc sdp : Str} {w : Http.World}

theorem postOffer_of_address {url sdp : Str} {uri : Http.Uri}
    (address : Http.parseUri (ofStr url) = .ok uri) (w : Http.World) :
    postOffer url sdp w = Http.send uri (ascii "POST") (ofStr sdp) sdpFields w := by
  rw [postOffer, address]

theorem postOffer_of_no_address {url sdp : Str} {e : Http.HttpError}
    (address : Http.parseUri (ofStr url) = .error e) (w : Http.World) :
    postOffer url sdp w = { ending := some (.thrown e) } := by
  rw [postOffer, address]

theorem responseOf_eq_ok {sent : Http.Sent} {r : Http.Response} :
    responseOf sent = .ok r ↔ sent.ending = some (.returned r) := by
  rw [responseOf]
  split
  next waiting => simp [waiting]
  next e thrown => simp [thrown]
  next r' returned => simp [returned]

/-- A response comes from a request that has been written as a whole. -/
theorem postOffer_returned {url : Str} {r : Http.Response}
    (ended : (postOffer url sdp w).ending = some (.returned r)) :
    ∃ uri, Http.parseUri (ofStr url) = .ok uri ∧
      Http.encodeHtml uri (ascii "POST") (ofStr sdp) sdpFields = .ok (postOffer url sdp w).wire ∧
      Http.receive w.version w.code w.reads = .error (.returned r) := by
  cases address : Http.parseUri (ofStr url) with
  | error e =>
      rw [postOffer_of_no_address address] at ended
      cases ended
  | ok uri =>
      rw [postOffer_of_address address] at ended ⊢
      obtain ⟨written, received⟩ := Http.send_returned ended
      exact ⟨uri, rfl, written, received⟩

theorem onSuccessOver_of_response {response : Http.Response} (offer : s.offerText desc = .ok sdp)
    (responded : responseOf (postOffer s.url sdp w) = .ok response) :
    s.onSuccessOver parseAnswer desc w =
      (s.onSuccess parseAnswer desc response).mapError .stop := by
  rw [Session.onSuccessOver, Session.onSuccess, offer, Session.usePc]
  cases s.pc with
  | none => rfl
  | some pc =>
      simp only [bind, Except.bind, Except.mapError]
      cases s.limitFirst pc.senders with
      | error e => rfl
      | ok senders =>
          simp only [responded]
          split
          next => rfl
          next => cases parseAnswer response.text <;> rfl

/-- The callback over a network comes to its end exactly when a response is returned and the
callback with this response does. -/
theorem onSuccessOver_eq_ok :
    s.onSuccessOver parseAnswer desc w = .ok t ↔
      ∃ sdp r, s.offerText desc = .ok sdp ∧
        (postOffer s.url sdp w).ending = some (.returned r) ∧
        s.onSuccess parseAnswer desc r = .ok t := by
  constructor
  · intro h
    have peeled := h
    obtain ⟨pc, -, peeled⟩ := bind_eq_ok peeled
    obtain ⟨senders, -, peeled⟩ := bind_eq_ok peeled
    obtain ⟨sdp, offer, peeled⟩ := bind_eq_ok peeled
    obtain ⟨r, responded, -⟩ := bind_eq_ok peeled
    rw [onSuccessOver_of_response (mapError_eq_ok offer) responded] at h
    exact ⟨sdp, r, mapError_eq_ok offer, responseOf_eq_ok.mp responded, mapError_eq_ok h⟩
  · rintro ⟨sdp, r, offer, ended, returns⟩
    rw [onSuccessOver_of_response offer (responseOf_eq_ok.mpr ended), returns]
    rfl

/-- A session with an offer to send, and a server that can be reached and takes all of the
request. -/
structure Posting (s : Session Rest Answer) (desc sdp : Str) (uri : Http.Uri) (text : Bytes)
    (w : Http.World) : Prop where
  sender : ∃ pc, s.pc = some pc ∧ pc.senders ≠ []
  offer : s.offerText desc = .ok sdp
  address : Http.parseUri (ofStr s.url) = .ok uri
  encoded : Http.encodeHtml uri (ascii "POST") (ofStr sdp) sdpFields = .ok text
  lookup : w.lookup = .ok ()
  socket : w.socket.check = .ok ()
  connect : w.connect.check = .ok ()
  writes : ∃ rooms, w.writes = rooms.map .accepted ∧ text.length ≤ Http.Sending.totalRoom rooms

namespace Posting
variable {uri : Http.Uri} {text : Bytes}

theorem postOffer_eq (posting : Posting s desc sdp uri text w) :
    postOffer s.url sdp w =
      ⟨text, Http.waitingOrEnded (Http.receive w.version w.code w.reads)⟩ := by
  obtain ⟨rooms, writes, enough⟩ := posting.writes
  have prepared := Http.prepare_eq_ok.mpr
    ⟨posting.lookup, posting.encoded, posting.socket, posting.connect⟩
  rw [postOffer_of_address posting.address, Http.send_of_prepared prepared]
  exact Http.transmit_accepted writes enough

theorem applies (posting : Posting s desc sdp uri text w) (parseAnswer : Str → Option Answer)
    {r : Http.Response} (received : Http.receive w.version w.code w.reads = .error (.returned r)) :
    ∃ t, s.onSuccessOver parseAnswer desc w = .ok t ∧
      t.answers = s.answers ++ (parseAnswer (toStr r.body)).toList := by
  obtain ⟨pc, hpc, some_sender⟩ := posting.sender
  obtain ⟨sender, senders, split_⟩ := List.exists_cons_of_ne_nil some_sender
  have limited : s.limitFirst pc.senders = .ok
      ({ sender with encodings := sender.encodings.map s.limit } :: senders) := by
    rw [split_, Session.limitFirst]
  have responded : responseOf (postOffer s.url sdp w) = .ok r := by
    rw [posting.postOffer_eq, received]
    rfl
  have returns := onSuccess_of_sender parseAnswer hpc limited desc r
  rw [posting.offer] at returns
  refine ⟨_, ?_, answers_onSuccess returns⟩
  rw [onSuccessOver_of_response posting.offer responded, returns]
  rfl

end Posting

end

def trackSession : Session Unit Unit :=
  { url := "http://h/w".toList, factory := true, pc := some { senders := [⟨[], ()⟩] } }

def trackWorld (reads : List Http.RecvEvent) : Http.World :=
  { writes := [.accepted 10, .accepted 200], reads := reads }

theorem posting_trackSession (reads : List Http.RecvEvent) :
    Posting trackSession plainAnswer plainAnswer
      { scheme := ascii "http", host := ascii "h", path := ascii "/w" }
      (ascii ("POST /w HTTP/1.1\r\nContent-Type: application/sdp\r\nHost: h\r\n" ++
        "Content-Length: 43\r\n\r\n") ++ ofStr plainAnswer) (trackWorld reads) :=
  ⟨⟨_, rfl, by simp⟩, rfl, rfl, by decide +kernel, rfl, rfl, rfl, [10, 200], rfl,
    by decide +kernel⟩

/-- The answer in one piece, and cut inside its body. -/
def answerWhole : Http.Segment :=
  ⟨ascii "HTTP/1.1 201 Created\r\nContent-Length: 43\r\n\r\n" ++ ofStr plainAnswer,
    by decide, by decide⟩

def answerHead : Http.Segment :=
  ⟨ascii "HTTP/1.1 201 Created\r\nContent-Length: 43\r\n\r\n" ++ (ofStr plainAnswer).take 10,
    by decide, by decide⟩

def answerRest : Http.Segment := ⟨(ofStr plainAnswer).drop 10, by decide, by decide⟩

def answerFields : List Http.HeaderField := [(ascii "content-length", ascii "43")]

theorem receive_answerWhole (later : List Http.RecvEvent) :
    Http.receive ⟨0, 0⟩ 0 (.data answerWhole :: later) =
      .error (.returned ⟨Http.createdStatus, answerFields, ofStr plainAnswer⟩) := by
  rfl

/-- Whatever the network does, a callback that returns has written all of its offer, in one
request and before it read anything, and has applied the body of what it then read. -/
theorem answer_follows_offer {Rest Answer : Type} (parseAnswer : Str → Option Answer)
    (s t : Session Rest Answer) (desc : Str) (w : Http.World)
    (returns : s.onSuccessOver parseAnswer desc w = .ok t) :
    ∃ sdp uri r, s.offerText desc = .ok sdp ∧ Http.parseUri (ofStr s.url) = .ok uri ∧
      Http.encodeHtml uri (ascii "POST") (ofStr sdp) sdpFields =
        .ok (postOffer s.url sdp w).wire ∧
      Http.receive w.version w.code w.reads = .error (.returned r) ∧
      t.answers = s.answers ++ (parseAnswer (toStr r.body)).toList := by
  obtain ⟨sdp, r, offer, ended, applied⟩ := onSuccessOver_eq_ok.mp returns
  obtain ⟨uri, address, written, received⟩ := postOffer_returned ended
  exact ⟨sdp, uri, r, offer, address, written, received, answers_onSuccess applied⟩

theorem answer_follows_offer_track :
    ∃ t sdp uri r, trackSession.onSuccessOver parsePlain plainAnswer
        (trackWorld [.data answerWhole]) = .ok t ∧
      trackSession.offerText plainAnswer = .ok sdp ∧
      Http.parseUri (ofStr trackSession.url) = .ok uri ∧
      Http.encodeHtml uri (ascii "POST") (ofStr sdp) sdpFields =
        .ok (postOffer trackSession.url sdp (trackWorld [.data answerWhole])).wire ∧
      Http.receive ⟨0, 0⟩ 0 [.data answerWhole] = .error (.returned r) ∧
      t.answers = trackSession.answers ++ (parsePlain (toStr r.body)).toList := by
  obtain ⟨t, returns, -⟩ := (posting_trackSession [.data answerWhole]).applies parsePlain
    (receive_answerWhole [])
  obtain ⟨sdp, uri, r, rest⟩ := answer_follows_offer parsePlain trackSession t plainAnswer
    (trackWorld [.data answerWhole]) returns
  exact ⟨t, sdp, uri, r, returns, rest⟩

/-- An offer and its answer, over any network that cuts both into pieces: the server reads the
offer, and the session applies the answer the server wrote. Only the head of the response has to
arrive in one piece. -/
theorem offer_answer_exchanged {Rest Answer : Type} (parseAnswer : Str → Option Answer)
    (s : Session Rest Answer) (desc sdp : Str) (uri : Http.Uri) (text : Bytes) (w : Http.World)
    (st : Http.Status) (fields : List Http.HeaderField) (h : Http.Head) (body : Bytes)
    (first : Http.Segment) (more : List Http.Segment) (later : List Http.RecvEvent)
    (posting : Posting s desc sdp uri text w)
    (target : 0x20 ∉ Http.requestTarget uri ∧ ¬ crlf <:+: Http.requestTarget uri)
    (written : Http.Written st fields h body first more)
    (reads : w.reads = Http.arrivals (first :: more) ++ later) :
    ∃ t request, Http.readRequest (postOffer s.url sdp w).wire = some (request, []) ∧
      request.method = ascii "POST" ∧ request.target = Http.requestTarget uri ∧
      request.body = ofStr sdp ∧ s.onSuccessOver parseAnswer desc w = .ok t ∧
      t.answers = s.answers ++ (parseAnswer (toStr body)).toList := by
  have received := written.receive_eq w.version w.code later
  rw [← reads] at received
  obtain ⟨t, returns, applied⟩ := posting.applies parseAnswer received
  have read := Http.readRequest_encodeHtml posting.encoded sdpFields_own ⟨by decide, by decide⟩
    target []
  rw [List.append_nil] at read
  have wire : (postOffer s.url sdp w).wire = text := congrArg Http.Sent.wire posting.postOffer_eq
  exact ⟨t, _, wire ▸ read, rfl, rfl, rfl, returns, applied⟩

theorem offer_answer_exchanged_track :
    ∃ t request, Http.readRequest (postOffer trackSession.url plainAnswer (trackWorld
        (Http.arrivals [answerHead, answerRest] ++ []))).wire = some (request, []) ∧
      request.method = ascii "POST" ∧ request.target = ascii "/w" ∧
      request.body = ofStr plainAnswer ∧
      trackSession.onSuccessOver parsePlain plainAnswer (trackWorld
        (Http.arrivals [answerHead, answerRest] ++ [])) = .ok t ∧
      t.answers = [()] :=
  offer_answer_exchanged parsePlain trackSession plainAnswer plainAnswer _ _ _
    Http.createdStatus [(ascii "Content-Length", ascii "43")]
    ⟨Http.createdStatus, answerFields, true, 43, false⟩ (ofStr plainAnswer)
    answerHead [answerRest] []
    (posting_trackSession (Http.arrivals [answerHead, answerRest] ++ []))
    ⟨by decide, by decide⟩
    ⟨⟨by decide, by decide, by decide, List.all_eq_true.mp rfl⟩, by simp,
      List.forall_mem_singleton.mpr
        ⟨by decide, List.all_eq_true.mp rfl, List.all_eq_true.mp rfl⟩, rfl,
      ⟨ofStr plainAnswer, by decide +kernel, .length rfl rfl rfl rfl⟩, by decide +kernel⟩ rfl

/-- A response whose head is cut, and a connection that is closed, are taken for an empty
answer. Nothing that arrives later changes that. -/
theorem cut_head_loses_answer {Rest Answer : Type} (parseAnswer : Str → Option Answer)
    (s : Session Rest Answer) (desc sdp : Str) (uri : Http.Uri) (text : Bytes) (w : Http.World)
    (event : Http.RecvEvent) (later : List Http.RecvEvent)
    (posting : Posting s desc sdp uri text w) (reads : w.reads = event :: later)
    (early : event = .closed ∨ ∃ segment, event = .data segment ∧
      ¬ emptyLine <:+: segment.bytes) :
    ∃ t, s.onSuccessOver parseAnswer desc w = .ok t ∧
      t.answers = s.answers ++ (parseAnswer []).toList := by
  have received : Http.receive w.version w.code w.reads =
      .error (.returned (Http.Receiving.start w.version w.code).response) := by
    rw [reads]
    obtain rfl | ⟨segment, rfl, missing⟩ := early
    · rfl
    · exact Http.Receiving.receive_unfinished missing later
  exact posting.applies parseAnswer received

theorem cut_head_loses_answer_track :
    ∃ t, trackSession.onSuccessOver parsePlain plainAnswer
        (trackWorld [.data answerRest, .data answerWhole]) = .ok t ∧
      t.answers = [] :=
  cut_head_loses_answer parsePlain trackSession plainAnswer plainAnswer _ _ _
    (.data answerRest) [.data answerWhole]
    (posting_trackSession [.data answerRest, .data answerWhole]) rfl
    (Or.inr ⟨answerRest, rfl, by decide +kernel⟩)

/-- The addresses to which anything can be sent at all, whatever the network does: the scheme is
`http` in lower case, and the host has no character that a field cannot have. -/
theorem address_usable_iff (url sdp : Str) :
    (∃ w, (postOffer url sdp w).wire ≠ []) ↔
      ∃ uri, Http.parseUri (ofStr url) = .ok uri ∧ uri.scheme = ascii "http" ∧
        ∀ c ∈ uri.host, Http.isFieldChar c = true := by
  have sdpValid : ∀ field ∈ sdpFields, Http.ValidField field :=
    List.forall_mem_singleton.mpr
      ⟨show ascii "Content-Type" ≠ [] by decide, List.all_eq_true.mp rfl, List.all_eq_true.mp rfl⟩
  constructor
  · rintro ⟨w, written⟩
    cases address : Http.parseUri (ofStr url) with
    | error e =>
        rw [postOffer_of_no_address address] at written
        exact absurd rfl written
    | ok uri =>
        rw [postOffer_of_address address] at written
        cases prepared : Http.prepare uri (ascii "POST") (ofStr sdp) sdpFields w with
        | error e =>
            rw [Http.send_of_refused prepared] at written
            exact absurd rfl written
        | ok requestData =>
            obtain ⟨scheme, valid, -⟩ :=
              Http.encodeHtml_eq_ok.mp (Http.prepare_eq_ok.mp prepared).2.1
            exact ⟨uri, rfl, scheme, ((Http.validFields_iff _ _ _).mp valid).2⟩
  · rintro ⟨uri, address, scheme, host⟩
    have valid := (Http.validFields_iff uri (ofStr sdp) sdpFields).mpr ⟨sdpValid, host⟩
    obtain ⟨text, encoded⟩ : ∃ text,
        Http.encodeHtml uri (ascii "POST") (ofStr sdp) sdpFields = .ok text :=
      ⟨_, Http.encodeHtml_eq_ok.mpr ⟨scheme, valid, rfl⟩⟩
    have some_byte : text ≠ [] := by
      obtain ⟨-, -, rfl⟩ := Http.encodeHtml_eq_ok.mp encoded
      rw [Http.encodeRequestLine_eq]
      simp
    -- a network on which every call succeeds
    refine ⟨{ writes := [.accepted text.length], reads := [] }, ?_⟩
    have prepared : Http.prepare uri (ascii "POST") (ofStr sdp) sdpFields
        { writes := [.accepted text.length], reads := [] } = .ok text :=
      Http.prepare_eq_ok.mpr ⟨rfl, encoded, rfl, rfl⟩
    have enough : text.length ≤ Http.Sending.totalRoom [text.length] := Nat.le_refl _
    rw [postOffer_of_address address, Http.send_of_prepared prepared,
      Http.transmit_accepted rfl enough]
    exact some_byte

end Wadi
