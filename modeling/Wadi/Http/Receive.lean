import Wadi.Http.Grammar

/-!
The second half of `Request::send`: the loop that reads the response from the socket.

Each round of the loop is one call of `recv`. What the call returns is an event: some bytes, at
most as many as the buffer holds, the end of the connection, or a failure. The loop is left in
one of two ways, by returning a response or by throwing; a run that has done neither is waiting
in `recv`. A response that was never parsed still has what was in memory for its version and
code. Allocations are taken to succeed, except where the requested size is beyond what a vector
can ever hold.
-/

namespace Wadi.Http
open ByteText Draining Runs

def bufferSize : Nat := 4096

/-- What one successful `recv` has put into the buffer. -/
structure Segment where
  bytes : Bytes
  proper : bytes ≠ []
  fits : bytes.length ≤ bufferSize
  deriving DecidableEq

inductive RecvEvent where
  | data (segment : Segment)
  | closed
  | timedOut
  | selectFailed (errno : Int)
  | readFailed (errno : Int)
  deriving DecidableEq

inductive Ending where
  | returned (response : Response)
  | thrown (e : HttpError)
  deriving DecidableEq, Repr

/-- `response.body` and the variables of the chunked transfer coding. -/
structure ChunkedBody where
  body : Bytes := []
  expectedChunkSize : Nat := 0
  removeCrlfAfterChunk : Bool := false
  deriving DecidableEq, Repr

structure Head where
  status : Status
  headerFields : List HeaderField := []
  contentLengthReceived : Bool := false
  contentLength : Nat := 0
  chunkedResponse : Bool := false
  deriving DecidableEq, Repr

structure Receiving where
  head : Head
  collected : ChunkedBody := {}
  responseData : Bytes := []
  parsingBody : Bool := false
  deriving DecidableEq, Repr

namespace Head

def maxSize : Nat := 2 ^ 63 - 1

/-- The two header fields that say how the body is sent. -/
def readFraming (h : Head) (field : HeaderField) : Except HttpError Head :=
  if field.1 = ascii "transfer-encoding" then
    if field.2 = ascii "chunked" then .ok { h with chunkedResponse := true }
    else .error (.response (.unsupportedEncoding field.2))
  else if field.1 = ascii "content-length" then do
    let length ← stringToUint field.2
    if maxSize < length then .error .lengthError
    else .ok { h with contentLength := length, contentLengthReceived := true }
  else .ok h

def acceptField (h : Head) (field : HeaderField) : Except HttpError Head := do
  let h ← h.readFraming field
  return { h with headerFields := h.headerFields ++ [field] }

/-- The loop over the header fields tests for the end only behind a field. -/
def fieldRound (h : Head) (i : Bytes) : Round Head UInt8 (Except HttpError Head) :=
  match parseHeaderField i with
  | .error e => .stop (.error e)
  | .ok (field, rest) =>
      match h.acceptField field with
      | .error e => .stop (.error e)
      | .ok h => if rest = [] then .stop (.ok h) else .next h rest

/-- No round waits. -/
def parseFields (h : Head) (i : Bytes) : Except HttpError Head :=
  match drain fieldRound h i with
  | .error result => result
  | .ok (h, _) => .ok h

/-- The status line and the header fields; `text` ends where the empty line begins. -/
def parse (h : Head) (text : Bytes) : Except HttpError Head := do
  let (status, i) ← parseStatusLine (text ++ crlf)
  { h with status := status }.parseFields i

def response (h : Head) (body : Bytes) : Response := ⟨h.status, h.headerFields, body⟩

def chunksEnded (h : Head) : Except HttpError ChunkedBody → Ending
  | .error e => .thrown e
  | .ok c => .returned (h.response c.body)

end Head

namespace Receiving

def response (s : Receiving) : Response := s.head.response s.collected.body

/-- The loop before its first round. Version and code of the response are not initialised. -/
def start (version : Version) (code : UInt16) : Receiving :=
  { head := { status := ⟨version, code, []⟩ } }

/-- Without an empty line behind the head the `break` leaves the loop that reads the
response. -/
def readHead (s : Receiving) : Except Ending Receiving :=
  match cut emptyLine s.responseData with
  | none => .error (.returned s.response)
  | some (text, rest) =>
      match s.head.parse text with
      | .error e => .error (.thrown e)
      | .ok h => .ok { s with head := h, responseData := rest, parsingBody := true }

/-- The size of the next chunk; the chunk of size zero is the last. -/
def openChunk (c : ChunkedBody) (line rest : Bytes) :
    Round ChunkedBody UInt8 (Except HttpError ChunkedBody) :=
  match hexStringToUint line with
  | .error e => .stop (.error e)
  | .ok size =>
      if size = 0 then .stop (.ok { c with expectedChunkSize := 0 })
      else .next { c with expectedChunkSize := size } rest

def chunkSizeRound (c : ChunkedBody) (responseData : Bytes) :
    Round ChunkedBody UInt8 (Except HttpError ChunkedBody) :=
  match cut crlf responseData with
  | none => .wait c responseData
  | some (line, rest) => openChunk c line rest

def chunkRound (c : ChunkedBody) (responseData : Bytes) :
    Round ChunkedBody UInt8 (Except HttpError ChunkedBody) :=
  if 0 < c.expectedChunkSize then
    let toWrite := min c.expectedChunkSize responseData.length
    let expected := c.expectedChunkSize - toWrite
    let c' : ChunkedBody :=
      { body := c.body ++ responseData.take toWrite
        expectedChunkSize := expected
        removeCrlfAfterChunk := if expected = 0 then true else c.removeCrlfAfterChunk }
    if responseData.drop toWrite = [] then .wait c' [] else .next c' (responseData.drop toWrite)
  else if c.removeCrlfAfterChunk then
    if responseData.length < 2 then .wait c responseData
    else if responseData.take 2 = crlf then
      chunkSizeRound { c with removeCrlfAfterChunk := false } (responseData.drop 2)
    else .stop (.error (.response .invalidChunk))
  else chunkSizeRound c responseData

/-- The body. A length that was received along with a transfer coding is not looked at. -/
def readBody (s : Receiving) : Except Ending Receiving :=
  if s.head.chunkedResponse then
    ((drain chunkRound s.collected s.responseData).map
      (fun p => { s with collected := p.1, responseData := p.2 })).mapError s.head.chunksEnded
  else
    let s := { s with
      collected := { s.collected with body := s.collected.body ++ s.responseData }
      responseData := [] }
    if s.head.contentLengthReceived = true ∧ s.head.contentLength ≤ s.collected.body.length then
      .error (.returned s.response)
    else .ok s

def step (s : Receiving) : RecvEvent → Except Ending Receiving
  | .closed => .error (.returned s.response)
  | .timedOut => .error (.thrown (.response .timedOut))
  | .selectFailed errno => .error (.thrown (.system .select errno))
  | .readFailed errno => .error (.thrown (.system .readData errno))
  | .data segment => do
      let s := { s with responseData := s.responseData ++ segment.bytes }
      let s ← if s.parsingBody then .ok s else s.readHead
      s.readBody

end Receiving

def receive (version : Version) (code : UInt16) (events : List RecvEvent) :
    Except Ending Receiving :=
  run Receiving.step (.start version code) events

end Wadi.Http
