import Wadi.Http.Grammar
import Wadi.Library.Runs
import Wadi.Sdp.ForceCodecs

/-!
The WHIP session `WHIPSession`: start-up, the offer, and the callback that sends
the offer and applies the answer.

What the session gets from outside is a parameter of a step: whether the
factory, the connection, a device or a track could be created, the offer text,
and the HTTP response. Parsing an answer is a parameter of the whole system.
A step that dereferences a null pointer or indexes an empty vector ends the run
with a fault, one that throws ends it with what is thrown.
-/

namespace Wadi
open SizeString

/-- `status.Ok` names an enumerator of `Status::Code` through an object: it is the
same constant for every status. -/
def Http.Status.ok (_ : Http.Status) : UInt16 := 200

def Http.Response.text (r : Http.Response) : Str := ByteText.toStr r.body

/-- `RtpEncodingParameters`; `rest` stands for the fields the session never names. -/
structure Encoding (Rest : Type) where
  maxBitrateBps : Option Int
  maxFramerate : Option Int
  rest : Rest
  deriving DecidableEq, Repr

structure Sender (Rest : Type) where
  encodings : List (Encoding Rest)
  rest : Rest
  deriving DecidableEq, Repr

/-- `remoteDescriptions` lists the answers `SetRemoteDescription` was called with. -/
structure PeerConnection (Rest Answer : Type) where
  senders : List (Sender Rest) := []
  localDescription : Option Str := none
  remoteDescriptions : List Answer := []
  deriving DecidableEq, Repr

/-- `posted` lists the bodies the session sent, with the address they went to. -/
structure Session (Rest Answer : Type) where
  url : Str
  allowedCodecs : Option (List Str) := none
  maxFramerate : Option UInt32 := none
  maxBitrate : Option UInt32 := none
  sdp : Str := []
  factory : Bool := false
  pc : Option (PeerConnection Rest Answer) := none
  posted : List (Str × Str) := []
  deriving DecidableEq, Repr

inductive Fault where
  | nullFactory
  | nullPeerConnection
  | emptySenders
  deriving DecidableEq, Repr

inductive Thrown where
  | deviceFailed
  | onFailure
  | outOfRange (e : OutOfRange)
  deriving DecidableEq, Repr

inductive Stop where
  | fault (f : Fault)
  | thrown (t : Thrown)
  deriving DecidableEq, Repr

/-- What happens to a session, with the outcome of every outside call. -/
inductive SessionAction (Rest : Type) where
  | initializeSession (created : Bool)
  | createConnection (created : Bool)
  | addCaptureDevice (opened : Bool) (track : Option (Sender Rest))
  | createOffer
  | onSuccess (desc : Str) (response : Http.Response)
  | onFailure
  deriving DecidableEq, Repr

section
variable {Rest Answer : Type}

def toInt (n : UInt32) : Int := n.toBitVec.toInt

def Session.usePc (s : Session Rest Answer) : Except Stop (PeerConnection Rest Answer) :=
  match s.pc with
  | some pc => .ok pc
  | none => .error (.fault .nullPeerConnection)

def Session.useFactory (s : Session Rest Answer) : Except Stop Unit :=
  if s.factory then .ok () else .error (.fault .nullFactory)

/-- A failed creation is logged and leaves the factory null. -/
def Session.initializeSession (s : Session Rest Answer) (created : Bool) : Session Rest Answer :=
  { s with factory := created }

def Session.createConnection (s : Session Rest Answer) (created : Bool) :
    Except Stop (Session Rest Answer × Bool) := do
  s.useFactory
  return ({ s with pc := if created then some {} else none }, created)

/-- The device is opened before the factory and the connection are used. A track
that cannot be added is only logged. -/
def Session.addCaptureDevice (s : Session Rest Answer) (opened : Bool)
    (track : Option (Sender Rest)) : Except Stop (Session Rest Answer) := do
  if !opened then .error (.thrown .deviceFailed)
  s.useFactory
  let pc ← s.usePc
  return { s with pc := some { pc with senders := pc.senders ++ track.toList } }

/-- Both uses of the connection only read it; the offer itself comes later. -/
def Session.createOffer (s : Session Rest Answer) : Except Stop (Session Rest Answer) := do
  let _ ← s.usePc
  return s

def Session.limit (s : Session Rest Answer) (e : Encoding Rest) : Encoding Rest :=
  let e := if s.maxBitrate.isSome then
    { e with maxBitrateBps := s.maxBitrate.map toInt } else e
  if s.maxFramerate.isSome then { e with maxFramerate := s.maxFramerate.map toInt } else e

/-- `GetSenders()[0]` with its limits set, in the list of all senders. -/
def Session.limitFirst (s : Session Rest Answer) :
    List (Sender Rest) → Except Stop (List (Sender Rest))
  | [] => .error (.fault .emptySenders)
  | sender :: senders =>
      .ok ({ sender with encodings := sender.encodings.map s.limit } :: senders)

def Session.offerText (s : Session Rest Answer) (desc : Str) : Except Stop Str :=
  match s.allowedCodecs with
  | none => .ok desc
  | some codecs => (sdpForceCodecs desc codecs).mapError (fun e => .thrown (.outOfRange e))

variable (parseAnswer : Str → Option Answer)

def Session.onSuccess (s : Session Rest Answer) (desc : Str) (response : Http.Response) :
    Except Stop (Session Rest Answer) := do
  let pc ← s.usePc
  let senders ← s.limitFirst pc.senders
  let pc := { pc with localDescription := some desc, senders := senders }
  let sdp ← s.offerText desc
  let s := { s with pc := some pc, sdp := sdp, posted := s.posted ++ [(s.url, sdp)] }
  if response.status.ok = 0 then
    return s
  match parseAnswer response.text with
  | none => return s
  | some answer =>
      return { s with
        pc := some { pc with remoteDescriptions := pc.remoteDescriptions ++ [answer] } }

def Session.onFailure (_ : Session Rest Answer) : Except Stop (Session Rest Answer) :=
  .error (.thrown .onFailure)

/-- One step. The result of `CreateConnection` is only logged by its caller. -/
def sessionStep (s : Session Rest Answer) :
    SessionAction Rest → Except Stop (Session Rest Answer)
  | .initializeSession created => .ok (s.initializeSession created)
  | .createConnection created => (s.createConnection created).map Prod.fst
  | .addCaptureDevice opened track => s.addCaptureDevice opened track
  | .createOffer => s.createOffer
  | .onSuccess desc response => s.onSuccess parseAnswer desc response
  | .onFailure => s.onFailure

def Session.answers (s : Session Rest Answer) : List Answer :=
  (s.pc.map (·.remoteDescriptions)).getD []

variable {s : Session Rest Answer} {pc : PeerConnection Rest Answer}

theorem onSuccess_of_no_pc (hpc : s.pc = none) (desc : Str) (response : Http.Response) :
    s.onSuccess parseAnswer desc response = .error (.fault .nullPeerConnection) := by
  rw [Session.onSuccess, Session.usePc, hpc]
  rfl

theorem onSuccess_of_no_sender (hpc : s.pc = some pc) (hs : pc.senders = []) (desc : Str)
    (response : Http.Response) :
    s.onSuccess parseAnswer desc response = .error (.fault .emptySenders) := by
  rw [Session.onSuccess, Session.usePc, hpc]
  simp only [bind, Except.bind, hs, Session.limitFirst]

/-- With a sender, the callback can only fail in the filter. The received status
has no part in what it does. -/
theorem onSuccess_of_sender (hpc : s.pc = some pc) {senders : List (Sender Rest)}
    (hs : s.limitFirst pc.senders = .ok senders) (desc : Str) (response : Http.Response) :
    s.onSuccess parseAnswer desc response = (s.offerText desc).map (fun text =>
      { s with
        pc := some { pc with
          localDescription := some desc
          senders := senders
          remoteDescriptions :=
            pc.remoteDescriptions ++ (parseAnswer response.text).toList }
        sdp := text
        posted := s.posted ++ [(s.url, text)] }) := by
  have neverFires : ¬ response.status.ok = 0 := (by decide : ¬ (200 : UInt16) = 0)
  rw [Session.onSuccess, Session.usePc, hpc]
  simp only [bind, Except.bind, hs]
  cases s.offerText desc with
  | error e => rfl
  | ok text =>
      cases hp : parseAnswer response.text <;>
        simp [neverFires, Except.map, pure, Except.pure]

theorem offerText_ne_fault (s : Session Rest Answer) (desc : Str) (f : Fault) :
    s.offerText desc ≠ .error (.fault f) := by
  rw [Session.offerText]
  cases s.allowedCodecs with
  | none => simp
  | some codecs => cases h : sdpForceCodecs desc codecs <;> simp [h, Except.mapError]

end

end Wadi
