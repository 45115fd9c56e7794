import Wadi.Config.WadiConfig
import Wadi.Session.Exchange
import Wadi.Session.StartUp

/-!
The whole of `main`. The command line gives the address and what is asked of the camera; then
the calls of the session follow, and the callback for the offer sends it and applies the answer.
Everything outside is one `ProgramWorld`. A thrown exception and a failed assertion end the
program, and so does, in this model, a use of a null pointer; without an ending the program
waits for the network.

Nothing in `main` sets the allowed codecs or a limit of the session: what is sent is the offer
as it was made, and the track is left as it was added.
-/

namespace Wadi
open ByteText Runs SizeString

/-- The answers of everything outside during one run. `memory` is what the device object is
built in, and `offer` the description that was made, if one was. -/
structure ProgramWorld (Rest : Type) where
  factory : Bool
  connection : Bool
  memory : V4LDevice
  capture : CaptureWorld
  track : Option (Sender Rest)
  offer : Option Str
  network : Http.World

inductive ProgramStop where
  | capture (e : CaptureStop)
  | session (why : Interruption)
  deriving DecidableEq, Repr

def ProgramStop.ofStop (s : Stop) : ProgramStop := .session (.stop s)

section
variable {Rest Answer : Type} (parseAnswer : Str → Option Answer)

def Session.offered (s : Session Rest Answer) (offer : Option Str) (network : Http.World) :
    Except ProgramStop (Session Rest Answer) :=
  match offer with
  | none => s.onFailure.mapError .ofStop
  | some desc => (s.onSuccessOver parseAnswer desc network).mapError .session

def runMain (argv : List Str) (w : ProgramWorld Rest) :
    Except ProgramStop (Session Rest Answer) := do
  let config := WadiConfig.fromArgs argv
  let s : Session Rest Answer := { url := config.whipEndpoint }
  let s := s.initializeSession w.factory
  let (s, _) ← (s.createConnection w.connection).mapError .ofStop
  let _ ← (mainCapture argv w.memory [] w.capture).result.mapError .capture
  let s ← (s.addCaptureDevice true w.track).mapError .ofStop
  let s ← s.createOffer.mapError .ofStop
  s.offered parseAnswer w.offer w.network

def trackAdded (url : Str) (track : Option (Sender Rest)) : Session Rest Answer :=
  { url := url, factory := true, pc := some { senders := track.toList } }

variable {parseAnswer} {argv : List Str} {w : ProgramWorld Rest} {t : Session Rest Answer}

/-- Before the offer, everything that is used has to be there. -/
theorem runMain_eq_ok :
    runMain parseAnswer argv w = .ok t ↔
      w.factory = true ∧ w.connection = true ∧
      (∃ source, (mainCapture argv w.memory [] w.capture).result = .ok source) ∧
      (trackAdded (WadiConfig.fromArgs argv).whipEndpoint w.track).offered parseAnswer w.offer
        w.network = .ok t := by
  constructor
  · intro returns
    obtain ⟨⟨s, created⟩, connected, returns⟩ := bind_eq_ok returns
    obtain ⟨source, built, returns⟩ := bind_eq_ok returns
    obtain ⟨_, factory, same⟩ := bind_eq_ok (mapError_eq_ok connected)
    obtain ⟨rfl, -⟩ := Prod.mk.inj (Except.ok.inj same)
    cases made : w.factory with
    | false =>
        simp [Session.useFactory, Session.initializeSession, made] at factory
    | true =>
        cases connection : w.connection with
        | false =>
            simp only [connection, made] at returns
            cases returns
        | true =>
            simp only [connection, made] at returns
            exact ⟨rfl, rfl, ⟨source, mapError_eq_ok built⟩, returns⟩
  · rintro ⟨factory, connection, ⟨source, built⟩, returns⟩
    rw [runMain, built, factory, connection]
    exact returns

theorem run_startUp (url desc : Str) (track : Option (Sender Rest)) (response : Http.Response) :
    run (sessionStep parseAnswer) { url := url }
        (startUp ⟨true, true, [⟨true, track⟩], desc, response⟩) =
      (trackAdded url track).onSuccess parseAnswer desc response := by
  change ((trackAdded url track).onSuccess parseAnswer desc response >>= fun s => .ok s) = _
  cases (trackAdded url track).onSuccess parseAnswer desc response <;> rfl

end

/-- The program over a network refines the start-up in which the outcomes of all calls are
given: it comes to its end in a state exactly when a camera was opened, the network has given a
response, and the start-up with this response comes to its end in this state. -/
theorem main_refines_startUp {Rest Answer : Type} (parseAnswer : Str → Option Answer)
    (argv : List Str) (w : ProgramWorld Rest) (t : Session Rest Answer) :
    runMain parseAnswer argv w = .ok t ↔
      ∃ source desc r, (mainCapture argv w.memory [] w.capture).result = .ok source ∧
        w.offer = some desc ∧
        (postOffer (WadiConfig.fromArgs argv).whipEndpoint desc w.network).ending =
          some (.returned r) ∧
        run (sessionStep parseAnswer) { url := (WadiConfig.fromArgs argv).whipEndpoint }
          (startUp ⟨w.factory, w.connection, [⟨true, w.track⟩], desc, r⟩) = .ok t := by
  rw [runMain_eq_ok]
  constructor
  · rintro ⟨factory, connection, ⟨source, built⟩, returns⟩
    cases offer : w.offer with
    | none =>
        rw [offer] at returns
        cases returns
    | some desc =>
        rw [offer] at returns
        obtain ⟨sdp, r, text, ended, applied⟩ := onSuccessOver_eq_ok.mp (mapError_eq_ok returns)
        obtain rfl : desc = sdp := Except.ok.inj text
        refine ⟨source, desc, r, built, rfl, ended, ?_⟩
        rw [factory, connection, run_startUp, applied]
  · rintro ⟨source, desc, r, built, offer, ended, applied⟩
    cases factory : w.factory with
    | false =>
        rw [factory] at applied
        cases applied
    | true =>
        cases connection : w.connection with
        | false =>
            rw [factory, connection] at applied
            cases applied
        | true =>
            rw [factory, connection, run_startUp] at applied
            refine ⟨rfl, rfl, ⟨source, built⟩, ?_⟩
            rw [offer, Session.offered, onSuccessOver_eq_ok.mpr ⟨desc, r, rfl, ended, applied⟩]
            rfl

end Wadi
