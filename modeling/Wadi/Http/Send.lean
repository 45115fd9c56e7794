import Wadi.Http.Encoding
import Wadi.Http.Receive

/-!
All of `Request::send`: the address is looked up, the request is encoded, a socket is opened and
connected, the request is written piece by piece, and the response is read.

The answers of the system to the calls that are made are given as a `World`. A call that is
interrupted is made again and does not show. A list of answers that ends while the program waits
for one leaves it waiting.
-/

namespace Wadi.Http
open ByteText Runs

inductive SelectEvent where
  | ready
  | timedOut
  | failed (errno : Int)
  deriving DecidableEq, Repr

inductive SocketEvent where
  | opened
  | notCreated (errno : Int)
  | flagsUnknown (errno : Int)
  | flagsNotSet (errno : Int)
  deriving DecidableEq, Repr

/-- The answers of `connect` and of what is asked while it is in progress; `option` is the
pending error of the socket, or why it could not be read. -/
inductive ConnectEvent where
  | connected
  | failed (errno : Int)
  | inProgress (select : SelectEvent) (option : Except Int Int)
  deriving DecidableEq, Repr

inductive WriteEvent where
  | accepted (room : Nat)
  | timedOut
  | selectFailed (errno : Int)
  | writeFailed (errno : Int)
  deriving DecidableEq, Repr

/-- What the system answers during one request. The last two are the parts of the response that
are not initialised. -/
structure World where
  lookup : Except Int Unit := .ok ()
  socket : SocketEvent := .opened
  connect : ConnectEvent := .connected
  writes : List WriteEvent
  reads : List RecvEvent
  version : Version := ⟨0, 0⟩
  code : UInt16 := 0

def SelectEvent.check : SelectEvent → Except HttpError Unit
  | .ready => .ok ()
  | .timedOut => .error (.response .timedOut)
  | .failed errno => .error (.system .select errno)

def SocketEvent.check : SocketEvent → Except HttpError Unit
  | .opened => .ok ()
  | .notCreated errno => .error (.system .createSocket errno)
  | .flagsUnknown errno => .error (.system .getFlags errno)
  | .flagsNotSet errno => .error (.system .setFlags errno)

def ConnectEvent.check : ConnectEvent → Except HttpError Unit
  | .connected => .ok ()
  | .failed errno => .error (.system .connect errno)
  | .inProgress select option => do
      select.check
      match option with
      | .error errno => .error (.system .getOption errno)
      | .ok socketError =>
          if socketError ≠ 0 then .error (.system .connect socketError) else .ok ()

/-- What has been written, and what `sendData` and `remaining` still describe. -/
structure Sending where
  wire : Bytes := []
  pending : Bytes
  deriving DecidableEq, Repr

namespace Sending

/-- One call of `Socket::send`; the socket takes what it has room for. -/
def step (s : Sending) : WriteEvent → Except HttpError Sending
  | .accepted room => .ok ⟨s.wire ++ s.pending.take room, s.pending.drop room⟩
  | .timedOut => .error (.response .timedOut)
  | .selectFailed errno => .error (.system .select errno)
  | .writeFailed errno => .error (.system .sendData errno)

/-- The loop that sends the request, left when nothing remains or by what a call throws. -/
def loop (s : Sending) : List WriteEvent → Sending × Option HttpError
  | [] => (s, none)
  | event :: events =>
      if s.pending = [] then (s, none)
      else
        match s.step event with
        | .error e => (s, some e)
        | .ok s => s.loop events

end Sending

/-- The bytes that were written, and how `send` ended, if it did. -/
structure Sent where
  wire : Bytes := []
  ending : Option Ending
  deriving DecidableEq, Repr

/-- The scheme is checked before the address is looked up, and again when the request is
encoded. -/
def Uri.checkScheme (uri : Uri) : Except HttpError Unit :=
  if uri.scheme ≠ ascii "http" then .error (.request .onlyHttp) else .ok ()

def prepare (uri : Uri) (method body : Bytes) (fields : List HeaderField) (w : World) :
    Except HttpError Bytes := do
  uri.checkScheme
  w.lookup.mapError (HttpError.system (.addressInfo uri.host))
  let requestData ← encodeHtml uri method body fields
  w.socket.check
  w.connect.check
  return requestData

def waitingOrEnded : Except Ending Receiving → Option Ending
  | .ok _ => none
  | .error ending => some ending

def transmit (requestData : Bytes) (w : World) : Sent :=
  match Sending.loop { pending := requestData } w.writes with
  | (s, some e) => { wire := s.wire, ending := some (.thrown e) }
  | (s, none) =>
      if s.pending ≠ [] then { wire := s.wire, ending := none }
      else { wire := s.wire, ending := waitingOrEnded (receive w.version w.code w.reads) }

def send (uri : Uri) (method body : Bytes) (fields : List HeaderField) (w : World) : Sent :=
  match prepare uri method body fields w with
  | .error e => { ending := some (.thrown e) }
  | .ok requestData => transmit requestData w

namespace Sending

/-- Nothing is written twice and nothing is left out. -/
theorem step_keeps {s t : Sending} {event : WriteEvent} (h : s.step event = .ok t) :
    t.wire ++ t.pending = s.wire ++ s.pending := by
  cases event with
  | accepted room =>
      cases h
      rw [List.append_assoc, List.take_append_drop]
  | timedOut => cases h
  | selectFailed errno => cases h
  | writeFailed errno => cases h

theorem loop_keeps (s : Sending) (events : List WriteEvent) :
    (s.loop events).1.wire ++ (s.loop events).1.pending = s.wire ++ s.pending := by
  induction events generalizing s with
  | nil => rfl
  | cons event events ih =>
      rw [loop]
      split
      next => rfl
      next =>
        split
        next => rfl
        next t taken => rw [ih t, step_keeps taken]

def totalRoom : List Nat → Nat
  | [] => 0
  | room :: rooms => room + totalRoom rooms

theorem loop_accepted (s : Sending) (rooms : List Nat)
    (enough : s.pending.length ≤ totalRoom rooms) :
    s.loop (rooms.map .accepted) = (⟨s.wire ++ s.pending, []⟩, none) := by
  induction rooms generalizing s with
  | nil =>
      have none_ : s.pending = [] := List.length_eq_zero_iff.mp (Nat.le_zero.mp enough)
      rw [List.map_nil, loop, none_, List.append_nil, ← none_]
  | cons room rooms ih =>
      rw [List.map_cons, loop]
      split
      next none_ => rw [none_, List.append_nil, ← none_]
      next =>
        change loop ⟨s.wire ++ s.pending.take room, s.pending.drop room⟩ _ = _
        rw [ih, List.append_assoc, List.take_append_drop]
        rw [totalRoom] at enough
        simp only [List.length_drop]
        omega

end Sending

section
variable {uri : Uri} {method body requestData : Bytes} {fields : List HeaderField} {w : World}

theorem transmit_cases (requestData : Bytes) (w : World) :
    ∃ s : Sending, s.wire ++ s.pending = requestData ∧
      ((∃ e, transmit requestData w = ⟨s.wire, some (.thrown e)⟩) ∨
        transmit requestData w = ⟨s.wire, none⟩ ∨
        (s.pending = [] ∧ transmit requestData w =
          ⟨s.wire, waitingOrEnded (receive w.version w.code w.reads)⟩)) := by
  have kept := Sending.loop_keeps { pending := requestData } w.writes
  rw [transmit]
  cases looped : Sending.loop { pending := requestData } w.writes with
  | mk s fault =>
      rw [looped] at kept
      refine ⟨s, kept, ?_⟩
      cases fault with
      | some e => exact Or.inl ⟨e, rfl⟩
      | none =>
          by_cases left : s.pending = []
          · exact Or.inr (Or.inr ⟨left, if_neg (not_not.mpr left)⟩)
          · exact Or.inr (Or.inl (if_pos left))

theorem transmit_accepted {rooms : List Nat} (writes : w.writes = rooms.map .accepted)
    (enough : requestData.length ≤ Sending.totalRoom rooms) :
    transmit requestData w =
      ⟨requestData, waitingOrEnded (receive w.version w.code w.reads)⟩ := by
  rw [transmit, writes, Sending.loop_accepted _ rooms enough]
  rfl

/-- What has to hold for anything to be written. -/
theorem prepare_eq_ok :
    prepare uri method body fields w = .ok requestData ↔
      w.lookup = .ok () ∧ encodeHtml uri method body fields = .ok requestData ∧
        w.socket.check = .ok () ∧ w.connect.check = .ok () := by
  constructor
  · intro h
    obtain ⟨_, -, h⟩ := bind_eq_ok h
    obtain ⟨_, lookup, h⟩ := bind_eq_ok h
    obtain ⟨data, encoded, h⟩ := bind_eq_ok h
    obtain ⟨_, socket, h⟩ := bind_eq_ok h
    obtain ⟨_, connect, h⟩ := bind_eq_ok h
    obtain rfl := Except.ok.inj h
    refine ⟨?_, encoded, socket, connect⟩
    cases found : w.lookup with
    | ok => rfl
    | error errno =>
        rw [found] at lookup
        cases lookup
  · rintro ⟨lookup, encoded, socket, connect⟩
    have scheme := (encodeHtml_eq_ok.mp encoded).1
    rw [prepare, Uri.checkScheme, if_neg (not_not.mpr scheme), lookup, encoded, socket, connect]
    rfl

theorem send_of_prepared (prepared : prepare uri method body fields w = .ok requestData) :
    send uri method body fields w = transmit requestData w := by
  rw [send, prepared]

theorem send_of_refused {e : HttpError} (refused : prepare uri method body fields w = .error e) :
    send uri method body fields w = ⟨[], some (.thrown e)⟩ := by
  rw [send, refused]

/-- A response is only returned for a request that has been written as a whole. -/
theorem send_returned {r : Response}
    (returned : (send uri method body fields w).ending = some (.returned r)) :
    encodeHtml uri method body fields = .ok (send uri method body fields w).wire ∧
      receive w.version w.code w.reads = .error (.returned r) := by
  cases prepared : prepare uri method body fields w with
  | error e =>
      rw [send_of_refused prepared] at returned
      cases returned
  | ok requestData =>
      obtain ⟨s, kept, ways⟩ := transmit_cases requestData w
      rw [send_of_prepared prepared] at returned ⊢
      obtain ⟨e, thrown⟩ | waiting | ⟨done, received⟩ := ways
      · rw [thrown] at returned
        cases returned
      · rw [waiting] at returned
        cases returned
      · rw [received] at returned ⊢
        rw [done, List.append_nil] at kept
        refine ⟨kept ▸ (prepare_eq_ok.mp prepared).2.1, ?_⟩
        cases ended : receive w.version w.code w.reads with
        | ok waiting =>
            rw [ended] at returned
            cases returned
        | error ending =>
            rw [ended] at returned
            exact congrArg Except.error (Option.some.inj returned)

end

/-- Whatever the system answers: what has been written is the beginning of the request, with
nothing twice and nothing left out, and a response is only returned for a request that has been
written as a whole. -/
theorem request_written_once (uri : Uri) (method body : Bytes) (fields : List HeaderField)
    (w : World) :
    ((send uri method body fields w).wire = [] ∨
      ∃ text, encodeHtml uri method body fields = .ok text ∧
        (send uri method body fields w).wire <+: text) ∧
    ∀ r, (send uri method body fields w).ending = some (.returned r) →
      encodeHtml uri method body fields = .ok (send uri method body fields w).wire := by
  refine ⟨?_, fun r returned => (send_returned returned).1⟩
  cases prepared : prepare uri method body fields w with
  | error e =>
      rw [send_of_refused prepared]
      exact Or.inl rfl
  | ok requestData =>
      obtain ⟨s, kept, ways⟩ := transmit_cases requestData w
      rw [send_of_prepared prepared]
      refine Or.inr ⟨requestData, (prepare_eq_ok.mp prepared).2.1, s.pending, ?_⟩
      obtain ⟨e, thrown⟩ | waiting | ⟨-, received⟩ := ways
      · rw [thrown, kept]
      · rw [waiting, kept]
      · rw [received, kept]

end Wadi.Http
