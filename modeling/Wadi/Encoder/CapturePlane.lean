import Wadi.Encoder.BufferLoss

/-!
Capture-plane buffers while `InitEncode` fills the plane. The thread that serves the
plane runs from before the first turn of the loop, so at any moment a buffer is still
to be enqueued by the loop, with the driver, or held by the callback. A step moves a
buffer from one of these places to another. It loses one only when the loop's call is
refused or a callback gives up, and the callback then raises the error flag.
-/

namespace Wadi
open Runs

/-- The buffers a loop that has come to a given number has still to enqueue. -/
def Plane.notEnqueued (p : Plane) : Option Nat → List Nat
  | none => []
  | some i => List.range' i (p.numBuffers - i)

/-- The buffers queued and not dequeued since. -/
def Plane.queued (p : Plane) : List Nat := p.held ++ p.done

def DqThread.holds : DqThread → List Nat
  | .inCallback (some i) => [i]
  | _ => []

namespace JetsonEncoder

def capturePlane (e : JetsonEncoder) : Plane :=
  match e.ctx.enc with
  | none => {}
  | some enc => enc.capturePlane

/-- The capture buffers in all places, with repetitions. -/
def places (e : JetsonEncoder) : List Nat :=
  e.capturePlane.notEnqueued e.enqueueing ++ e.capturePlane.queued ++ e.thread.holds

end JetsonEncoder

open JetsonEncoder

def EnqueueFails (e : JetsonEncoder) : EncoderAction → Prop
  | .enqueue accepted => ∃ i, e.enqueueing = some i ∧ i < e.capturePlane.numBuffers ∧
      accepted = false
  | _ => False

namespace Plane

theorem notEnqueued_of_lt {p : Plane} {i : Nat} (h : i < p.numBuffers) :
    p.notEnqueued (some i) = i :: p.notEnqueued (some (i + 1)) := by
  have left : p.numBuffers - i = p.numBuffers - (i + 1) + 1 := by omega
  rw [notEnqueued, left, List.range'_succ]
  rfl

theorem notEnqueued_of_le {p : Plane} {i : Nat} (h : p.numBuffers ≤ i) :
    p.notEnqueued (some i) = [] := by
  rw [notEnqueued, Nat.sub_eq_zero_of_le h]
  rfl

theorem notEnqueued_congr {p q : Plane} (h : p.numBuffers = q.numBuffers) (loop : Option Nat) :
    p.notEnqueued loop = q.notEnqueued loop := by
  cases loop with
  | none => rfl
  | some i => rw [notEnqueued, notEnqueued, h]

theorem queued_hold (p : Plane) (i : Nat) :
    (Plane.queued { p with held := p.held ++ [i] }).Perm (i :: p.queued) := by
  rw [queued, List.append_assoc]
  exact List.perm_middle

theorem queued_abort (p : Plane) (kept : Nat → Bool) : (p.abort kept).queued.Sublist p.queued :=
  List.filter_sublist.append List.filter_sublist

theorem perm_of_take {p q : Plane} {i : Nat} (turn : (i :: q.queued).Perm p.queued)
    (loop : Option Nat) :
    (p.notEnqueued loop ++ q.queued ++ [i]).Perm (p.notEnqueued loop ++ p.queued ++ []) := by
  rw [List.append_nil, List.append_assoc]
  exact ((List.perm_append_singleton i _).trans turn).append_left _

theorem perm_of_return (p : Plane) (i : Nat) (loop : Option Nat) :
    (p.notEnqueued loop ++ Plane.queued { p with held := p.held ++ [i] } ++ []).Perm
      (p.notEnqueued loop ++ p.queued ++ [i]) :=
  (perm_of_take (p.queued_hold i).symm loop).symm

end Plane

namespace JetsonEncoder

theorem capturePlane_of_enc {e : JetsonEncoder} {enc : NvVideoEncoder}
    (h : e.ctx.enc = some enc) : e.capturePlane = enc.capturePlane := by
  rw [capturePlane, h]

theorem places_eq (e : JetsonEncoder) {plane : Plane} {thread : DqThread}
    (hp : e.capturePlane = plane) (ht : e.thread = thread) :
    e.places = plane.notEnqueued e.enqueueing ++ plane.queued ++ thread.holds := by
  rw [places, hp, ht]

theorem places_congr {e f : JetsonEncoder} (plane : f.capturePlane = e.capturePlane)
    (loop : f.enqueueing = e.enqueueing) (thread : f.thread = e.thread) :
    f.places = e.places := by
  rw [places, places, plane, loop, thread]

end JetsonEncoder

/-- What a step of a session does to the capture buffers. -/
structure MovesBuffers (e : JetsonEncoder) (a : EncoderAction) (f : JetsonEncoder) : Prop where
  numBuffers : f.capturePlane.numBuffers = e.capturePlane.numBuffers
  gotError : e.ctx.gotError = true → f.ctx.gotError = true
  kept : f.places.Perm e.places ∨
    (f.places.Sublist e.places ∧ (EnqueueFails e a ∨ f.ctx.gotError = true))

namespace MovesBuffers

variable {e f : JetsonEncoder} {a : EncoderAction}

theorem of_same (plane : f.capturePlane = e.capturePlane)
    (loop : f.enqueueing = e.enqueueing) (thread : f.thread = e.thread)
    (error : f.ctx.gotError = e.ctx.gotError) : MovesBuffers e a f :=
  ⟨by rw [plane], fun h => error.trans h, Or.inl (places_congr plane loop thread ▸ .rfl)⟩

theorem enqueue {accepted : Bool} (h : e.enqueue accepted = .ok f) :
    MovesBuffers e (.enqueue accepted) f := by
  obtain ⟨-, rfl⟩ | ⟨i, enc, loop, henc, ⟨inside, -, rfl⟩ | ⟨refused, rfl⟩⟩ := enqueue_cases h
  · exact of_same rfl rfl rfl rfl
  · have plane := capturePlane_of_enc henc
    refine ⟨by rw [plane]; rfl, id, Or.inl (List.Perm.append_right _ ?_)⟩
    rw [loop, plane, Plane.notEnqueued_of_lt inside]
    exact ((enc.capturePlane.queued_hold i).append_left _).trans List.perm_middle
  · refine ⟨rfl, id, ?_⟩
    -- the loop has ended: a buffer was refused, or there was none left to enqueue
    by_cases inside : i < e.capturePlane.numBuffers
    · refine Or.inr ⟨?_, Or.inl ⟨i, loop, inside, refused (capturePlane_of_enc henc ▸ inside)⟩⟩
      exact ((List.nil_sublist _).append_right _).append_right _
    · have finished := Plane.notEnqueued_of_le (Nat.not_lt.mp inside)
      rw [← loop] at finished
      rw [JetsonEncoder.places, JetsonEncoder.places, finished]
      exact Or.inl .rfl

theorem dequeueCapture {pick : Option Nat} (h : e.dequeueCapture pick = .ok f) :
    MovesBuffers e (.dequeueCapture pick) f := by
  obtain ⟨-, rfl⟩ | ⟨waiting, enc, henc, ⟨-, rfl⟩ | ⟨i, plane, took, rfl⟩⟩ :=
    dequeueCapture_cases h
  · exact of_same rfl rfl rfl rfl
  · refine ⟨rfl, id, Or.inl ?_⟩
    rw [e.places_eq rfl waiting]
    exact .rfl
  · obtain ⟨-, -, rfl⟩ := Plane.dqBuffer_eq_some took
    have plane := capturePlane_of_enc henc
    have turn := (Plane.perm_of_dqBuffer took).symm
    refine ⟨by rw [plane]; rfl, id, Or.inl ?_⟩
    rw [e.places_eq plane waiting]
    exact Plane.perm_of_take turn e.enqueueing

theorem of_abort {enc : NvVideoEncoder} {kept : Nat → Bool} (henc : e.ctx.enc = some enc)
    (plane : f.capturePlane = enc.capturePlane.abort kept) (loop : f.enqueueing = e.enqueueing)
    (thread : f.thread = .stopped) (error : f.ctx.gotError = true) : MovesBuffers e a f := by
  have before := capturePlane_of_enc henc
  refine ⟨by rw [plane, before]; rfl, fun _ => error, Or.inr ⟨?_, Or.inr error⟩⟩
  rw [f.places_eq plane thread, e.places_eq before rfl, loop]
  exact ((enc.capturePlane.queued_abort kept).append_left _).append (List.nil_sublist _)

theorem callback {o : CallbackOutcomes} (h : e.callback o = .ok f) :
    MovesBuffers e (.callback o) f := by
  obtain ⟨-, rfl⟩ | ⟨buf, g, goOn, selected, thread, called, rfl⟩ := callback_cases h
  · exact of_same rfl rfl rfl rfl
  · obtain ⟨enc, henc, ⟨-, rfl, rfl, -⟩ | ⟨index, p, array, image, rfl, -, -, -,
      ⟨-, rfl, rfl⟩ | ⟨-, rfl, rfl⟩⟩⟩ := encoderCapturePlaneCallback_cases called
    · exact of_abort henc rfl rfl rfl rfl
    · exact of_abort henc rfl rfl rfl rfl
    · have plane := capturePlane_of_enc henc
      refine ⟨by rw [plane]; rfl, id, Or.inl ?_⟩
      rw [e.places_eq plane thread]
      exact enc.capturePlane.perm_of_return index e.enqueueing

theorem encode {frame : Frame} {o : EncodeOutcomes} {r : EncodeResult}
    (h : e.encode frame o = .ok (f, r)) : MovesBuffers e (.encode frame o) f := by
  obtain ⟨rfl, -⟩ | ⟨enc, index, plane, copied, reaches, ⟨-, rfl⟩ | ⟨p, array, image, -, -,
    ⟨-, -, rfl⟩ | ⟨-, -, rfl⟩⟩⟩ := encode_cases h
  · exact of_same rfl rfl rfl rfl
  all_goals exact of_same (capturePlane_of_enc reaches.enc_eq).symm rfl rfl rfl

theorem finishOutput (e : JetsonEncoder) (index : Nat) :
    MovesBuffers e (.finishOutput index) (e.finishOutput index) := by
  obtain ⟨-, same⟩ | ⟨enc, henc, eq⟩ := finishOutput_cases e index
  · rw [same]
    exact of_same rfl rfl rfl rfl
  · rw [eq]
    exact of_same (capturePlane_of_enc henc).symm rfl rfl rfl

theorem finishCapture (e : JetsonEncoder) (index : Nat) :
    MovesBuffers e (.finishCapture index) (e.finishCapture index) := by
  obtain ⟨-, same⟩ | ⟨enc, henc, eq⟩ := finishCapture_cases e index
  · rw [same]
    exact of_same rfl rfl rfl rfl
  · have plane := capturePlane_of_enc henc
    have count := enc.capturePlane.numBuffers_finish index
    rw [eq]
    refine ⟨by rw [plane]; exact count, id, Or.inl (List.Perm.append_right _ ?_)⟩
    rw [plane, Plane.notEnqueued_congr count.symm]
    exact (enc.capturePlane.perm_of_finish index).append_left _

theorem release {inError : Bool} {code : Int} (h : e.release inError = .ok (f, code)) :
    MovesBuffers e (.release inError) f := by
  obtain ⟨-, rfl⟩ | ⟨p, array, -, -, -, rfl⟩ := release_cases h
  · exact of_same rfl rfl rfl rfl
  · exact of_same rfl rfl rfl rfl

theorem of_step (session : a.restarts = false) (h : encoderStep e a = .ok f) :
    MovesBuffers e a f := by
  cases a with
  | initEncode width height setup captureBuffers outputBuffers => cases session
  | enqueue accepted => exact enqueue h
  | encode frame o =>
      obtain ⟨r, encoded⟩ := encode_of_step h
      exact encode encoded
  | dequeueCapture pick => exact dequeueCapture h
  | callback o => exact callback h
  | finishOutput index => exact Except.ok.inj h ▸ finishOutput e index
  | finishCapture index => exact Except.ok.inj h ▸ finishCapture e index
  | release inError =>
      obtain ⟨code, released⟩ := release_of_step h
      exact release released

end MovesBuffers

section
variable {e f : JetsonEncoder} {actions : List EncoderAction}

theorem numBuffers_of_run (session : ∀ a ∈ actions, a.restarts = false)
    (runs : run encoderStep e actions = .ok f) :
    f.capturePlane.numBuffers = e.capturePlane.numBuffers := by
  refine run_keeps (fun g => g.capturePlane.numBuffers = e.capturePlane.numBuffers) ?_ rfl runs
  intro a ha g h same step
  exact (MovesBuffers.of_step (session a ha) step).numBuffers.trans same

/-- A buffer is never in two places, also where some were lost. -/
theorem places_nodup_of_run (session : ∀ a ∈ actions, a.restarts = false)
    (runs : run encoderStep e actions = .ok f) (start : e.places.Nodup) : f.places.Nodup := by
  refine run_keeps (fun g => g.places.Nodup) ?_ start runs
  intro a ha g h once step
  obtain same | ⟨fewer, -⟩ := (MovesBuffers.of_step (session a ha) step).kept
  · exact same.nodup_iff.mpr once
  · exact once.sublist fewer

/-- No buffer is lost unless the error flag is up or the loop failed. -/
theorem places_perm_of_run (session : ∀ a ∈ actions, a.restarts = false)
    (enqueued : EveryStep encoderStep (fun g a => ¬ EnqueueFails g a) e actions)
    (runs : run encoderStep e actions = .ok f) (fine : f.ctx.gotError = false) :
    f.places.Perm e.places := by
  have guarded : EveryStep encoderStep
      (fun g a => a.restarts = false ∧ ¬ EnqueueFails g a) e actions := by
    intro pre a post g split before
    exact ⟨session a (by simp [split]), enqueued pre a post g split before⟩
  have always : Always encoderStep
      (fun g => g.ctx.gotError = true ∨ g.places.Perm e.places) e actions := by
    refine always_of_everyStep _ ?_ (Or.inr .rfl) guarded
    intro g a h before meets step
    have moves := MovesBuffers.of_step meets.1 step
    obtain error | same := before
    · exact Or.inl (moves.gotError error)
    · obtain kept | ⟨-, fails | error⟩ := moves.kept
      · exact Or.inr (kept.trans same)
      · exact absurd fails meets.2
      · exact Or.inl error
  obtain error | same := always actions [] f (by simp) runs
  · simp [error] at fine
  · exact same

end

theorem places_initEncode {e g : JetsonEncoder} {width height : UInt32} {setup : Bool}
    {captureBuffers : Nat} {outputBuffers : List NvBuffer}
    (h : e.initEncode width height setup captureBuffers outputBuffers = .ok g) :
    g.capturePlane.numBuffers = captureBuffers ∧ g.places = List.range captureBuffers := by
  cases setup with
  | false => cases h
  | true =>
      obtain rfl := Except.ok.inj h
      refine ⟨rfl, ?_⟩
      simp [places, capturePlane, Plane.notEnqueued, Plane.queued, DqThread.holds,
        List.range_eq_range']

/-- A callback that does not queue its buffer again raises the flag and stops the thread. -/
theorem gotError_of_not_queued {e f : JetsonEncoder} {buf : Option Nat} {o : CallbackOutcomes}
    {goOn : Bool} {selected : Option EncodedImage}
    (h : e.encoderCapturePlaneCallback buf o = .ok (f, goOn, selected))
    (gone : ∀ i, buf = some i → i ∉ f.capturePlane.queued) :
    f.ctx.gotError = true ∧ goOn = false := by
  obtain ⟨enc, -, ⟨-, rfl, rfl, -⟩ | ⟨index, p, array, image, rfl, -, -, -, ⟨-, rfl, rfl⟩ |
    ⟨-, -, rfl⟩⟩⟩ := encoderCapturePlaneCallback_cases h
  · exact ⟨rfl, rfl⟩
  · exact ⟨rfl, rfl⟩
  · have back := (enc.capturePlane.queued_hold index).mem_iff (a := index)
    exact absurd (back.mpr List.mem_cons_self) (gone index rfl)

/-- The capture buffers of a session, in every state it can reach from the moment the
thread is started: each of them is in exactly one place. -/
theorem captureBuffers_conserved {e g f : JetsonEncoder} {width height : UInt32} {setup : Bool}
    {captureBuffers : Nat} {outputBuffers : List NvBuffer} {actions : List EncoderAction}
    (starts : e.initEncode width height setup captureBuffers outputBuffers = .ok g)
    (session : ∀ a ∈ actions, a.restarts = false) (runs : run encoderStep g actions = .ok f) :
    f.capturePlane.numBuffers = captureBuffers ∧ f.places.Nodup ∧
    (f.ctx.gotError = false →
      EveryStep encoderStep (fun h a => ¬ EnqueueFails h a) g actions →
      f.places.Perm (List.range captureBuffers)) ∧
    ∀ buf o h goOn selected,
      f.encoderCapturePlaneCallback buf o = .ok (h, goOn, selected) →
      (∀ i, buf = some i → i ∉ h.capturePlane.queued) →
      h.ctx.gotError = true ∧ goOn = false := by
  obtain ⟨count, start⟩ := places_initEncode starts
  refine ⟨(numBuffers_of_run session runs).trans count, ?_, ?_, ?_⟩
  · exact places_nodup_of_run session runs (start ▸ List.nodup_range)
  · intro fine enqueued
    exact start ▸ places_perm_of_run session enqueued runs fine
  · intro buf o h goOn selected called gone
    exact gotError_of_not_queued called gone

def overtaken : List EncoderAction :=
  [.enqueue true, .finishCapture 0, .dequeueCapture (some 0), .callback {}, .enqueue true,
    .enqueue true]

theorem overtaken_conserved :
    ∃ g f, ({} : JetsonEncoder).initEncode 64 48 true 2 [] = .ok g ∧
      run encoderStep g overtaken = .ok f ∧ f.places.Perm (List.range 2) := by
  have session : ∀ a ∈ overtaken, a.restarts = false := by decide
  have starts : ({} : JetsonEncoder).initEncode 64 48 true 2 [] = .ok _ := rfl
  refine ⟨_, _, starts, rfl, (captureBuffers_conserved starts session rfl).2.2.1 rfl ?_⟩
  refine .cons ?_ rfl (.cons id rfl (.cons id rfl (.cons id rfl (.cons ?_ rfl
    (.cons ?_ rfl (.nil _))))))
  all_goals
    rintro ⟨i, -, -, refused⟩
    cases refused

end Wadi
