import Wadi.Encoder.Steps

/-!
The output plane is never given a buffer. `InitEncode` sets up ten buffers but
queues none of them, and `Encode` begins by dequeuing one: there is nothing to
dequeue, the call fails, and the only code that would queue a buffer is never
reached. This holds in every state of every run.
-/

namespace Wadi
open Runs JetsonEncoder

/-- There is an encoder, none of its output-plane buffers is with the hardware or
waiting to be dequeued, and no frame has been queued. -/
def OutputIdle (e : JetsonEncoder) : Prop :=
  ∃ enc, e.ctx.enc = some enc ∧ enc.outputPlane.held = [] ∧ enc.outputPlane.done = [] ∧
    e.ctx.inputFramesQueuedCount = 0

/-- Unless the hardware holds all ten output-plane buffers, one can be dequeued. -/
def OutputServed (e : JetsonEncoder) : Prop :=
  ∀ enc, e.ctx.enc = some enc → enc.outputPlane.held.length < 10 →
    ∃ pick, enc.outputPlane.dqBuffer pick ≠ none

theorem dqBuffer_of_done_nil {p : Plane} (h : p.done = []) (pick : Option Nat) :
    p.dqBuffer pick = none := by
  cases pick <;> simp [Plane.dqBuffer, h]

theorem finish_of_held_nil {p : Plane} (h : p.held = []) (i : Nat) : p.finish i = p := by
  simp [Plane.finish, h]

theorem encode_of_outputIdle {e : JetsonEncoder} (idle : OutputIdle e) (frame : Frame)
    (o : EncodeOutcomes) : e.encode frame o = .ok (e, .dqFailed) := by
  obtain ⟨enc, henc, -, done, -⟩ := idle
  exact encode_of_dqFailed henc frame (dqBuffer_of_done_nil done o.pick)

theorem OutputIdle.not_served {e : JetsonEncoder} (idle : OutputIdle e) : ¬ OutputServed e := by
  intro served
  obtain ⟨enc, henc, held, done, -⟩ := idle
  obtain ⟨pick, ok⟩ := served enc henc (by simp [held])
  exact ok (dqBuffer_of_done_nil done pick)

theorem OutputIdle.of_sameOutput {e f : JetsonEncoder} (idle : OutputIdle e)
    (same : SameOutput e f) : OutputIdle f := by
  obtain ⟨enc, henc, held, done, zero⟩ := idle
  have plane := same.plane
  rw [henc] at plane
  obtain ⟨enc', henc', plane⟩ := Option.map_eq_some_iff.mp plane
  exact ⟨enc', henc', plane ▸ held, plane ▸ done, same.count.trans zero⟩

theorem outputIdle_initEncode {e f : JetsonEncoder} {width height : UInt32} {setup : Bool}
    {captureBuffers : Nat} {outputBuffers : List NvBuffer}
    (h : e.initEncode width height setup captureBuffers outputBuffers = .ok f) :
    OutputIdle f := by
  cases setup with
  | false => cases h
  | true =>
      obtain rfl := Except.ok.inj h
      exact ⟨_, rfl, rfl, rfl, rfl⟩

theorem outputIdle_step (e : JetsonEncoder) (a : EncoderAction) (f : JetsonEncoder)
    (idle : OutputIdle e) (h : encoderStep e a = .ok f) : OutputIdle f := by
  cases a with
  | initEncode width height setup captureBuffers outputBuffers => exact outputIdle_initEncode h
  | encode frame o =>
      rw [encoderStep, encode_of_outputIdle idle] at h
      exact Except.ok.inj h ▸ idle
  | finishOutput index =>
      obtain rfl := Except.ok.inj h
      obtain ⟨enc, henc, held, done, zero⟩ := idle
      have same := finish_of_held_nil held index
      refine ⟨{ enc with outputPlane := enc.outputPlane.finish index }, ?_, ?_, ?_, ?_⟩
      · simp [finishOutput, henc]
      · simp [same, held]
      · simp [same, done]
      · simp [finishOutput, henc, zero]
  | callback o =>
      obtain ⟨-, same⟩ | ⟨-, count, enc, enc', henc, henc', plane⟩ := output_of_callback h
      · exact idle.of_sameOutput same
      · obtain ⟨_, henc'', held, done, zero⟩ := idle
        obtain rfl := Option.some.inj (henc.symm.trans henc'')
        refine ⟨enc', henc', ?_, ?_, count.trans zero⟩
        · rw [plane, Plane.abort, held, List.filter_nil]
        · rw [plane, Plane.abort, done, List.filter_nil]
  | enqueue _ | dequeueCapture _ | finishCapture _ | release _ =>
      exact idle.of_sameOutput (sameOutput_of_step rfl h)

/-- In every state that follows an `InitEncode`, the hardware holds no output-plane
buffer, none can be dequeued, and every `Encode` fails for lack of one. -/
theorem encode_never_served (start e : JetsonEncoder) (width height : UInt32)
    (captureBuffers : Nat) (outputBuffers : List NvBuffer) (actions : List EncoderAction)
    (runs : run encoderStep start
      (.initEncode width height true captureBuffers outputBuffers :: actions) = .ok e) :
    ¬ OutputServed e ∧
      (∀ frame o, ∃ result, e.encode frame o = .ok (e, result) ∧ result = .dqFailed ∧
        result.code = -1) ∧
      e.ctx.inputFramesQueuedCount = 0 := by
  obtain ⟨f, first, rest⟩ := run_cons_iff.mp runs
  have idle : OutputIdle e :=
    run_invariant OutputIdle outputIdle_step (outputIdle_initEncode first) rest
  refine ⟨idle.not_served, fun frame o => ?_, ?_⟩
  · exact ⟨.dqFailed, encode_of_outputIdle idle frame o, rfl, rfl⟩
  · obtain ⟨-, -, -, -, zero⟩ := idle
    exact zero

def blankBuffer : NvBuffer := ⟨⟨[], 0⟩, ⟨[], 0⟩, ⟨[], 0⟩, 3⟩

def blankFrame : Frame := ⟨[], [], [], 0, 0, 0, .deg0, none⟩

def allSucceed : EncodeOutcomes := ⟨some 0, fun _ => true, fun _ => true, true⟩

/-- With a finished buffer on the output plane the frame is queued. -/
example : (JetsonEncoder.encode
    { ctx := { enc := some ⟨{ numBuffers := 10, done := [0] }, {}, [blankBuffer]⟩,
               encodedImages := some 0 },
      arrays := [{ images := [{}] }] } blankFrame allSucceed).map Prod.snd = .ok .queued :=
  rfl

def initialised : List EncoderAction :=
  .initEncode 640 480 true 6 (List.replicate 10 blankBuffer) ::
    List.replicate 7 (.enqueue true)

theorem initialised_encode_never_served :
    ∃ e, run encoderStep {} (initialised ++ [.encode blankFrame allSucceed]) = .ok e ∧
      ¬ OutputServed e ∧ e.ctx.inputFramesQueuedCount = 0 := by
  refine ⟨_, rfl, ?_⟩
  have never := encode_never_served {} _ 640 480 6 (List.replicate 10 blankBuffer)
    (List.replicate 7 (.enqueue true) ++ [.encode blankFrame allSucceed]) rfl
  exact ⟨never.1, never.2.2⟩

/-- After a complete `InitEncode` nothing can be dequeued, and the first `Encode`
fails although the hardware holds no buffer. -/
theorem initialised_not_served :
    ∃ e enc, run encoderStep {} initialised = .ok e ∧ e.enqueueing = none ∧
      e.ctx.enc = some enc ∧ enc.outputPlane.held.length < 10 ∧ ¬ OutputServed e ∧
      e.encode blankFrame allSucceed = .ok (e, .dqFailed) := by
  refine ⟨_, _, rfl, rfl, rfl, by decide, fun served => ?_, rfl⟩
  obtain ⟨pick, ok⟩ := served _ rfl (by decide)
  exact ok (dqBuffer_of_done_nil rfl pick)

end Wadi
