import Wadi.Encoder.Driver
import Wadi.Encoder.OutputPlane

/-!
The slots of `encoded_images` that are accessed. `InitEncode` allocates six images, as
many as it asks the capture plane for, and sets up ten output-plane buffers. `Encode`
takes its slot from the number of an output-plane buffer and the callback from that of
a capture buffer, so no run ends with an access outside of the array exactly when the
driver never hands out one of the last four output-plane buffers and grants at most six
capture buffers.
-/

namespace Wadi
open Runs JetsonEncoder

/-- The buffers a plane can hand out or finish have numbers below a bound. -/
structure Plane.Below (p : Plane) (bound : Nat) : Prop where
  held : ∀ i ∈ p.held, i < bound
  done : ∀ i ∈ p.done, i < bound

namespace Plane.Below

variable {p q : Plane} {bound i : Nat}

theorem dqBuffer {pick : Option Nat} (h : p.Below bound)
    (taken : p.dqBuffer pick = some (i, q)) :
    i < bound ∧ q.numBuffers = p.numBuffers ∧ q.Below bound := by
  obtain ⟨-, mem, rfl⟩ := Plane.dqBuffer_eq_some taken
  exact ⟨h.done i mem, rfl, h.held, fun k hk => h.done k (List.mem_of_mem_erase hk)⟩

theorem hold (h : p.Below bound) (hi : i < bound) :
    Plane.Below { p with held := p.held ++ [i] } bound := by
  refine ⟨fun k hk => ?_, h.done⟩
  obtain hk | rfl := List.mem_append.mp hk |>.imp_right List.mem_singleton.mp
  · exact h.held k hk
  · exact hi

theorem give (h : p.Below bound) (hi : i < bound) :
    Plane.Below { p with done := p.done ++ [i] } bound := by
  refine ⟨h.held, fun k hk => ?_⟩
  obtain hk | rfl := List.mem_append.mp hk |>.imp_right List.mem_singleton.mp
  · exact h.done k hk
  · exact hi

theorem finish (h : p.Below bound) (i : Nat) : (p.finish i).Below bound := by
  unfold Plane.finish
  split
  next mem =>
      have rest : Plane.Below { p with held := p.held.erase i } bound :=
        ⟨fun k hk => h.held k (List.mem_of_mem_erase hk), h.done⟩
      exact rest.give (h.held i mem)
  next => exact h

theorem abort (h : p.Below bound) (kept : Nat → Bool) : (p.abort kept).Below bound :=
  ⟨fun k hk => h.held k (List.mem_filter.mp hk).1,
    fun k hk => h.done k (List.mem_filter.mp hk).1⟩

end Plane.Below

/-- Both planes only know buffers that have a slot. -/
structure Served (enc : NvVideoEncoder) : Prop where
  setUp : enc.outputPlane.numBuffers = 10
  output : enc.outputPlane.Below 6
  granted : enc.capturePlane.numBuffers ≤ 6
  capture : enc.capturePlane.Below 6

namespace Served

variable {enc : NvVideoEncoder} {plane : Plane}

theorem withOutput (h : Served enc) (output : plane.Below 6)
    (setUp : plane.numBuffers = enc.outputPlane.numBuffers) (outputBuffers : List NvBuffer) :
    Served { enc with outputPlane := plane, outputBuffers := outputBuffers } :=
  ⟨setUp.trans h.setUp, output, h.granted, h.capture⟩

theorem withCapture (h : Served enc) (capture : plane.Below 6)
    (granted : plane.numBuffers = enc.capturePlane.numBuffers) :
    Served { enc with capturePlane := plane } :=
  ⟨h.setUp, h.output, granted ▸ h.granted, capture⟩

end Served

/-- The current array has six images, and every number in use is a slot of it. -/
structure Indexed (e : JetsonEncoder) : Prop where
  array : ∃ p, e.ctx.encodedImages = some p ∧
    (e.arrays.map (·.images.length))[p]? = some 6
  planes : ∀ enc, e.ctx.enc = some enc → Served enc
  thread : ∀ i, e.thread = .inCallback (some i) → i < 6

/-- No access to `encoded_images` falls outside of the current array. -/
def AccessesInRange (start : JetsonEncoder) (actions : List DriverAction) : Prop :=
  run driverStep start actions ≠ .error .imageOutOfRange

/-- The driver offers output-plane buffers from a given set and grants a given number
of capture buffers. -/
def HandsOut (offered : Nat → Prop) (granted : Nat) : DriverAction → Prop
  | .offer index => offered index
  | .encoder (.initEncode _ _ _ captureBuffers _) => captureBuffers = granted
  | .encoder _ => True

namespace Indexed

theorem initEncode {e f : JetsonEncoder} {width height : UInt32} {setup : Bool}
    {captureBuffers : Nat} {outputBuffers : List NvBuffer} (few : captureBuffers ≤ 6)
    (init : e.initEncode width height setup captureBuffers outputBuffers = .ok f) :
    Indexed f := by
  cases setup with
  | false => cases init
  | true =>
      obtain rfl := Except.ok.inj init
      refine ⟨⟨e.arrays.length, rfl, by simp⟩, ?_, by simp⟩
      rintro _ ⟨rfl⟩
      exact ⟨rfl, ⟨by simp, by simp⟩, few, ⟨by simp, by simp⟩⟩

section
variable {e f : JetsonEncoder}

theorem of_planes (h : Indexed e)
    (arrays : f.arrays.map (·.images.length) = e.arrays.map (·.images.length))
    (current : f.ctx.encodedImages = e.ctx.encodedImages)
    (planes : ∀ enc, f.ctx.enc = some enc → Served enc)
    (thread : ∀ i, f.thread = .inCallback (some i) → i < 6) : Indexed f :=
  ⟨by rw [arrays, current]; exact h.array, planes, thread⟩

theorem of_setEnc {enc : NvVideoEncoder} (h : Indexed e) (served : Served enc) :
    Indexed (e.setEnc enc) :=
  h.of_planes rfl rfl (fun _ same => Option.some.inj same ▸ served) h.thread

theorem offer {index : Nat} (h : Indexed e)
    (low : ∀ enc, e.ctx.enc = some enc → index < enc.outputPlane.numBuffers → index < 6) :
    Indexed (e.offer index) := by
  obtain same | ⟨enc, henc, inside, eq⟩ := offer_cases e index
  · rw [same]
    exact h
  · have served := h.planes enc henc
    rw [eq]
    exact h.of_setEnc (served.withOutput (served.output.give (low enc henc inside)) rfl _)

theorem enqueue {accepted : Bool} (h : Indexed e) (enqueued : e.enqueue accepted = .ok f) :
    Indexed f := by
  obtain ⟨-, rfl⟩ | ⟨i, enc, -, henc, ⟨inside, -, rfl⟩ | ⟨-, rfl⟩⟩ := enqueue_cases enqueued
  · exact h
  · have served := h.planes enc henc
    have held := served.capture.hold (Nat.lt_of_lt_of_le inside served.granted)
    have kept := h.of_setEnc (served.withCapture held rfl)
    exact kept.of_planes rfl rfl kept.planes kept.thread
  · exact h.of_planes rfl rfl h.planes h.thread

theorem length_set (array : ImageArray) (index : Nat) (image : EncodedImage) :
    (array.images.set index image).length = array.images.length :=
  List.length_set

theorem encode {frame : Frame} {o : EncodeOutcomes} (h : Indexed e)
    (step : encoderStep e (.encode frame o) = .ok f) : Indexed f := by
  obtain ⟨arrays, current⟩ := arrays_of_step (a := .encoder (.encode frame o))
    (·.images.length) length_set step (by simp) (by simp)
  obtain ⟨r, encoded⟩ := encode_of_step step
  obtain ⟨rfl, -⟩ | ⟨enc, index, plane, copied, reaches, rest⟩ := encode_cases encoded
  · exact h
  · have served := h.planes enc reaches.enc_eq
    obtain ⟨index_lt, count, below⟩ := served.output.dqBuffer reaches.dequeued
    have without := served.withOutput below count (enc.outputBuffers.set index copied)
    have again :=
      served.withOutput (below.hold index_lt) count (enc.outputBuffers.set index copied)
    obtain ⟨-, rfl⟩ | ⟨p, array, image, -, -, ⟨-, -, rfl⟩ | ⟨-, -, rfl⟩⟩ := rest
    · exact h.of_planes arrays current (h.of_setEnc without).planes h.thread
    · exact h.of_planes arrays current (h.of_setEnc again).planes h.thread
    · exact h.of_planes arrays current (h.of_setEnc without).planes h.thread

theorem dequeueCapture {pick : Option Nat} (h : Indexed e)
    (dequeued : e.dequeueCapture pick = .ok f) : Indexed f := by
  obtain ⟨-, rfl⟩ | ⟨-, enc, henc, ⟨-, rfl⟩ | ⟨i, plane, taken, rfl⟩⟩ :=
    dequeueCapture_cases dequeued
  · exact h
  · exact h.of_planes rfl rfl h.planes (by simp)
  · have served := h.planes enc henc
    obtain ⟨i_lt, count, below⟩ := served.capture.dqBuffer taken
    have kept := h.of_setEnc (served.withCapture below count)
    refine kept.of_planes rfl rfl kept.planes ?_
    rintro _ ⟨rfl⟩
    exact i_lt

theorem callback {o : CallbackOutcomes} (h : Indexed e) (returned : e.callback o = .ok f) :
    Indexed f := by
  obtain ⟨arrays, current⟩ := arrays_of_step (a := .encoder (.callback o))
    (·.images.length) length_set returned (by simp) (by simp)
  obtain ⟨-, rfl⟩ | ⟨buf, g, goOn, selected, running, called, rfl⟩ := callback_cases returned
  · exact h
  · refine h.of_planes arrays current ?_ (fun i stuck => by cases goOn <;> cases stuck)
    obtain ⟨enc, henc, rest⟩ := encoderCapturePlaneCallback_cases called
    have served := h.planes enc henc
    have aborted : Served { enc with
        outputPlane := enc.outputPlane.abort o.abort.outputKept
        capturePlane := enc.capturePlane.abort o.abort.captureKept } :=
      ⟨served.setUp, served.output.abort _, served.granted, served.capture.abort _⟩
    obtain ⟨-, rfl, -⟩ | ⟨index, p, array, image, rfl, -, -, -, ⟨-, -, rfl⟩ | ⟨-, -, rfl⟩⟩ := rest
    · exact (h.of_setEnc aborted).planes
    · exact (h.of_setEnc aborted).planes
    · have held := served.capture.hold (h.thread index running)
      exact (h.of_setEnc (served.withCapture held rfl)).planes

theorem finishOutput (h : Indexed e) (index : Nat) : Indexed (e.finishOutput index) := by
  obtain ⟨-, same⟩ | ⟨enc, henc, eq⟩ := finishOutput_cases e index
  · rw [same]
    exact h
  · have served := h.planes enc henc
    have count := enc.outputPlane.numBuffers_finish index
    rw [eq]
    exact h.of_setEnc (served.withOutput (served.output.finish index) count _)

theorem finishCapture (h : Indexed e) (index : Nat) : Indexed (e.finishCapture index) := by
  obtain ⟨-, same⟩ | ⟨enc, henc, eq⟩ := finishCapture_cases e index
  · rw [same]
    exact h
  · have served := h.planes enc henc
    have count := enc.capturePlane.numBuffers_finish index
    rw [eq]
    exact h.of_setEnc (served.withCapture (served.capture.finish index) count)

theorem release {inError : Bool} {code : Int} (h : Indexed e)
    (released : e.release inError = .ok (f, code)) : Indexed f := by
  obtain ⟨-, rfl⟩ | ⟨p, array, current, slot, -, rfl⟩ := release_cases released
  · exact h
  · refine h.of_planes ?_ rfl h.planes h.thread
    rw [List.map_set]
    have same : (e.arrays.map (·.images.length))[p]? = some array.images.length := by
      rw [List.getElem?_map, slot]
      rfl
    obtain ⟨inside, value⟩ := List.getElem?_eq_some_iff.mp same
    simp only [← value, List.set_getElem_self]

end

theorem step {offered : Nat → Prop} {granted : Nat} (low : ∀ i < 10, offered i → i < 6)
    (few : granted ≤ 6) {a : DriverAction} (handed : HandsOut offered granted a)
    {e f : JetsonEncoder} (h : Indexed e) (step : driverStep e a = .ok f) : Indexed f := by
  cases a with
  | offer index =>
      obtain rfl := Except.ok.inj step
      refine h.offer (fun enc henc inside => ?_)
      exact low index ((h.planes enc henc).setUp ▸ inside) handed
  | encoder a =>
      cases a with
      | initEncode width height setup captureBuffers outputBuffers =>
          have granted_eq : captureBuffers = granted := handed
          exact initEncode (granted_eq ▸ few) step
      | enqueue accepted => exact h.enqueue step
      | encode frame o => exact h.encode step
      | dequeueCapture pick => exact h.dequeueCapture step
      | callback o => exact h.callback step
      | finishOutput index => exact Except.ok.inj step ▸ h.finishOutput index
      | finishCapture index => exact Except.ok.inj step ▸ h.finishCapture index
      | release inError =>
          obtain ⟨code, released⟩ := release_of_step step
          exact h.release released

theorem useImage {e : JetsonEncoder} (h : Indexed e) {index : Nat} (low : index < 6) :
    e.useImage index ≠ .error .imageOutOfRange := by
  intro stop
  obtain ⟨p, current, length⟩ := h.array
  obtain null | ⟨q, array, same, slot, ⟨deleted, -⟩ | ⟨-, outside⟩⟩ := useImage_fault stop
  · cases null
  · cases deleted
  · obtain rfl : p = q := Option.some.inj (current.symm.trans same)
    rw [List.getElem?_map, slot] at length
    have six : array.images.length = 6 := Option.some.inj length
    omega

theorem inRange {e : JetsonEncoder} (h : Indexed e) (a : DriverAction) :
    driverStep e a ≠ .error .imageOutOfRange := by
  intro stop
  cases a with
  | offer index => cases stop
  | encoder a =>
      cases a with
      | initEncode width height setup captureBuffers outputBuffers => cases setup <;> cases stop
      | enqueue accepted => cases enqueue_fault stop
      | encode frame o =>
          obtain null | outside | ⟨enc, index, plane, copied, reaches, -, slot⟩ :=
            encode_fault (map_eq_error stop)
          · cases null
          · cases outside
          · have low := ((h.planes enc reaches.enc_eq).output.dqBuffer reaches.dequeued).1
            exact h.useImage low slot
      | dequeueCapture pick => cases dequeueCapture_fault stop
      | callback o =>
          obtain null | ⟨enc, index, -, running, -, slot⟩ := callback_fault stop
          · cases null
          · exact h.useImage (h.thread index running) slot
      | finishOutput index => cases stop
      | finishCapture index => cases stop
      | release inError =>
          obtain null | ⟨twice, -⟩ := release_fault (map_eq_error stop)
          · cases null
          · cases twice

end Indexed

theorem accesses_of_low {offered : Nat → Prop} {granted : Nat}
    (low : ∀ i < 10, offered i → i < 6) (few : granted ≤ 6) (start : JetsonEncoder)
    (width height : UInt32) (outputBuffers : List NvBuffer) (actions : List DriverAction)
    (handed : ∀ a ∈ actions, HandsOut offered granted a) :
    AccessesInRange start
      (.encoder (.initEncode width height true granted outputBuffers) :: actions) := by
  intro outside
  obtain ⟨pre, a, post, e, split, runs, stops⟩ := run_stops outside
  cases pre with
  | nil =>
      obtain ⟨rfl, -⟩ := List.cons.inj split
      cases stops
  | cons b pre =>
      obtain ⟨rfl, rfl⟩ := List.cons.inj split.symm
      obtain ⟨f, first, rest⟩ := run_cons_iff.mp runs
      have keep : ∀ c ∈ pre, ∀ s t, Indexed s → driverStep s c = .ok t → Indexed t :=
        fun c hc s t hs step => hs.step low few (handed c (by simp [hc])) step
      have init : start.initEncode width height true granted outputBuffers = .ok f := first
      have indexed : Indexed e := run_keeps Indexed keep (Indexed.initEncode few init) rest
      exact indexed.inRange a stops

def encodeInto (index : Nat) : DriverAction :=
  .encoder (.encode blankFrame { allSucceed with pick := some index })

def tenBuffers (granted : Nat) : DriverAction :=
  .encoder (.initEncode 640 480 true granted (List.replicate 10 blankBuffer))

theorem low_of_accesses {granted index : Nat} (inside : index < 10)
    (h : AccessesInRange {} [tenBuffers granted, .offer index, encodeInto index]) :
    index < 6 := by
  by_contra outside
  obtain rfl | rfl | rfl | rfl : index = 6 ∨ index = 7 ∨ index = 8 ∨ index = 9 := by omega
  all_goals exact h rfl

def seventhCaptured : List DriverAction :=
  List.replicate 7 (.encoder (.enqueue true)) ++
    [.encoder (.finishCapture 6), .encoder (.dequeueCapture (some 6))]

theorem few_of_accesses {granted : Nat}
    (h : AccessesInRange {}
      (tenBuffers granted :: (seventhCaptured ++ [.encoder (.callback {})]))) :
    granted ≤ 6 := by
  by_contra many
  obtain ⟨more, rfl⟩ : ∃ more, granted = more + 7 := ⟨granted - 7, by omega⟩
  exact h rfl

/-- No run has an access outside of the array exactly when the driver hands out none
of the output-plane buffers 6 to 9 and grants at most six capture buffers. -/
theorem accesses_inRange_iff (offered : Nat → Prop) (granted : Nat) :
    (∀ start width height outputBuffers actions,
      (∀ a ∈ actions, HandsOut offered granted a) →
      AccessesInRange start
        (.encoder (.initEncode width height true granted outputBuffers) :: actions)) ↔
    (∀ i < 10, offered i → i < 6) ∧ granted ≤ 6 := by
  constructor
  · intro h
    constructor
    · intro index inside offer
      refine low_of_accesses inside (h {} 640 480 _ _ ?_)
      simp [HandsOut, offer, encodeInto]
    · refine few_of_accesses (h {} 640 480 _ _ ?_)
      simp [HandsOut, seventhCaptured]
  · rintro ⟨low, few⟩ start width height outputBuffers actions handed
    exact accesses_of_low low few start width height outputBuffers actions handed

/-- With buffer 6 handed out, `Encode` writes behind the array. -/
theorem seventhBuffer_not_inRange :
    ¬ AccessesInRange {} [tenBuffers 6, .offer 6, encodeInto 6] := by
  intro h
  exact h rfl

end Wadi
