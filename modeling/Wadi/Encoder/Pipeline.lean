import Mathlib.Data.List.Pairwise
import Wadi.Encoder.Driver
import Wadi.Encoder.OutputPlane

/-!
Frames on their way through the encoder. The hardware takes queued frames in order and
puts the bitstream of each into a capture buffer of its choice; the buffers are dequeued
in the order they were filled. A pipeline is an encoder together with where the frames
are: which calls filed metadata and in which output-plane buffer, which frames wait for
the hardware, which capture buffers hold which frames, and whose bitstream the running
callback has.

`Encode` files metadata under the number of an output-plane buffer and the callback looks
it up under that of a capture buffer. The callback finds the metadata of its own frame
when the two numbers are the same and no later call has been handed that output-plane
buffer, and for frames that can be told apart only then.
-/

namespace Wadi
open Runs JetsonEncoder

/-- A call of `Encode` that got as far as filing metadata, with the output-plane buffer it
was handed and its frame. -/
structure Job where
  number : Nat
  buffer : Nat
  frame : Frame
  deriving DecidableEq, Repr

/-- `calls` has the latest first; `queue` and `coded` have the oldest first. -/
structure Pipeline where
  encoder : JetsonEncoder
  calls : List Job := []
  queue : List Job := []
  coded : List (Nat × Job) := []
  current : Option Job := none

inductive PipelineAction where
  | encode (frame : Frame) (o : EncodeOutcomes)
  | offer (index : Nat)
  | finishOutput (index : Nat)
  | enqueue (accepted : Bool)
  | code (capture : Nat)
  | dequeueCapture
  | callback (o : CallbackOutcomes)

namespace Pipeline

/-- The pipeline after an `Encode`; `pick` is the buffer the hardware handed it. -/
def afterEncode (p : Pipeline) (e : JetsonEncoder) (frame : Frame) (result : EncodeResult)
    (pick : Option Nat) : Pipeline :=
  match result.filed, pick with
  | true, some buffer =>
      let job : Job := ⟨p.calls.length, buffer, frame⟩
      { p with
        encoder := e
        calls := job :: p.calls
        queue := if result = .queued then p.queue ++ [job] else p.queue }
  | _, _ => { p with encoder := e }

theorem afterEncode_of_failed {p : Pipeline} {e : JetsonEncoder} {frame : Frame}
    {result : EncodeResult} {pick : Option Nat} (h : result.filed = false) :
    p.afterEncode e frame result pick = { p with encoder := e } := by
  simp [afterEncode, h]

theorem afterEncode_of_filed {p : Pipeline} {e : JetsonEncoder} {frame : Frame}
    {result : EncodeResult} {buffer : Nat} (h : result.filed = true) :
    p.afterEncode e frame result (some buffer) = { p with
      encoder := e
      calls := ⟨p.calls.length, buffer, frame⟩ :: p.calls
      queue := if result = .queued then p.queue ++ [⟨p.calls.length, buffer, frame⟩]
        else p.queue } := by
  simp [afterEncode, h]

/-- The oldest waiting frame is coded into a capture buffer the hardware holds. -/
def code (p : Pipeline) (capture : Nat) : Pipeline :=
  match p.queue, p.encoder.ctx.enc with
  | job :: rest, some enc =>
      if capture ∈ enc.capturePlane.held then
        { p with
          encoder := p.encoder.finishCapture capture
          queue := rest
          coded := p.coded ++ [(capture, job)] }
      else p
  | _, _ => p

end Pipeline

def pipelineStep (p : Pipeline) : PipelineAction → Except EncoderFault Pipeline
  | .encode frame o => do
      let (e, result) ← p.encoder.encode frame o
      return p.afterEncode e frame result o.pick
  | .offer index => .ok { p with encoder := p.encoder.offer index }
  | .finishOutput index => .ok { p with encoder := p.encoder.finishOutput index }
  | .enqueue accepted => do
      let e ← p.encoder.enqueue accepted
      return { p with encoder := e }
  | .code capture => .ok (p.code capture)
  | .dequeueCapture =>
      if p.encoder.thread = .waiting then do
        let e ← p.encoder.dequeueCapture (p.coded.head?.map Prod.fst)
        return { p with
          encoder := e, coded := p.coded.tail, current := p.coded.head?.map Prod.snd }
      else .ok p
  | .callback o => do
      let e ← p.encoder.callback o
      return { p with encoder := e, current := none }

/-- What tells the images of two frames apart, apart from their size. -/
def Frame.metadata (frame : Frame) : UInt32 × Int × Int × Rotation :=
  (frame.timestamp, frame.ntpTimeMs, frame.renderTimeMs, frame.rotation)

def EncodedImage.metadata (image : EncodedImage) : UInt32 × Int × Int × Rotation :=
  (image.timestamp, image.ntpTimeMs, image.captureTimeMs, image.rotation)

namespace JetsonEncoder

/-- The images of the current array, as long as it is live. -/
def slots (e : JetsonEncoder) : List EncodedImage :=
  match e.ctx.encodedImages.bind (fun p => e.arrays[p]?) with
  | none => []
  | some array => if array.deleted then [] else array.images

/-- An image carries what `Encode` records for a frame. -/
def Records (e : JetsonEncoder) (frame : Frame) (image : EncodedImage) : Prop :=
  image.encodedWidth = e.ctx.encodeWidth ∧ image.encodedHeight = e.ctx.encodeHeight ∧
    image.metadata = frame.metadata

end JetsonEncoder

/-- A callback with a filled buffer selects an image with what was recorded for the frame
whose bitstream it has. -/
def FindsItsFrame (p : Pipeline) : PipelineAction → Prop
  | .callback o => ∀ k, p.encoder.thread = .inCallback (some k) → o.bytesused ≠ 0 →
      ∃ job f goOn image, p.current = some job ∧
        p.encoder.encoderCapturePlaneCallback (some k) o = .ok (f, goOn, some image) ∧
        p.encoder.Records job.frame image
  | _ => True

/-- The frame of the callback was encoded in the output-plane buffer with the number of the
capture buffer, and no later call was handed that buffer. -/
def NumbersAgree (p : Pipeline) : PipelineAction → Prop
  | .callback o => ∀ k, p.encoder.thread = .inCallback (some k) → o.bytesused ≠ 0 →
      ∃ job, p.current = some job ∧ job.buffer = k ∧
        ∀ later ∈ p.calls, job.number < later.number → later.buffer ≠ k
  | _ => True

namespace JetsonEncoder

theorem slots_of_useImage {e : JetsonEncoder} {k p : Nat} {array : ImageArray}
    {image : EncodedImage} (h : e.useImage k = .ok (p, array, image)) :
    e.slots = array.images ∧ array.images[k]? = some image := by
  obtain ⟨current, slot, live, found⟩ := useImage_ok h
  simp [slots, current, slot, live, found]

theorem useImage_of_slots {e : JetsonEncoder} {k : Nat} {image : EncodedImage}
    (h : e.slots[k]? = some image) : ∃ p array, e.useImage k = .ok (p, array, image) := by
  unfold slots at h
  cases current : e.ctx.encodedImages with
  | none => simp [current] at h
  | some p =>
      cases slot : e.arrays[p]? with
      | none => simp [current, slot] at h
      | some array =>
          cases live : array.deleted with
          | true => simp [current, slot, live] at h
          | false =>
              simp only [current, slot, live, Option.bind_some, Bool.false_eq_true,
                if_false] at h
              exact ⟨p, array, by simp [useImage, current, slot, live, h]⟩

theorem slots_setImage {e : JetsonEncoder} {k p : Nat} {array : ImageArray}
    {image : EncodedImage} (h : e.useImage k = .ok (p, array, image)) (image' : EncodedImage) :
    (e.setImage p array k image').slots = e.slots.set k image' := by
  obtain ⟨current, slot, live, -⟩ := useImage_ok h
  obtain ⟨inside, -⟩ := List.getElem?_eq_some_iff.mp slot
  have stored : (e.setImage p array k image').arrays[p]? =
      some { array with images := array.images.set k image' } :=
    List.getElem?_set_self inside
  simp [slots, current, stored, slot, live]

def imageView (e : JetsonEncoder) : List ImageArray × Option Nat × UInt32 × UInt32 :=
  (e.arrays, e.ctx.encodedImages, e.ctx.encodeWidth, e.ctx.encodeHeight)

theorem slots_of_imageView {e f : JetsonEncoder} (h : f.imageView = e.imageView) :
    f.slots = e.slots ∧ f.ctx.encodeWidth = e.ctx.encodeWidth ∧
      f.ctx.encodeHeight = e.ctx.encodeHeight := by
  simp only [imageView, Prod.mk.injEq] at h
  obtain ⟨arrays, current, width, height⟩ := h
  simp [slots, arrays, current, width, height]

def captureDone (e : JetsonEncoder) : Option (List Nat) := e.ctx.enc.map (·.capturePlane.done)

end JetsonEncoder

/-- The last call that filed metadata in a given output-plane buffer. -/
def lastInto (calls : List Job) (k : Nat) : Option Job :=
  calls.find? (fun job => job.buffer == k)

/-- The slots agree with the record of which call filed what. -/
structure Filed (e : JetsonEncoder) (calls : List Job) : Prop where
  recorded : ∀ k image job, e.slots[k]? = some image → lastInto calls k = some job →
    e.Records job.frame image
  untouched : ∀ k image, e.slots[k]? = some image → lastInto calls k = none →
    image.encodedWidth = 0
  inside : ∀ k job, lastInto calls k = some job → k < e.slots.length

structure Numbered (calls : List Job) : Prop where
  below : ∀ job ∈ calls, job.number < calls.length
  order : calls.Pairwise (fun later earlier => earlier.number < later.number)

/-- The frame of a call is with the hardware or in a capture buffer. -/
def Pipeline.InFlight (p : Pipeline) (job : Job) : Prop :=
  job ∈ p.queue ∨ job ∈ p.coded.map Prod.snd ∨ p.current = some job

/-- Where the frames are agrees with the encoder. The thread stops for good when a callback
aborts; the capture plane need not know its buffers any more then. -/
structure Tracked (width : UInt32) (p : Pipeline) : Prop where
  size : p.encoder.ctx.encodeWidth = width
  filed : Filed p.encoder p.calls
  numbered : Numbered p.calls
  known : ∀ job, p.InFlight job → job ∈ p.calls
  done : p.encoder.thread ≠ .stopped → p.encoder.captureDone = some (p.coded.map Prod.fst)
  current : ∀ k, p.encoder.thread = .inCallback (some k) → ∃ job, p.current = some job

theorem lastInto_cons_self (job : Job) (calls : List Job) :
    lastInto (job :: calls) job.buffer = some job :=
  List.find?_cons_of_pos (beq_self_eq_true job.buffer)

theorem lastInto_cons_of_ne {job : Job} {k : Nat} (h : k ≠ job.buffer) (calls : List Job) :
    lastInto (job :: calls) k = lastInto calls k :=
  List.find?_cons_of_neg (by simpa using Ne.symm h)

theorem Numbered.cons {calls : List Job} (h : Numbered calls) (buffer : Nat) (frame : Frame) :
    Numbered (⟨calls.length, buffer, frame⟩ :: calls) := by
  refine ⟨fun job mem => ?_, List.pairwise_cons.mpr ⟨fun job mem => h.below job mem, h.order⟩⟩
  obtain rfl | old := List.mem_cons.mp mem
  · exact Nat.lt_succ_self _
  · exact Nat.lt_succ_of_lt (h.below job old)

theorem Numbered.lastInto_iff {calls : List Job} (h : Numbered calls) {job : Job} {k : Nat}
    (mem : job ∈ calls) :
    lastInto calls k = some job ↔ job.buffer = k ∧
      ∀ later ∈ calls, job.number < later.number → later.buffer ≠ k := by
  rw [lastInto, List.find?_eq_some_iff_append, beq_iff_eq]
  refine and_congr_right fun _ => ?_
  constructor
  · rintro ⟨after, before, rfl, others⟩ later there number same
    obtain here | rfl | earlier := List.mem_append.mp there |>.imp_right List.mem_cons.mp
    · simpa [same] using others later here
    · exact Nat.lt_irrefl _ number
    · have less := (List.pairwise_cons.mp (List.pairwise_append.mp h.order).2.1).1 later earlier
      omega
  · intro none
    obtain ⟨after, before, rfl⟩ := List.append_of_mem mem
    refine ⟨after, before, rfl, fun later there => ?_⟩
    have number := (List.pairwise_append.mp h.order).2.2 later there job List.mem_cons_self
    simpa using none later (List.mem_append_left _ there) number

theorem Filed.of_imageView {e f : JetsonEncoder} {calls : List Job} (h : Filed e calls)
    (view : f.imageView = e.imageView) : Filed f calls := by
  obtain ⟨slots, width, height⟩ := slots_of_imageView view
  refine ⟨fun k image job slot last => ?_, ?_, ?_⟩
  · rw [slots] at slot
    have records := h.recorded k image job slot last
    rwa [Records, ← width, ← height] at records
  · rw [slots]
    exact h.untouched
  · rw [slots]
    exact h.inside

theorem Filed.store {e f : JetsonEncoder} {calls : List Job} (h : Filed e calls)
    {image : EncodedImage} {job : Job} (slot : job.buffer < e.slots.length)
    (slots : f.slots = e.slots.set job.buffer image)
    (width : f.ctx.encodeWidth = e.ctx.encodeWidth)
    (height : f.ctx.encodeHeight = e.ctx.encodeHeight) (records : e.Records job.frame image) :
    Filed f (job :: calls) := by
  refine ⟨fun k found last hk hlast => ?_, fun k found hk hlast => ?_, fun k last hlast => ?_⟩
  · rw [Records, width, height]
    by_cases same : k = job.buffer
    · rw [same, slots, List.getElem?_set_self slot] at hk
      rw [same, lastInto_cons_self] at hlast
      obtain rfl := Option.some.inj hk
      obtain rfl := Option.some.inj hlast
      exact records
    · rw [slots, List.getElem?_set_ne (Ne.symm same)] at hk
      rw [lastInto_cons_of_ne same] at hlast
      exact h.recorded k found last hk hlast
  · by_cases same : k = job.buffer
    · rw [same, lastInto_cons_self] at hlast
      cases hlast
    · rw [slots, List.getElem?_set_ne (Ne.symm same)] at hk
      rw [lastInto_cons_of_ne same] at hlast
      exact h.untouched k found hk hlast
  · rw [slots, List.length_set]
    by_cases same : k = job.buffer
    · exact same ▸ slot
    · rw [lastInto_cons_of_ne same] at hlast
      exact h.inside k last hlast

theorem Filed.resize {e f : JetsonEncoder} {calls : List Job} (h : Filed e calls)
    {index : Nat} {old image : EncodedImage} (slot : e.slots[index]? = some old)
    (slots : f.slots = e.slots.set index image) (width : f.ctx.encodeWidth = e.ctx.encodeWidth)
    (height : f.ctx.encodeHeight = e.ctx.encodeHeight)
    (same : image = { old with capacity := image.capacity }) : Filed f calls := by
  have origin {k : Nat} {found : EncodedImage} (hk : f.slots[k]? = some found) :
      ∃ was, e.slots[k]? = some was ∧ found = { was with capacity := found.capacity } := by
    by_cases here : k = index
    · obtain ⟨inside, -⟩ := List.getElem?_eq_some_iff.mp slot
      rw [here, slots, List.getElem?_set_self inside] at hk
      obtain rfl := Option.some.inj hk
      exact ⟨old, here ▸ slot, same⟩
    · rw [slots, List.getElem?_set_ne (Ne.symm here)] at hk
      exact ⟨found, hk, rfl⟩
  refine ⟨fun k found last hk hlast => ?_, fun k found hk hlast => ?_, fun k last hlast => ?_⟩
  · obtain ⟨was, before, eq⟩ := origin hk
    have records := h.recorded k was last before hlast
    rw [eq]
    rwa [Records, ← width, ← height] at records
  · obtain ⟨was, before, eq⟩ := origin hk
    rw [eq]
    exact h.untouched k was before hlast
  · rw [slots, List.length_set]
    exact h.inside k last hlast

namespace JetsonEncoder

/-- `Encode` and the driver's moves on the output plane leave the capture side alone. -/
def SameCapture (e f : JetsonEncoder) : Prop :=
  f.captureDone = e.captureDone ∧ f.thread = e.thread

theorem captureDone_of_enc {e : JetsonEncoder} {enc : NvVideoEncoder}
    (h : e.ctx.enc = some enc) : e.captureDone = some enc.capturePlane.done := by
  rw [captureDone, h]
  rfl

theorem sameCapture_of_encode {e f : JetsonEncoder} {frame : Frame} {o : EncodeOutcomes}
    {r : EncodeResult} (h : e.encode frame o = .ok (f, r)) :
    SameCapture e f ∧ f.ctx.encodeWidth = e.ctx.encodeWidth ∧
      f.ctx.encodeHeight = e.ctx.encodeHeight := by
  obtain ⟨rfl, -⟩ | ⟨enc, index, plane, copied, reaches, ⟨-, rfl⟩ | ⟨p, array, image, -, -,
    ⟨-, -, rfl⟩ | ⟨-, -, rfl⟩⟩⟩ := encode_cases h
  · exact ⟨⟨rfl, rfl⟩, rfl, rfl⟩
  all_goals exact ⟨⟨(captureDone_of_enc reaches.enc_eq).symm, rfl⟩, rfl, rfl⟩

theorem slots_of_encode {e f : JetsonEncoder} {frame : Frame} {o : EncodeOutcomes}
    {r : EncodeResult} (h : e.encode frame o = .ok (f, r)) :
    (r.filed = false ∧ f.imageView = e.imageView) ∨
    ∃ index image, r.filed = true ∧ o.pick = some index ∧ index < e.slots.length ∧
      f.slots = e.slots.set index (e.describe image frame) := by
  have fields : f.ctx.encodedImages = e.ctx.encodedImages ∧
      f.ctx.encodeWidth = e.ctx.encodeWidth ∧ f.ctx.encodeHeight = e.ctx.encodeHeight := by
    obtain ⟨rfl, -⟩ | ⟨enc, index, plane, copied, reaches, ⟨-, rfl⟩ | ⟨p, array, image, -, -,
      ⟨-, -, rfl⟩ | ⟨-, -, rfl⟩⟩⟩ := encode_cases h
    all_goals exact ⟨rfl, rfl, rfl⟩
  obtain ⟨current, width, height⟩ := fields
  obtain ⟨none, arrays⟩ | ⟨index, p, array, image, filed, pick, slot, arrays⟩ :=
    arrays_of_encode h
  · exact Or.inl ⟨none, by simp [imageView, arrays, current, width, height]⟩
  · obtain ⟨slots, found⟩ := slots_of_useImage slot
    obtain ⟨inside, -⟩ := List.getElem?_eq_some_iff.mp found
    refine Or.inr ⟨index, image, filed, pick, slots ▸ inside, ?_⟩
    rw [← slots_setImage slot]
    simp only [JetsonEncoder.slots, arrays, current, setImage_ctx]

theorem slots_of_callback {e f : JetsonEncoder} {o : CallbackOutcomes}
    (h : e.callback o = .ok f) :
    (f.thread ≠ .stopped → e.thread ≠ .stopped ∧ f.captureDone = e.captureDone) ∧
    (∀ k, f.thread ≠ .inCallback (some k)) ∧
    (f.imageView = e.imageView ∨ ∃ index image, e.slots[index]? = some image ∧
      f.slots = e.slots.set index (image.allocate o.requiredCapacity) ∧
      f.ctx.encodeWidth = e.ctx.encodeWidth ∧ f.ctx.encodeHeight = e.ctx.encodeHeight) := by
  obtain ⟨idle, rfl⟩ | ⟨buf, g, goOn, selected, running, called, rfl⟩ := callback_cases h
  · exact ⟨fun goes => ⟨goes, rfl⟩, fun k => idle (some k), Or.inl rfl⟩
  · have returned : ∀ k, (if goOn = true then DqThread.waiting else .stopped) ≠
        .inCallback (some k) := by
      intro k
      cases goOn <;> simp
    have active : e.thread ≠ .stopped := by
      rw [running]
      simp
    obtain ⟨enc, henc, ⟨-, rfl, rfl, -⟩ | ⟨index, p, array, image, -, -, slot, -,
      ⟨-, rfl, rfl⟩ | ⟨-, rfl, rfl⟩⟩⟩ := encoderCapturePlaneCallback_cases called
    · exact ⟨fun goes => absurd rfl goes, returned, Or.inl rfl⟩
    · obtain ⟨slots, found⟩ := slots_of_useImage slot
      exact ⟨fun goes => absurd rfl goes, returned,
        Or.inr ⟨index, image, slots ▸ found, slots_setImage slot _, rfl, rfl⟩⟩
    · obtain ⟨slots, found⟩ := slots_of_useImage slot
      exact ⟨fun _ => ⟨active, (captureDone_of_enc henc).symm⟩, returned,
        Or.inr ⟨index, image, slots ▸ found, slots_setImage slot _, rfl, rfl⟩⟩

theorem allocate_eq (image : EncodedImage) (required : Nat) :
    image.allocate required = { image with capacity := (image.allocate required).capacity } := by
  unfold EncodedImage.allocate
  split <;> rfl

theorem callback_of_useImage {e : JetsonEncoder} {enc : NvVideoEncoder} {k p : Nat}
    {array : ImageArray} {image : EncodedImage} {o : CallbackOutcomes}
    (henc : e.ctx.enc = some enc) (used : o.bytesused ≠ 0)
    (slot : e.useImage k = .ok (p, array, image)) :
    ∃ f goOn, e.encoderCapturePlaneCallback (some k) o =
      .ok (f, goOn, some (image.allocate o.requiredCapacity)) := by
  unfold encoderCapturePlaneCallback
  rw [useEnc_ok.mpr henc]
  simp only [bind, Except.bind, used, if_false, slot]
  cases o.accepted
  · exact ⟨_, _, rfl⟩
  · exact ⟨_, _, rfl⟩

theorem records_describe (e : JetsonEncoder) (image : EncodedImage) (frame : Frame) :
    e.Records frame (e.describe image frame) :=
  ⟨rfl, rfl, rfl⟩

end JetsonEncoder

namespace Tracked

variable {width : UInt32} {p : Pipeline} {f : JetsonEncoder}

theorem quiet (h : Tracked width p) (view : f.imageView = p.encoder.imageView)
    (same : SameCapture p.encoder f) : Tracked width { p with encoder := f } :=
  ⟨(slots_of_imageView view).2.1.trans h.size, h.filed.of_imageView view, h.numbered, h.known,
    fun goes => same.1.trans (h.done (same.2 ▸ goes)), fun k hk => h.current k (same.2 ▸ hk)⟩

theorem encode {frame : Frame} {o : EncodeOutcomes} {r : EncodeResult} (h : Tracked width p)
    (encoded : p.encoder.encode frame o = .ok (f, r)) :
    Tracked width (p.afterEncode f frame r o.pick) := by
  obtain ⟨same, width_eq, height_eq⟩ := sameCapture_of_encode encoded
  obtain ⟨none, view⟩ | ⟨index, image, filed, pick, inside, slots⟩ := slots_of_encode encoded
  · rw [Pipeline.afterEncode_of_failed none]
    exact h.quiet view same
  · rw [pick, Pipeline.afterEncode_of_filed filed]
    refine ⟨width_eq.trans h.size, ?_, h.numbered.cons index frame, ?_,
      fun goes => same.1.trans (h.done (same.2 ▸ goes)), fun k hk => h.current k (same.2 ▸ hk)⟩
    · exact h.filed.store inside slots width_eq height_eq
        (p.encoder.records_describe image frame)
    · rintro job (queued | coded | current)
      · split at queued
        next =>
            obtain old | new := List.mem_append.mp queued
            · exact List.mem_cons_of_mem _ (h.known job (Or.inl old))
            · rw [List.mem_singleton.mp new]
              exact List.mem_cons_self
        next => exact List.mem_cons_of_mem _ (h.known job (Or.inl queued))
      · exact List.mem_cons_of_mem _ (h.known job (Or.inr (Or.inl coded)))
      · exact List.mem_cons_of_mem _ (h.known job (Or.inr (Or.inr current)))

theorem code (h : Tracked width p) (capture : Nat) : Tracked width (p.code capture) := by
  unfold Pipeline.code
  split
  next job rest enc queue henc =>
      split
      next held =>
          have finished : p.encoder.finishCapture capture = p.encoder.setEnc
              { enc with capturePlane := enc.capturePlane.finish capture } := by
            rw [finishCapture, henc]
          have done : (enc.capturePlane.finish capture).done =
              enc.capturePlane.done ++ [capture] := by
            rw [Plane.finish, if_pos held]
          rw [finished]
          refine ⟨h.size, h.filed.of_imageView rfl, h.numbered, ?_, fun goes => ?_, h.current⟩
          · rintro other (queued | coded | current)
            · exact h.known other (Or.inl (queue ▸ List.mem_cons_of_mem _ queued))
            · rw [List.map_append, List.mem_append] at coded
              obtain old | new := coded
              · exact h.known other (Or.inr (Or.inl old))
              · rw [List.mem_singleton.mp new]
                exact h.known job (Or.inl (queue ▸ List.mem_cons_self))
            · exact h.known other (Or.inr (Or.inr current))
          · have before := (captureDone_of_enc henc).symm.trans (h.done goes)
            rw [captureDone_of_enc rfl, done, List.map_append, Option.some.inj before]
            rfl
      next => exact h
  next => exact h

theorem enqueue {accepted : Bool} (h : Tracked width p)
    (queued : p.encoder.enqueue accepted = .ok f) : Tracked width { p with encoder := f } := by
  obtain ⟨-, rfl⟩ | ⟨i, enc, -, henc, ⟨-, -, rfl⟩ | ⟨-, rfl⟩⟩ := enqueue_cases queued
  · exact h
  · exact h.quiet rfl ⟨(captureDone_of_enc henc).symm, rfl⟩
  · exact h.quiet rfl ⟨rfl, rfl⟩

theorem offer (h : Tracked width p) (index : Nat) :
    Tracked width { p with encoder := p.encoder.offer index } := by
  obtain same | ⟨enc, henc, -, eq⟩ := offer_cases p.encoder index
  · rw [same]
    exact h
  · rw [eq]
    exact h.quiet rfl ⟨(captureDone_of_enc henc).symm, rfl⟩

theorem finishOutput (h : Tracked width p) (index : Nat) :
    Tracked width { p with encoder := p.encoder.finishOutput index } := by
  obtain ⟨-, same⟩ | ⟨enc, henc, eq⟩ := finishOutput_cases p.encoder index
  · rw [same]
    exact h
  · rw [eq]
    exact h.quiet rfl ⟨(captureDone_of_enc henc).symm, rfl⟩

theorem dequeueCapture (h : Tracked width p) (waiting : p.encoder.thread = .waiting)
    (dequeued : p.encoder.dequeueCapture (p.coded.head?.map Prod.fst) = .ok f) :
    Tracked width { p with
      encoder := f, coded := p.coded.tail, current := p.coded.head?.map Prod.snd } := by
  obtain ⟨other, -⟩ | ⟨-, enc, henc, rest⟩ := dequeueCapture_cases dequeued
  · exact absurd waiting other
  have goes : p.encoder.thread ≠ .stopped := by
    rw [waiting]
    simp
  have done : enc.capturePlane.done = p.coded.map Prod.fst :=
    Option.some.inj ((captureDone_of_enc henc).symm.trans (h.done goes))
  have known : ∀ job, Pipeline.InFlight { p with
      encoder := f, coded := p.coded.tail, current := p.coded.head?.map Prod.snd } job →
      job ∈ p.calls := by
    rintro job (queued | coded | current)
    · exact h.known job (Or.inl queued)
    · obtain ⟨entry, member, rfl⟩ := List.mem_map.mp coded
      exact h.known _ (Or.inr (Or.inl (List.mem_map_of_mem (List.mem_of_mem_tail member))))
    · obtain ⟨entry, first, rfl⟩ := Option.map_eq_some_iff.mp current
      exact h.known _ (Or.inr (Or.inl (List.mem_map_of_mem (List.mem_of_head? first))))
  cases coded : p.coded with
  | nil =>
      obtain ⟨-, rfl⟩ | ⟨i, plane, got, -⟩ := rest
      · rw [coded] at known
        refine ⟨h.size, h.filed.of_imageView rfl, h.numbered, known, fun _ => ?_, by simp⟩
        exact (h.done goes).trans (by rw [coded]; rfl)
      · rw [coded] at got
        cases got
  | cons entry rest' =>
      have first : entry.1 ∈ enc.capturePlane.done := by simp [done, coded]
      obtain ⟨none, -⟩ | ⟨i, plane, got, rfl⟩ := rest
      · rw [coded] at none
        simp [Plane.dqBuffer, first] at none
      · obtain ⟨pick, -, rfl⟩ := Plane.dqBuffer_eq_some got
        rw [coded] at pick
        obtain rfl : entry.1 = i := Option.some.inj pick
        rw [coded] at known
        refine ⟨h.size, h.filed.of_imageView rfl, h.numbered, known, fun _ => ?_,
          fun k hk => ⟨entry.2, rfl⟩⟩
        rw [captureDone_of_enc rfl, done, coded]
        simp

theorem callback {o : CallbackOutcomes} (h : Tracked width p)
    (called : p.encoder.callback o = .ok f) :
    Tracked width { p with encoder := f, current := none } := by
  obtain ⟨goesOn, idle, images⟩ := slots_of_callback called
  have known : ∀ job, Pipeline.InFlight { p with encoder := f, current := none } job →
      job ∈ p.calls := by
    rintro job (queued | coded | current)
    · exact h.known job (Or.inl queued)
    · exact h.known job (Or.inr (Or.inl coded))
    · cases current
  have done (goes : f.thread ≠ .stopped) : f.captureDone = some (p.coded.map Prod.fst) :=
    (goesOn goes).2.trans (h.done (goesOn goes).1)
  obtain view | ⟨index, image, slot, slots, width_eq, height_eq⟩ := images
  · exact ⟨(slots_of_imageView view).2.1.trans h.size, h.filed.of_imageView view, h.numbered,
      known, done, fun k hk => absurd hk (idle k)⟩
  · exact ⟨width_eq.trans h.size, h.filed.resize slot slots width_eq height_eq
      (allocate_eq image o.requiredCapacity), h.numbered, known, done,
      fun k hk => absurd hk (idle k)⟩

end Tracked

theorem tracked_step {width : UInt32} (a : PipelineAction) (p q : Pipeline)
    (h : Tracked width p) (step : pipelineStep p a = .ok q) : Tracked width q := by
  cases a with
  | encode frame o =>
      obtain ⟨⟨f, r⟩, encoded, step⟩ := bind_eq_ok step
      obtain rfl := Except.ok.inj step
      exact h.encode encoded
  | offer index =>
      obtain rfl := Except.ok.inj step
      exact h.offer index
  | finishOutput index =>
      obtain rfl := Except.ok.inj step
      exact h.finishOutput index
  | enqueue accepted =>
      obtain ⟨f, queued, step⟩ := bind_eq_ok step
      obtain rfl := Except.ok.inj step
      exact h.enqueue queued
  | code capture =>
      obtain rfl := Except.ok.inj step
      exact h.code capture
  | dequeueCapture =>
      rw [pipelineStep] at step
      split at step
      next waiting =>
          obtain ⟨f, dequeued, step⟩ := bind_eq_ok step
          obtain rfl := Except.ok.inj step
          exact h.dequeueCapture waiting dequeued
      next =>
          obtain rfl := Except.ok.inj step
          exact h
  | callback o =>
      obtain ⟨f, called, step⟩ := bind_eq_ok step
      obtain rfl := Except.ok.inj step
      exact h.callback called

theorem tracked_start {e e' : JetsonEncoder} {width height : UInt32} {captureBuffers : Nat}
    {outputBuffers : List NvBuffer}
    (init : e.initEncode width height true captureBuffers outputBuffers = .ok e') :
    Tracked width { encoder := e' } := by
  obtain rfl := Except.ok.inj init
  have blank : ∀ (k : Nat) image, (List.replicate 6 ({} : EncodedImage))[k]? = some image →
      image.encodedWidth = 0 := by
    intro k image slot
    rw [List.eq_of_mem_replicate (List.mem_of_getElem? slot)]
  refine ⟨rfl, ⟨by simp [lastInto], ?_, by simp [lastInto]⟩, ⟨by simp, .nil⟩, ?_,
    fun _ => rfl, by simp⟩
  · intro k image slot _
    simp only [slots, Option.bind_some, List.getElem?_concat_length] at slot
    exact blank k image slot
  · rintro job (queued | coded | current)
    · cases queued
    · cases coded
    · cases current

def encodedFrames (actions : List PipelineAction) : List Frame :=
  actions.filterMap (fun a => match a with
    | .encode frame _ => some frame
    | _ => none)

theorem calls_of_step {p q : Pipeline} {a : PipelineAction} (step : pipelineStep p a = .ok q) :
    q.calls = p.calls ∨ ∃ job, encodedFrames [a] = [job.frame] ∧ q.calls = job :: p.calls := by
  cases a with
  | encode frame o =>
      obtain ⟨⟨f, r⟩, -, step⟩ := bind_eq_ok step
      obtain rfl := Except.ok.inj step
      unfold Pipeline.afterEncode
      split
      next buffer filed pick => exact Or.inr ⟨⟨p.calls.length, buffer, frame⟩, rfl, rfl⟩
      next => exact Or.inl rfl
  | offer index | finishOutput index =>
      obtain rfl := Except.ok.inj step
      exact Or.inl rfl
  | enqueue accepted | callback o =>
      obtain ⟨f, -, step⟩ := bind_eq_ok step
      obtain rfl := Except.ok.inj step
      exact Or.inl rfl
  | code capture =>
      obtain rfl := Except.ok.inj step
      refine Or.inl ?_
      unfold Pipeline.code
      split
      · split <;> rfl
      · rfl
  | dequeueCapture =>
      rw [pipelineStep] at step
      split at step
      · obtain ⟨f, -, step⟩ := bind_eq_ok step
        obtain rfl := Except.ok.inj step
        exact Or.inl rfl
      · obtain rfl := Except.ok.inj step
        exact Or.inl rfl

/-- The calls that filed something are among the calls of `Encode`, in their order. -/
theorem calls_of_run {p q : Pipeline} {actions : List PipelineAction}
    (runs : run pipelineStep p actions = .ok q) :
    ∃ new, q.calls = new ++ p.calls ∧
      (new.map Job.frame).reverse.Sublist (encodedFrames actions) := by
  induction actions generalizing p with
  | nil =>
      obtain rfl := Except.ok.inj runs
      exact ⟨[], rfl, .slnil⟩
  | cons a actions ih =>
      obtain ⟨u, first, rest⟩ := run_cons_iff.mp runs
      obtain ⟨new, calls, sub⟩ := ih rest
      have split : encodedFrames (a :: actions) = encodedFrames [a] ++ encodedFrames actions := by
        rw [encodedFrames, ← List.singleton_append, List.filterMap_append]
        rfl
      rw [split]
      obtain same | ⟨job, one, more⟩ := calls_of_step first
      · exact ⟨new, by rw [calls, same], sub.trans (List.sublist_append_right _ _)⟩
      · refine ⟨new ++ [job], by rw [calls, more]; simp, ?_⟩
        rw [one, List.map_append, List.reverse_append]
        exact sub.cons_cons job.frame

theorem calls_injective {p q : Pipeline} {actions rest : List PipelineAction}
    (empty : p.calls = []) (runs : run pipelineStep p actions = .ok q)
    (different : (encodedFrames (actions ++ rest)).Pairwise
      (fun f g => f.metadata ≠ g.metadata)) {x y : Job} (hx : x ∈ q.calls)
    (hy : y ∈ q.calls) (same : x.frame.metadata = y.frame.metadata) : x = y := by
  obtain ⟨new, calls, sub⟩ := calls_of_run runs
  rw [empty, List.append_nil] at calls
  rw [encodedFrames, List.filterMap_append] at different
  have apart := (List.pairwise_append.mp different).1.sublist sub
  rw [List.pairwise_reverse, List.pairwise_map, ← calls] at apart
  have symmetric : Std.Symm (fun a b : Job => b.frame.metadata ≠ a.frame.metadata) :=
    ⟨fun _ _ h => h.symm⟩
  by_contra differ
  exact apart.forall hy hx (Ne.symm differ) same

theorem records_allocate {e : JetsonEncoder} {frame : Frame} {image : EncodedImage}
    {required : Nat} : e.Records frame (image.allocate required) ↔ e.Records frame image := by
  rw [allocate_eq]
  rfl

theorem Tracked.finds {width : UInt32} {p : Pipeline} (h : Tracked width p)
    {a : PipelineAction} (agree : NumbersAgree p a) : FindsItsFrame p a := by
  cases a with
  | callback o =>
      intro k running used
      obtain ⟨job, current, numbers⟩ := agree k running used
      have last := (h.numbered.lastInto_iff (h.known job (Or.inr (Or.inr current)))).mpr numbers
      have slot := List.getElem?_eq_getElem (h.filed.inside k job last)
      obtain ⟨q, array, image⟩ := useImage_of_slots slot
      have goes : p.encoder.thread ≠ .stopped := by
        rw [running]
        simp
      obtain ⟨enc, henc, -⟩ := Option.map_eq_some_iff.mp (h.done goes)
      obtain ⟨f, goOn, called⟩ := callback_of_useImage henc used image
      exact ⟨job, f, goOn, _, current, called,
        records_allocate.mpr (h.filed.recorded k _ job slot last)⟩
  | encode | offer | finishOutput | enqueue | code | dequeueCapture => trivial

theorem Tracked.agree {width : UInt32} {p : Pipeline} (h : Tracked width p)
    (positive : width ≠ 0)
    (injective : ∀ x ∈ p.calls, ∀ y ∈ p.calls, x.frame.metadata = y.frame.metadata → x = y)
    {a : PipelineAction} (finds : FindsItsFrame p a) : NumbersAgree p a := by
  cases a with
  | callback o =>
      intro k running used
      obtain ⟨job, f, goOn, selected, current, called, records⟩ := finds k running used
      have mem := h.known job (Or.inr (Or.inr current))
      refine ⟨job, current, (h.numbered.lastInto_iff mem).mp ?_⟩
      obtain ⟨enc, -, ⟨-, -, -, none⟩ | ⟨index, q, array, image, buf, -, slot, image_eq, -⟩⟩ :=
        encoderCapturePlaneCallback_cases called
      · cases none
      · obtain rfl := Option.some.inj buf
        obtain rfl := Option.some.inj image_eq
        rw [records_allocate] at records
        obtain ⟨slots, found⟩ := slots_of_useImage slot
        rw [← slots] at found
        cases last : lastInto p.calls k with
        | none =>
            have blank := h.filed.untouched k image found last
            exact absurd (h.size.symm.trans (records.1.symm.trans blank)) positive
        | some other =>
            have recorded := h.filed.recorded k image other found last
            have same := injective other (List.mem_of_find?_eq_some last) job mem
              (recorded.2.2.symm.trans records.2.2)
            rw [same]
  | encode | offer | finishOutput | enqueue | code | dequeueCapture => trivial

/-- In a run in which each callback has the capture buffer with the number of the output-plane
buffer of its frame, and no later call was handed that one, every callback finds its own
frame's metadata. Conversely, when the frames can be told apart, this is the only way to find
it. -/
theorem metadata_follows_frame {e e' : JetsonEncoder} {width height : UInt32}
    {captureBuffers : Nat} {outputBuffers : List NvBuffer}
    (init : e.initEncode width height true captureBuffers outputBuffers = .ok e')
    (actions : List PipelineAction) :
    (EveryStep pipelineStep NumbersAgree { encoder := e' } actions →
      EveryStep pipelineStep FindsItsFrame { encoder := e' } actions) ∧
    (width ≠ 0 → (encodedFrames actions).Pairwise (fun f g => f.metadata ≠ g.metadata) →
      EveryStep pipelineStep FindsItsFrame { encoder := e' } actions →
      EveryStep pipelineStep NumbersAgree { encoder := e' } actions) := by
  have tracked {pre : List PipelineAction} {p : Pipeline}
      (runs : run pipelineStep { encoder := e' } pre = .ok p) : Tracked width p :=
    run_invariant (Tracked width) (fun s a t => tracked_step a s t) (tracked_start init) runs
  constructor
  · intro agree pre a post p split runs
    exact (tracked runs).finds (agree pre a post p split runs)
  · intro positive different finds pre a post p split runs
    refine (tracked runs).agree positive ?_ (finds pre a post p split runs)
    intro x hx y hy same
    exact calls_injective rfl runs (split ▸ different) hx hy same

def newEncoder : JetsonEncoder where
  ctx := {
    enc := some {
      outputPlane := { numBuffers := 10 }
      capturePlane := { numBuffers := 6 }
      outputBuffers := List.replicate 10 blankBuffer }
    encodeWidth := 640
    encodeHeight := 480
    numOutputBuffers := 6
    encodedImages := some 0 }
  arrays := [{ images := List.replicate 6 {} }]
  enqueueing := some 0
  thread := .waiting

def encodeAt (timestamp : UInt32) (index : Nat) : PipelineAction :=
  .encode { blankFrame with timestamp := timestamp } { allSucceed with pick := some index }

/-- Two capture buffers are queued and two frames encoded; then their bitstreams come back in
two given capture buffers. -/
def twoFrames (first second : Nat) : List PipelineAction :=
  [.enqueue true, .enqueue true, .offer 0, .offer 1, encodeAt 90000 0, encodeAt 93000 1,
    .code first, .code second, .dequeueCapture, .callback {}, .dequeueCapture, .callback {}]

theorem sameNumbers_follow :
    EveryStep pipelineStep FindsItsFrame { encoder := newEncoder } (twoFrames 0 1) := by
  have agree : EveryStep pipelineStep NumbersAgree { encoder := newEncoder } (twoFrames 0 1) := by
    refine .cons trivial rfl (.cons trivial rfl (.cons trivial rfl (.cons trivial rfl
      (.cons trivial rfl (.cons trivial rfl (.cons trivial rfl (.cons trivial rfl
      (.cons trivial rfl (.cons ?_ rfl (.cons trivial rfl (.cons ?_ rfl (.nil _))))))))))))
    · rintro k ⟨rfl⟩ -
      exact ⟨_, rfl, rfl, by decide⟩
    · rintro k ⟨rfl⟩ -
      exact ⟨_, rfl, rfl, by decide⟩
  exact (metadata_follows_frame (e := {}) rfl (twoFrames 0 1)).1 agree

/-- With the capture buffers the other way round, the first callback selects the image of the
second frame. -/
theorem crossedNumbers_not_follow :
    ¬ EveryStep pipelineStep FindsItsFrame { encoder := newEncoder } (twoFrames 1 0) := by
  intro finds
  obtain ⟨job, f, goOn, image, current, called, records⟩ :=
    finds ((twoFrames 1 0).take 9) (.callback {}) ((twoFrames 1 0).drop 10) _ rfl rfl 1 rfl
      (by decide)
  obtain rfl := Option.some.inj current
  cases called
  exact absurd records.2.2 (by decide)

end Wadi
