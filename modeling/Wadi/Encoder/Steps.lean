import Wadi.Encoder.Model

/-!
What the steps around `Encode` can do to an encoder. Each lemma lists every way
in which one function can return, so that invariants are proved from these lists
and not from the definitions.
-/

namespace Wadi
open Runs

theorem Plane.dqBuffer_eq_some {p q : Plane} {pick : Option Nat} {i : Nat}
    (h : p.dqBuffer pick = some (i, q)) :
    pick = some i ∧ i ∈ p.done ∧ q = { p with done := p.done.erase i } := by
  cases pick with
  | none => cases h
  | some k =>
      rw [dqBuffer] at h
      split at h
      next mem =>
          obtain ⟨rfl, rfl⟩ := Prod.mk.inj (Option.some.inj h)
          exact ⟨rfl, mem, rfl⟩
      next => cases h

theorem Plane.numBuffers_finish (p : Plane) (i : Nat) :
    (p.finish i).numBuffers = p.numBuffers := by
  unfold Plane.finish
  split <;> rfl

namespace JetsonEncoder

@[simp] theorem setEnc_enc (e : JetsonEncoder) (enc : NvVideoEncoder) :
    (e.setEnc enc).ctx.enc = some enc :=
  rfl

@[simp] theorem setEnc_count (e : JetsonEncoder) (enc : NvVideoEncoder) :
    (e.setEnc enc).ctx.inputFramesQueuedCount = e.ctx.inputFramesQueuedCount :=
  rfl

@[simp] theorem setImage_ctx (e : JetsonEncoder) (p : Nat) (array : ImageArray) (index : Nat)
    (image : EncodedImage) : (e.setImage p array index image).ctx = e.ctx :=
  rfl

theorem useEnc_ok {e : JetsonEncoder} {enc : NvVideoEncoder} :
    e.useEnc = .ok enc ↔ e.ctx.enc = some enc := by
  cases h : e.ctx.enc <;> simp [useEnc, h]

theorem useEnc_fault {e : JetsonEncoder} {fault : EncoderFault}
    (h : e.useEnc = .error fault) : fault = .nullEncoder := by
  cases henc : e.ctx.enc with
  | none =>
      rw [useEnc, henc] at h
      exact (Except.error.inj h).symm
  | some enc =>
      rw [useEnc, henc] at h
      cases h

theorem enqueue_cases {e f : JetsonEncoder} {accepted : Bool}
    (h : e.enqueue accepted = .ok f) :
    (e.enqueueing = none ∧ f = e) ∨
    (∃ i enc, e.enqueueing = some i ∧ e.ctx.enc = some enc ∧
      ((i < enc.capturePlane.numBuffers ∧ accepted = true ∧
          f = { e.setEnc { enc with capturePlane :=
            { enc.capturePlane with held := enc.capturePlane.held ++ [i] } } with
              enqueueing := some (i + 1) }) ∨
        ((i < enc.capturePlane.numBuffers → accepted = false) ∧
          f = { e with enqueueing := none }))) := by
  unfold enqueue at h
  cases hi : e.enqueueing with
  | none =>
      rw [hi] at h
      exact Or.inl ⟨rfl, (Except.ok.inj h).symm⟩
  | some i =>
      rw [hi] at h
      obtain ⟨enc, henc, h⟩ := bind_eq_ok h
      refine Or.inr ⟨i, enc, rfl, useEnc_ok.mp henc, ?_⟩
      by_cases inside : i < enc.capturePlane.numBuffers
      · rw [if_pos inside] at h
        cases accepted with
        | true => exact Or.inl ⟨inside, rfl, (Except.ok.inj h).symm⟩
        | false => exact Or.inr ⟨fun _ => rfl, (Except.ok.inj h).symm⟩
      · rw [if_neg inside] at h
        exact Or.inr ⟨fun less => absurd less inside, (Except.ok.inj h).symm⟩

theorem dequeueCapture_cases {e f : JetsonEncoder} {pick : Option Nat}
    (h : e.dequeueCapture pick = .ok f) :
    (e.thread ≠ .waiting ∧ f = e) ∨
    (e.thread = .waiting ∧ ∃ enc, e.ctx.enc = some enc ∧
      ((enc.capturePlane.dqBuffer pick = none ∧ f = { e with thread := .inCallback none }) ∨
        ∃ i plane, enc.capturePlane.dqBuffer pick = some (i, plane) ∧
          f = { e.setEnc { enc with capturePlane := plane } with
            thread := .inCallback (some i) })) := by
  unfold dequeueCapture at h
  cases ht : e.thread with
  | waiting =>
      rw [ht] at h
      obtain ⟨enc, henc, h⟩ := bind_eq_ok h
      refine Or.inr ⟨rfl, enc, useEnc_ok.mp henc, ?_⟩
      cases hp : enc.capturePlane.dqBuffer pick with
      | none =>
          rw [hp] at h
          exact Or.inl ⟨rfl, (Except.ok.inj h).symm⟩
      | some taken =>
          rw [hp] at h
          exact Or.inr ⟨taken.1, taken.2, rfl, (Except.ok.inj h).symm⟩
  | notStarted | inCallback _ | stopped =>
      rw [ht] at h
      exact Or.inl ⟨by simp, (Except.ok.inj h).symm⟩

/-- The callback gives up and aborts, or changes one image and hands its buffer back. -/
theorem encoderCapturePlaneCallback_cases {e f : JetsonEncoder} {buf : Option Nat}
    {o : CallbackOutcomes} {goOn : Bool} {selected : Option EncodedImage}
    (h : e.encoderCapturePlaneCallback buf o = .ok (f, goOn, selected)) :
    ∃ enc, e.ctx.enc = some enc ∧
      (((buf = none ∨ o.bytesused = 0) ∧ f = e.abort enc o.abort ∧ goOn = false ∧
          selected = none) ∨
        (∃ index p array image, buf = some index ∧ o.bytesused ≠ 0 ∧
          e.useImage index = .ok (p, array, image) ∧
          selected = some (image.allocate o.requiredCapacity) ∧
          ((o.accepted = false ∧ goOn = false ∧
              f = (e.setImage p array index (image.allocate o.requiredCapacity)).abort enc
                o.abort) ∨
            (o.accepted = true ∧ goOn = true ∧
              f = (e.setImage p array index (image.allocate o.requiredCapacity)).setEnc
                { enc with capturePlane := { enc.capturePlane with
                  held := enc.capturePlane.held ++ [index] } })))) := by
  unfold encoderCapturePlaneCallback at h
  obtain ⟨enc, henc, h⟩ := bind_eq_ok h
  refine ⟨enc, useEnc_ok.mp henc, ?_⟩
  cases buf with
  | none =>
      cases h
      exact Or.inl ⟨Or.inl rfl, rfl, rfl, rfl⟩
  | some index =>
      by_cases used : o.bytesused = 0
      · simp only [used, if_true] at h
        cases h
        exact Or.inl ⟨Or.inr used, rfl, rfl, rfl⟩
      · simp only [used, if_false] at h
        obtain ⟨⟨p, array, image⟩, slot, h⟩ := bind_eq_ok h
        refine Or.inr ⟨index, p, array, image, rfl, used, slot, ?_⟩
        cases ha : o.accepted with
        | false =>
            rw [ha] at h
            cases h
            exact ⟨rfl, Or.inl ⟨rfl, rfl, rfl⟩⟩
        | true =>
            rw [ha] at h
            cases h
            exact ⟨rfl, Or.inr ⟨rfl, rfl, rfl⟩⟩

theorem callback_cases {e f : JetsonEncoder} {o : CallbackOutcomes}
    (h : e.callback o = .ok f) :
    ((∀ buf, e.thread ≠ .inCallback buf) ∧ f = e) ∨
    (∃ buf g goOn selected, e.thread = .inCallback buf ∧
      e.encoderCapturePlaneCallback buf o = .ok (g, goOn, selected) ∧
      f = { g with thread := if goOn then .waiting else .stopped }) := by
  unfold callback at h
  cases ht : e.thread with
  | inCallback buf =>
      rw [ht] at h
      obtain ⟨⟨g, goOn, selected⟩, called, h⟩ := bind_eq_ok h
      exact Or.inr ⟨buf, g, goOn, selected, rfl, called, (Except.ok.inj h).symm⟩
  | notStarted | waiting | stopped =>
      rw [ht] at h
      exact Or.inl ⟨by simp, (Except.ok.inj h).symm⟩

/-- The callback that runs gives up: it got no buffer or an empty one, or its buffer is
refused. -/
def GivesUp (e : JetsonEncoder) (o : CallbackOutcomes) : Prop :=
  ∃ buf, e.thread = .inCallback buf ∧ (buf = none ∨ o.bytesused = 0 ∨ o.accepted = false)

def taken (e : JetsonEncoder) (enc : NvVideoEncoder) (index : Nat) (plane : Plane)
    (copied : NvBuffer) : JetsonEncoder :=
  e.setEnc { enc with
    outputPlane := plane, outputBuffers := enc.outputBuffers.set index copied }

def counted (e : JetsonEncoder) (enc : NvVideoEncoder) (index : Nat) (plane : Plane)
    (copied : NvBuffer) : JetsonEncoder :=
  let e := e.setEnc { enc with
    outputPlane := { plane with held := plane.held ++ [index] }
    outputBuffers := enc.outputBuffers.set index copied }
  { e with ctx := { e.ctx with
    inputFramesQueuedCount := e.ctx.inputFramesQueuedCount + 1 } }

/-- How far `Encode` gets with a buffer in its hands: `copied` is the buffer with
the frame in it. -/
structure Reaches (e : JetsonEncoder) (enc : NvVideoEncoder) (frame : Frame)
    (o : EncodeOutcomes) (index : Nat) (plane : Plane) (copied : NvBuffer) : Prop where
  enc_eq : e.ctx.enc = some enc
  dequeued : enc.outputPlane.dqBuffer o.pick = some (index, plane)
  copy : ∃ buffer, enc.outputBuffers[index]? = some buffer ∧
    copyFrame buffer frame = .ok copied

theorem copyPlane_error {plane : BufferPlane} {data : List UInt8} {fault : EncoderFault}
    (h : copyPlane plane data = .error fault) : fault = .outOfBounds := by
  unfold copyPlane at h
  split at h
  · exact (Except.error.inj h).symm
  · cases h

theorem copyFrame_error {buffer : NvBuffer} {frame : Frame} {fault : EncoderFault}
    (h : copyFrame buffer frame = .error fault) : fault = .outOfBounds := by
  unfold copyFrame at h
  obtain h | ⟨y, -, h⟩ := bind_eq_error h
  · exact copyPlane_error h
  · obtain h | ⟨u, -, h⟩ := bind_eq_error h
    · exact copyPlane_error h
    · obtain h | ⟨v, -, h⟩ := bind_eq_error h
      · exact copyPlane_error h
      · cases h

theorem copyFrame_eq_ok {buffer copied : NvBuffer} {frame : Frame} :
    copyFrame buffer frame = .ok copied ↔ ∃ y u v, copyPlane buffer.y frame.dataY = .ok y ∧
      copyPlane buffer.u frame.dataU = .ok u ∧ copyPlane buffer.v frame.dataV = .ok v ∧
      copied = { buffer with y := y, u := u, v := v } := by
  unfold copyFrame
  constructor
  · intro h
    obtain ⟨y, hy, h⟩ := bind_eq_ok h
    obtain ⟨u, hu, h⟩ := bind_eq_ok h
    obtain ⟨v, hv, h⟩ := bind_eq_ok h
    exact ⟨y, u, v, hy, hu, hv, (Except.ok.inj h).symm⟩
  · rintro ⟨y, u, v, hy, hu, hv, rfl⟩
    rw [hy, hu, hv]
    rfl

theorem syncPlanes_eq_none {o : EncodeOutcomes} {numPlanes : Nat} :
    syncPlanes o numPlanes = none ↔
      ¬ ∃ j < numPlanes, o.fromFd j = false ∨ o.sync j = false := by
  simp only [syncPlanes, List.findSome?_eq_none_iff, List.mem_range, not_exists, not_and,
    not_or, Bool.not_eq_false]
  refine forall₂_congr fun j _ => ?_
  cases o.fromFd j <;> cases o.sync j <;> simp

theorem encode_of_dqFailed {e : JetsonEncoder} {enc : NvVideoEncoder} (henc : e.ctx.enc = some enc)
    (frame : Frame) {o : EncodeOutcomes} (none : enc.outputPlane.dqBuffer o.pick = none) :
    e.encode frame o = .ok (e, .dqFailed) := by
  rw [encode, useEnc, henc]
  simp only [bind, Except.bind, none]
  rfl

/-- With the frame copied, `Encode` goes through the surfaces and then files the
metadata under the number of the buffer. -/
theorem Reaches.encode_eq {e : JetsonEncoder} {enc : NvVideoEncoder} {frame : Frame}
    {o : EncodeOutcomes} {index : Nat} {plane : Plane} {copied : NvBuffer}
    (h : Reaches e enc frame o index plane copied) :
    e.encode frame o =
      match syncPlanes o copied.numPlanes with
      | some failure => .ok (e.taken enc index plane copied, failure)
      | none => (e.useImage index).bind (fun slot =>
          let image := e.describe slot.2.2 frame
          if o.accepted then
            .ok ((e.counted enc index plane copied).setImage slot.1 slot.2.1 index image, .queued)
          else
            .ok ((e.taken enc index plane copied).setImage slot.1 slot.2.1 index image,
              .qFailed)) := by
  obtain ⟨buffer, slot, copy⟩ := h.copy
  rw [encode, useEnc, h.enc_eq]
  simp only [bind, Except.bind, h.dequeued, slot, copy]
  cases syncPlanes o copied.numPlanes with
  | some failure => rfl
  | none =>
      have same : (e.taken enc index plane copied).useImage index = e.useImage index := rfl
      cases hi : e.useImage index with
      | error fault =>
          rw [taken] at same
          simp only [same, hi]
      | ok found =>
          rw [taken] at same
          simp only [same, hi]
          cases ha : o.accepted <;> rfl

theorem encode_start (e : JetsonEncoder) (frame : Frame) (o : EncodeOutcomes) :
    (e.encode frame o = .ok (e, .dqFailed) ∧
      ∀ enc, e.ctx.enc = some enc → enc.outputPlane.dqBuffer o.pick = none) ∨
    (e.ctx.enc = none ∧ e.encode frame o = .error .nullEncoder) ∨
    e.encode frame o = .error .outOfBounds ∨
    ∃ enc index plane copied, Reaches e enc frame o index plane copied := by
  cases henc : e.ctx.enc with
  | none =>
      refine Or.inr (Or.inl ⟨rfl, ?_⟩)
      rw [encode, useEnc, henc]
      rfl
  | some enc =>
      cases hd : enc.outputPlane.dqBuffer o.pick with
      | none =>
          refine Or.inl ⟨encode_of_dqFailed henc frame hd, ?_⟩
          rintro _ ⟨rfl⟩
          exact hd
      | some got =>
          cases hb : enc.outputBuffers[got.1]? with
          | none =>
              refine Or.inr (Or.inr (Or.inl ?_))
              rw [encode, useEnc, henc]
              simp only [bind, Except.bind, hd, hb]
          | some buffer =>
              cases hc : copyFrame buffer frame with
              | error fault =>
                  refine Or.inr (Or.inr (Or.inl ?_))
                  rw [encode, useEnc, henc]
                  simp only [bind, Except.bind, hd, hb, hc, copyFrame_error hc]
              | ok copied =>
                  exact Or.inr (Or.inr (Or.inr
                    ⟨enc, got.1, got.2, copied, henc, hd, buffer, hb, hc⟩))

theorem encode_cases {e f : JetsonEncoder} {frame : Frame} {o : EncodeOutcomes}
    {r : EncodeResult} (h : e.encode frame o = .ok (f, r)) :
    (f = e ∧ r = .dqFailed ∧
      ∀ enc, e.ctx.enc = some enc → enc.outputPlane.dqBuffer o.pick = none) ∨
    ∃ enc index plane copied, Reaches e enc frame o index plane copied ∧
      ((syncPlanes o copied.numPlanes = some r ∧ f = e.taken enc index plane copied) ∨
        ∃ p array image, syncPlanes o copied.numPlanes = none ∧
          e.useImage index = .ok (p, array, image) ∧
          ((o.accepted = true ∧ r = .queued ∧ f = (e.counted enc index plane copied).setImage
              p array index (e.describe image frame)) ∨
            (o.accepted = false ∧ r = .qFailed ∧ f = (e.taken enc index plane copied).setImage
              p array index (e.describe image frame)))) := by
  obtain ⟨failed, none⟩ | ⟨-, fault⟩ | fault | ⟨enc, index, plane, copied, reaches⟩ :=
    encode_start e frame o
  · rw [failed] at h
    obtain ⟨rfl, rfl⟩ := Prod.mk.inj (Except.ok.inj h)
    exact Or.inl ⟨rfl, rfl, none⟩
  · rw [fault] at h
    cases h
  · rw [fault] at h
    cases h
  · refine Or.inr ⟨enc, index, plane, copied, reaches, ?_⟩
    rw [reaches.encode_eq] at h
    cases hs : syncPlanes o copied.numPlanes with
    | some failure =>
        rw [hs] at h
        obtain ⟨rfl, rfl⟩ := Prod.mk.inj (Except.ok.inj h)
        exact Or.inl ⟨rfl, rfl⟩
    | none =>
        rw [hs] at h
        obtain ⟨⟨p, array, image⟩, slot, h⟩ := bind_eq_ok h
        refine Or.inr ⟨p, array, image, rfl, slot, ?_⟩
        cases ha : o.accepted with
        | true =>
            simp only [ha, if_true] at h
            obtain ⟨rfl, rfl⟩ := Prod.mk.inj (Except.ok.inj h)
            exact Or.inl ⟨rfl, rfl, rfl⟩
        | false =>
            simp only [ha, Bool.false_eq_true, if_false] at h
            obtain ⟨rfl, rfl⟩ := Prod.mk.inj (Except.ok.inj h)
            exact Or.inr ⟨rfl, rfl, rfl⟩

/-- Every fault of `Encode` that is not about its buffers comes from the image slot. -/
theorem encode_fault {e : JetsonEncoder} {frame : Frame} {o : EncodeOutcomes}
    {fault : EncoderFault} (h : e.encode frame o = .error fault) :
    fault = .nullEncoder ∨ fault = .outOfBounds ∨ ∃ enc index plane copied,
      Reaches e enc frame o index plane copied ∧ syncPlanes o copied.numPlanes = none ∧
        e.useImage index = .error fault := by
  obtain ⟨failed, -⟩ | ⟨-, null⟩ | outside | ⟨enc, index, plane, copied, reaches⟩ :=
    encode_start e frame o
  · rw [failed] at h
    cases h
  · exact Or.inl (Except.error.inj (h.symm.trans null))
  · exact Or.inr (Or.inl (Except.error.inj (h.symm.trans outside)))
  · rw [reaches.encode_eq] at h
    cases hs : syncPlanes o copied.numPlanes with
    | some failure =>
        rw [hs] at h
        cases h
    | none =>
        rw [hs] at h
        obtain slot | ⟨slot, -, h⟩ := bind_eq_error h
        · exact Or.inr (Or.inr ⟨enc, index, plane, copied, reaches, hs, slot⟩)
        · split at h <;> cases h

theorem useImage_ok {e : JetsonEncoder} {index p : Nat} {array : ImageArray}
    {image : EncodedImage} (h : e.useImage index = .ok (p, array, image)) :
    e.ctx.encodedImages = some p ∧ e.arrays[p]? = some array ∧ array.deleted = false ∧
      array.images[index]? = some image := by
  unfold useImage at h
  cases hp : e.ctx.encodedImages with
  | none => simp [hp] at h
  | some q =>
      cases ha : e.arrays[q]? with
      | none => simp [hp, ha] at h
      | some found =>
          cases hd : found.deleted with
          | true => simp [hp, ha, hd] at h
          | false =>
              cases hi : found.images[index]? with
              | none => simp [hp, ha, hd, hi] at h
              | some slot =>
                  simp only [hp, ha, hd, hi, Bool.false_eq_true, if_false] at h
                  obtain ⟨rfl, rest⟩ := Prod.mk.inj (Except.ok.inj h)
                  obtain ⟨rfl, rfl⟩ := Prod.mk.inj rest
                  exact ⟨rfl, ha, hd, hi⟩

theorem useImage_fault {e : JetsonEncoder} {index : Nat} {fault : EncoderFault}
    (h : e.useImage index = .error fault) :
    fault = .nullImages ∨ ∃ p array, e.ctx.encodedImages = some p ∧ e.arrays[p]? = some array ∧
      ((fault = .useAfterDelete ∧ array.deleted = true) ∨
        (fault = .imageOutOfRange ∧ array.images.length ≤ index)) := by
  unfold useImage at h
  cases hp : e.ctx.encodedImages with
  | none =>
      simp only [hp] at h
      exact Or.inl (Except.error.inj h).symm
  | some p =>
      cases ha : e.arrays[p]? with
      | none =>
          simp only [hp, ha] at h
          exact Or.inl (Except.error.inj h).symm
      | some array =>
          refine Or.inr ⟨p, array, rfl, ha, ?_⟩
          cases hd : array.deleted with
          | true =>
              simp only [hp, ha, hd, if_true] at h
              exact Or.inl ⟨(Except.error.inj h).symm, rfl⟩
          | false =>
              cases hi : array.images[index]? with
              | none =>
                  simp only [hp, ha, hd, hi, Bool.false_eq_true, if_false] at h
                  exact Or.inr ⟨(Except.error.inj h).symm, List.getElem?_eq_none_iff.mp hi⟩
              | some image => simp [hp, ha, hd, hi] at h

theorem callback_fault {e : JetsonEncoder} {o : CallbackOutcomes} {fault : EncoderFault}
    (h : e.callback o = .error fault) :
    fault = .nullEncoder ∨ ∃ enc index, e.ctx.enc = some enc ∧
      e.thread = .inCallback (some index) ∧ o.bytesused ≠ 0 ∧
      e.useImage index = .error fault := by
  unfold callback at h
  cases ht : e.thread with
  | inCallback buf =>
      rw [ht] at h
      obtain h | ⟨result, -, h⟩ := bind_eq_error h
      · unfold encoderCapturePlaneCallback at h
        obtain h | ⟨enc, henc, h⟩ := bind_eq_error h
        · exact Or.inl (useEnc_fault h)
        · cases buf with
          | none => cases h
          | some index =>
              by_cases used : o.bytesused = 0
              · simp only [used, if_true] at h
                cases h
              · simp only [used, if_false] at h
                obtain h | ⟨slot, -, h⟩ := bind_eq_error h
                · exact Or.inr ⟨enc, index, useEnc_ok.mp henc, rfl, used, h⟩
                · split at h <;> cases h
      · cases h
  | notStarted | waiting | stopped =>
      rw [ht] at h
      cases h

theorem enqueue_fault {e : JetsonEncoder} {accepted : Bool} {fault : EncoderFault}
    (h : e.enqueue accepted = .error fault) : fault = .nullEncoder := by
  unfold enqueue at h
  split at h
  next => cases h
  next =>
      obtain h | ⟨enc, -, h⟩ := bind_eq_error h
      · exact useEnc_fault h
      · split at h
        · split at h <;> cases h
        · cases h

theorem dequeueCapture_fault {e : JetsonEncoder} {pick : Option Nat} {fault : EncoderFault}
    (h : e.dequeueCapture pick = .error fault) : fault = .nullEncoder := by
  unfold dequeueCapture at h
  split at h
  next =>
      obtain h | ⟨enc, -, h⟩ := bind_eq_error h
      · exact useEnc_fault h
      · split at h <;> cases h
  next => cases h

theorem release_fault {e : JetsonEncoder} {inError : Bool} {fault : EncoderFault}
    (h : e.release inError = .error fault) :
    fault = .nullImages ∨ (fault = .doubleDelete ∧ ∃ p array,
      e.ctx.encodedImages = some p ∧ e.arrays[p]? = some array ∧ array.deleted = true) := by
  unfold release at h
  cases hp : e.ctx.encodedImages with
  | none =>
      rw [hp] at h
      cases h
  | some p =>
      cases ha : e.arrays[p]? with
      | none =>
          simp only [hp, ha] at h
          exact Or.inl (Except.error.inj h).symm
      | some array =>
          cases hd : array.deleted with
          | true =>
              simp only [hp, ha, hd, if_true] at h
              exact Or.inr ⟨(Except.error.inj h).symm, p, array, rfl, ha, hd⟩
          | false =>
              simp only [hp, ha, hd, Bool.false_eq_true, if_false] at h
              cases h

theorem release_cases {e f : JetsonEncoder} {inError : Bool} {code : Int}
    (h : e.release inError = .ok (f, code)) :
    (e.ctx.encodedImages = none ∧ f = e) ∨
    (∃ p array, e.ctx.encodedImages = some p ∧ e.arrays[p]? = some array ∧
      array.deleted = false ∧
      f = { e with arrays := e.arrays.set p { array with deleted := true } }) := by
  unfold release at h
  cases hp : e.ctx.encodedImages with
  | none =>
      rw [hp] at h
      exact Or.inl ⟨rfl, (Prod.mk.inj (Except.ok.inj h)).1.symm⟩
  | some p =>
      rw [hp] at h
      cases ha : e.arrays[p]? with
      | none => simp [ha] at h
      | some array =>
          cases hd : array.deleted with
          | true => simp [ha, hd] at h
          | false =>
              refine Or.inr ⟨p, array, rfl, ha, hd, ?_⟩
              simp [ha, hd, pure, Except.pure] at h
              exact h.1.symm

theorem finishOutput_cases (e : JetsonEncoder) (index : Nat) :
    (e.ctx.enc = none ∧ e.finishOutput index = e) ∨
    ∃ enc, e.ctx.enc = some enc ∧ e.finishOutput index =
      e.setEnc { enc with outputPlane := enc.outputPlane.finish index } := by
  cases henc : e.ctx.enc with
  | none => exact Or.inl ⟨rfl, by rw [finishOutput, henc]⟩
  | some enc => exact Or.inr ⟨enc, rfl, by rw [finishOutput, henc]⟩

theorem finishCapture_cases (e : JetsonEncoder) (index : Nat) :
    (e.ctx.enc = none ∧ e.finishCapture index = e) ∨
    ∃ enc, e.ctx.enc = some enc ∧ e.finishCapture index =
      e.setEnc { enc with capturePlane := enc.capturePlane.finish index } := by
  cases henc : e.ctx.enc with
  | none => exact Or.inl ⟨rfl, by rw [finishCapture, henc]⟩
  | some enc => exact Or.inr ⟨enc, rfl, by rw [finishCapture, henc]⟩

theorem encode_of_step {e f : JetsonEncoder} {frame : Frame} {o : EncodeOutcomes}
    (h : encoderStep e (.encode frame o) = .ok f) : ∃ r, e.encode frame o = .ok (f, r) := by
  obtain ⟨⟨g, r⟩, encoded, rfl⟩ := map_eq_ok h
  exact ⟨r, encoded⟩

theorem release_of_step {e f : JetsonEncoder} {inError : Bool}
    (h : encoderStep e (.release inError) = .ok f) :
    ∃ code, e.release inError = .ok (f, code) := by
  obtain ⟨⟨g, code⟩, released, rfl⟩ := map_eq_ok h
  exact ⟨code, released⟩

end JetsonEncoder

def EncoderAction.usesOutput : EncoderAction → Bool
  | .initEncode .. | .encode .. | .finishOutput _ | .callback _ => true
  | _ => false

/-- Two states with the same output plane and the same count of queued frames. -/
structure SameOutput (e f : JetsonEncoder) : Prop where
  plane : f.ctx.enc.map (·.outputPlane) = e.ctx.enc.map (·.outputPlane)
  count : f.ctx.inputFramesQueuedCount = e.ctx.inputFramesQueuedCount

open JetsonEncoder

theorem sameOutput_of_step {e f : JetsonEncoder} {a : EncoderAction}
    (other : a.usesOutput = false) (h : encoderStep e a = .ok f) : SameOutput e f := by
  cases a with
  | initEncode width height setup captureBuffers outputBuffers => cases other
  | encode frame o => cases other
  | finishOutput index => cases other
  | enqueue accepted =>
      obtain ⟨-, rfl⟩ | ⟨i, enc, -, henc, ⟨-, -, rfl⟩ | ⟨-, rfl⟩⟩ := enqueue_cases h
      · exact ⟨rfl, rfl⟩
      · exact ⟨by rw [henc]; rfl, rfl⟩
      · exact ⟨rfl, rfl⟩
  | dequeueCapture pick =>
      obtain ⟨-, rfl⟩ | ⟨-, enc, henc, ⟨-, rfl⟩ | ⟨i, plane, -, rfl⟩⟩ := dequeueCapture_cases h
      · exact ⟨rfl, rfl⟩
      · exact ⟨rfl, rfl⟩
      · exact ⟨by rw [henc]; rfl, rfl⟩
  | callback o => cases other
  | finishCapture index =>
      obtain rfl := Except.ok.inj h
      obtain ⟨-, same⟩ | ⟨enc, henc, eq⟩ := finishCapture_cases e index
      · rw [same]
        exact ⟨rfl, rfl⟩
      · rw [eq]
        exact ⟨by rw [henc]; rfl, rfl⟩
  | release inError =>
      obtain ⟨code, released⟩ := release_of_step h
      obtain ⟨-, rfl⟩ | ⟨p, array, -, -, -, rfl⟩ := release_cases released
      · exact ⟨rfl, rfl⟩
      · exact ⟨rfl, rfl⟩

/-- Of the callbacks, those that give up leave of the output plane what the abort leaves. -/
theorem output_of_callback {e f : JetsonEncoder} {o : CallbackOutcomes}
    (h : e.callback o = .ok f) :
    (¬ e.GivesUp o ∧ SameOutput e f) ∨
    (e.GivesUp o ∧ f.ctx.inputFramesQueuedCount = e.ctx.inputFramesQueuedCount ∧
      ∃ enc enc', e.ctx.enc = some enc ∧ f.ctx.enc = some enc' ∧
        enc'.outputPlane = enc.outputPlane.abort o.abort.outputKept) := by
  obtain ⟨idle, rfl⟩ | ⟨buf, g, goOn, selected, running, called, rfl⟩ := callback_cases h
  · refine Or.inl ⟨?_, rfl, rfl⟩
    rintro ⟨buf, running, -⟩
    exact idle buf running
  · obtain ⟨enc, henc, ⟨cause, rfl, -⟩ | ⟨index, p, array, image, rfl, used, -, -,
      ⟨refused, -, rfl⟩ | ⟨accepted, -, rfl⟩⟩⟩ := encoderCapturePlaneCallback_cases called
    · exact Or.inr ⟨⟨buf, running, cause.imp_right Or.inl⟩, rfl, enc, _, henc, rfl, rfl⟩
    · exact Or.inr ⟨⟨_, running, Or.inr (Or.inr refused)⟩, rfl, enc, _, henc, rfl, rfl⟩
    · refine Or.inl ⟨?_, by rw [henc]; rfl, rfl⟩
      rintro ⟨buf, same, none | empty | refused⟩
      · rw [running, none] at same
        cases same
      · exact used empty
      · rw [accepted] at refused
        cases refused

end Wadi
