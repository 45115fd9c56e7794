import Wadi.Encoder.Steps

/-!
An encoder whose driver may hand out any output-plane buffer. `encoderStep` only
gives back what was queued; here the driver may also offer, at any time, any of the
buffers that were set up. Fewer runs are excluded, so what holds of every run here
asks less of the hardware.
-/

namespace Wadi
open Runs JetsonEncoder

namespace JetsonEncoder

def offer (e : JetsonEncoder) (index : Nat) : JetsonEncoder :=
  match e.ctx.enc with
  | none => e
  | some enc =>
      if index < enc.outputPlane.numBuffers then
        e.setEnc { enc with outputPlane :=
          { enc.outputPlane with done := enc.outputPlane.done ++ [index] } }
      else e

end JetsonEncoder

inductive DriverAction where
  | encoder (a : EncoderAction)
  | offer (index : Nat)

def driverStep (e : JetsonEncoder) : DriverAction → Except EncoderFault JetsonEncoder
  | .encoder a => encoderStep e a
  | .offer index => .ok (e.offer index)

namespace JetsonEncoder

theorem offer_cases (e : JetsonEncoder) (index : Nat) :
    e.offer index = e ∨ ∃ enc, e.ctx.enc = some enc ∧ index < enc.outputPlane.numBuffers ∧
      e.offer index = e.setEnc { enc with outputPlane :=
        { enc.outputPlane with done := enc.outputPlane.done ++ [index] } } := by
  unfold offer
  cases henc : e.ctx.enc with
  | none => exact Or.inl rfl
  | some enc =>
      by_cases inside : index < enc.outputPlane.numBuffers
      · exact Or.inr ⟨enc, rfl, inside, if_pos inside⟩
      · exact Or.inl (if_neg inside)

theorem filed_of_syncPlanes {o : EncodeOutcomes} {numPlanes : Nat} {r : EncodeResult}
    (h : syncPlanes o numPlanes = some r) : r.filed = false := by
  obtain ⟨j, -, failed⟩ := List.exists_of_findSome?_eq_some h
  split at failed
  next => exact Option.some.inj failed ▸ rfl
  next =>
      split at failed
      next => exact Option.some.inj failed ▸ rfl
      next => cases failed

/-- An `Encode` that does not fail before its metadata files it under the number of the
output-plane buffer the hardware has chosen. -/
theorem arrays_of_encode {e f : JetsonEncoder} {frame : Frame} {o : EncodeOutcomes}
    {r : EncodeResult} (h : e.encode frame o = .ok (f, r)) :
    (r.filed = false ∧ f.arrays = e.arrays) ∨
    ∃ index p array image, r.filed = true ∧ o.pick = some index ∧
      e.useImage index = .ok (p, array, image) ∧
      f.arrays = (e.setImage p array index (e.describe image frame)).arrays := by
  obtain ⟨rfl, rfl, -⟩ | ⟨enc, index, plane, copied, reaches, ⟨failed, rfl⟩ |
    ⟨p, array, image, -, slot, rest⟩⟩ := encode_cases h
  · exact Or.inl ⟨rfl, rfl⟩
  · exact Or.inl ⟨filed_of_syncPlanes failed, rfl⟩
  · obtain ⟨pick, -, -⟩ := Plane.dqBuffer_eq_some reaches.dequeued
    obtain ⟨-, rfl, rfl⟩ | ⟨-, rfl, rfl⟩ := rest
    · exact Or.inr ⟨index, p, array, image, rfl, pick, slot, rfl⟩
    · exact Or.inr ⟨index, p, array, image, rfl, pick, slot, rfl⟩

theorem map_setImage {β : Type} (view : ImageArray → β)
    (blind : ∀ (array : ImageArray) index image,
      view { array with images := array.images.set index image } = view array)
    {e : JetsonEncoder} {p : Nat} {array : ImageArray} (h : e.arrays[p]? = some array)
    (index : Nat) (image : EncodedImage) :
    (e.setImage p array index image).arrays.map view = e.arrays.map view := by
  have slot : (e.arrays.map view)[p]? = some (view array) := by
    rw [List.getElem?_map, h]
    rfl
  obtain ⟨inside, value⟩ := List.getElem?_eq_some_iff.mp slot
  rw [setImage, List.map_set]
  simp only [blind, ← value, List.set_getElem_self]

section
variable {β : Type} (view : ImageArray → β)
  (blind : ∀ (array : ImageArray) index image,
    view { array with images := array.images.set index image } = view array)
include blind

theorem arrays_of_encodeStep {e f : JetsonEncoder} {frame : Frame} {o : EncodeOutcomes}
    {r : EncodeResult} (h : e.encode frame o = .ok (f, r)) :
    f.arrays.map view = e.arrays.map view ∧ f.ctx.encodedImages = e.ctx.encodedImages := by
  constructor
  · obtain ⟨-, arrays⟩ | ⟨index, p, array, image, -, -, slot, arrays⟩ := arrays_of_encode h
    · rw [arrays]
    · rw [arrays]
      exact map_setImage view blind (useImage_ok slot).2.1 _ _
  · obtain ⟨rfl, -⟩ | ⟨enc, index, plane, copied, -, ⟨-, rfl⟩ | ⟨p, array, image, -, -,
      ⟨-, -, rfl⟩ | ⟨-, -, rfl⟩⟩⟩ := encode_cases h
    all_goals rfl

theorem arrays_of_callback {e f : JetsonEncoder} {o : CallbackOutcomes}
    (h : e.callback o = .ok f) :
    f.arrays.map view = e.arrays.map view ∧ f.ctx.encodedImages = e.ctx.encodedImages := by
  obtain ⟨-, rfl⟩ | ⟨buf, g, goOn, selected, -, called, rfl⟩ := callback_cases h
  · exact ⟨rfl, rfl⟩
  · obtain ⟨enc, -, ⟨-, rfl, -⟩ | ⟨index, p, array, image, -, -, slot, -,
      ⟨-, -, rfl⟩ | ⟨-, -, rfl⟩⟩⟩ := encoderCapturePlaneCallback_cases called
    · exact ⟨rfl, rfl⟩
    · exact ⟨map_setImage view blind (useImage_ok slot).2.1 _ _, rfl⟩
    · exact ⟨map_setImage view blind (useImage_ok slot).2.1 _ _, rfl⟩

/-- Steps other than `InitEncode` and `Release` change nothing of the arrays but single
images, and keep the pointer. -/
theorem arrays_of_step {e f : JetsonEncoder} {a : DriverAction} (h : driverStep e a = .ok f)
    (init : ∀ width height setup captureBuffers outputBuffers,
      a ≠ .encoder (.initEncode width height setup captureBuffers outputBuffers))
    (release : ∀ inError, a ≠ .encoder (.release inError)) :
    f.arrays.map view = e.arrays.map view ∧ f.ctx.encodedImages = e.ctx.encodedImages := by
  cases a with
  | offer index =>
      obtain rfl := Except.ok.inj h
      obtain same | ⟨enc, -, -, eq⟩ := offer_cases e index
      · rw [same]
        exact ⟨rfl, rfl⟩
      · rw [eq]
        exact ⟨rfl, rfl⟩
  | encoder a =>
      cases a with
      | initEncode width height setup captureBuffers outputBuffers =>
          exact absurd rfl (init width height setup captureBuffers outputBuffers)
      | release inError => exact absurd rfl (release inError)
      | enqueue accepted =>
          obtain ⟨-, rfl⟩ | ⟨i, enc, -, -, ⟨-, -, rfl⟩ | ⟨-, rfl⟩⟩ := enqueue_cases h
          all_goals exact ⟨rfl, rfl⟩
      | encode frame o =>
          obtain ⟨r, encoded⟩ := encode_of_step h
          exact arrays_of_encodeStep view blind encoded
      | dequeueCapture pick =>
          obtain ⟨-, rfl⟩ | ⟨-, enc, -, ⟨-, rfl⟩ | ⟨i, plane, -, rfl⟩⟩ := dequeueCapture_cases h
          all_goals exact ⟨rfl, rfl⟩
      | callback o => exact arrays_of_callback view blind h
      | finishOutput index =>
          obtain rfl := Except.ok.inj h
          cases henc : e.ctx.enc <;> simp [finishOutput, henc, setEnc]
      | finishCapture index =>
          obtain rfl := Except.ok.inj h
          cases henc : e.ctx.enc <;> simp [finishCapture, henc, setEnc]

end

end JetsonEncoder
end Wadi
