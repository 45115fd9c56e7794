import Wadi.Library.Runs

/-!
The hardware encoder `JetsonEncoder` and the two buffer planes it talks to.

A plane knows which of its buffers the hardware holds and which it has finished
with. `dqBuffer` hands out a finished buffer, of the hardware's choosing, and
fails when it has none to give; `qBuffer` hands one over. `InitEncode` starts the
thread that serves the capture plane before its own loop fills that plane, so
the loop is taken one turn at a time. Results of outside calls are parameters
of a step, and so is which buffers the planes lose when the hardware encoder is
aborted. Undefined behaviour and failed assertions end a run with a fault.
-/

namespace Wadi

structure Plane where
  numBuffers : Nat := 0
  held : List Nat := []
  done : List Nat := []
  deriving DecidableEq, Repr

/-- A finished buffer leaves the plane; `pick` is the hardware's choice. -/
def Plane.dqBuffer (p : Plane) (pick : Option Nat) : Option (Nat × Plane) :=
  match pick with
  | some i => if i ∈ p.done then some (i, { p with done := p.done.erase i }) else none
  | none => none

def Plane.qBuffer (p : Plane) (i : Nat) (accepted : Bool) : Option Plane :=
  if accepted then some { p with held := p.held ++ [i] } else none

def Plane.finish (p : Plane) (i : Nat) : Plane :=
  if i ∈ p.held then { p with held := p.held.erase i, done := p.done ++ [i] } else p

/-- The plane after the hardware encoder was aborted: buffers may be gone, none is added. -/
def Plane.abort (p : Plane) (kept : Nat → Bool) : Plane :=
  { p with held := p.held.filter kept, done := p.done.filter kept }

inductive Rotation where
  | deg0
  | deg90
  | deg180
  | deg270
  deriving DecidableEq, Repr

/-- A frame as I420: the bytes from the start of each picture plane on. -/
structure Frame where
  dataY : List UInt8
  dataU : List UInt8
  dataV : List UInt8
  timestamp : UInt32
  ntpTimeMs : Int
  renderTimeMs : Int
  rotation : Rotation
  colorSpace : Option Nat
  deriving DecidableEq, Repr

structure EncodedImage where
  encodedWidth : UInt32 := 0
  encodedHeight : UInt32 := 0
  timestamp : UInt32 := 0
  ntpTimeMs : Int := 0
  captureTimeMs : Int := 0
  rotation : Rotation := .deg0
  colorSpace : Option Nat := none
  capacity : Nat := 0
  deriving DecidableEq, Repr

def EncodedImage.allocate (image : EncodedImage) (required : Nat) : EncodedImage :=
  if image.capacity < required then { image with capacity := required } else image

/-- An array made by `new[]`, kept after `delete[]` so that later uses show. -/
structure ImageArray where
  images : List EncodedImage
  deleted : Bool := false
  deriving DecidableEq, Repr

structure BufferPlane where
  data : List UInt8
  bytesused : Nat
  deriving DecidableEq, Repr

/-- The first three entries of `planes` and how many of them the buffer uses. -/
structure NvBuffer where
  y : BufferPlane
  u : BufferPlane
  v : BufferPlane
  numPlanes : Nat := 3
  deriving DecidableEq, Repr

structure NvVideoEncoder where
  outputPlane : Plane
  capturePlane : Plane
  outputBuffers : List NvBuffer
  deriving DecidableEq, Repr

/-- The fields of `context_t` the encoder uses; `encodedImages` is an index into
the arrays allocated so far. -/
structure Context where
  enc : Option NvVideoEncoder := none
  encodeWidth : UInt32 := 0
  encodeHeight : UInt32 := 0
  numOutputBuffers : Nat := 0
  encodedImages : Option Nat := none
  gotError : Bool := false
  inputFramesQueuedCount : UInt32 := 0
  deriving DecidableEq, Repr

/-- The thread that dequeues capture buffers and calls back with them. -/
inductive DqThread where
  | notStarted
  | waiting
  | inCallback (buf : Option Nat)
  | stopped
  deriving DecidableEq, Repr

/-- `enqueueing` is the loop variable of an `InitEncode` that has not returned. -/
structure JetsonEncoder where
  ctx : Context := {}
  arrays : List ImageArray := []
  enqueueing : Option Nat := none
  thread : DqThread := .notStarted
  deriving DecidableEq, Repr

inductive EncoderFault where
  | assertFailed
  | nullEncoder
  | nullImages
  | outOfBounds
  | imageOutOfRange
  | useAfterDelete
  | doubleDelete
  deriving DecidableEq, Repr

/-- How `Encode` ended; every result but the first is returned as `-1`. -/
inductive EncodeResult where
  | queued
  | dqFailed
  | surfaceFailed
  | syncFailed
  | qFailed
  deriving DecidableEq, Repr

def EncodeResult.code : EncodeResult → Int
  | .queued => 0
  | _ => -1

/-- The call got as far as filing the metadata of its frame. -/
def EncodeResult.filed : EncodeResult → Bool
  | .queued | .qFailed => true
  | _ => false

structure EncodeOutcomes where
  pick : Option Nat
  fromFd : Nat → Bool
  sync : Nat → Bool
  accepted : Bool

/-- The buffers that the two planes still know after `NvVideoEncoder::abort`. -/
structure Abort where
  outputKept : Nat → Bool := fun _ => true
  captureKept : Nat → Bool := fun _ => true

/-- What one capture callback is given and what its calls answer: the bytes in its buffer,
`webrtc::CalcBufferSize`, whether the buffer is accepted, and what an abort leaves. -/
structure CallbackOutcomes where
  bytesused : Nat := 1
  requiredCapacity : Nat := 0
  accepted : Bool := true
  abort : Abort := {}

inductive EncoderAction where
  | initEncode (width height : UInt32) (setup : Bool) (captureBuffers : Nat)
      (outputBuffers : List NvBuffer)
  | enqueue (accepted : Bool)
  | encode (frame : Frame) (o : EncodeOutcomes)
  | dequeueCapture (pick : Option Nat)
  | callback (o : CallbackOutcomes)
  | finishOutput (index : Nat)
  | finishCapture (index : Nat)
  | release (inError : Bool)

namespace JetsonEncoder

def useEnc (e : JetsonEncoder) : Except EncoderFault NvVideoEncoder :=
  match e.ctx.enc with
  | some enc => .ok enc
  | none => .error .nullEncoder

def setEnc (e : JetsonEncoder) (enc : NvVideoEncoder) : JetsonEncoder :=
  { e with ctx := { e.ctx with enc := some enc } }

/-- `InitEncode` up to its loop. `SetDefaults` clears the context, and with it the
pointer to an earlier array; ten output-plane buffers are set up and none of
them is queued. -/
def initEncode (e : JetsonEncoder) (width height : UInt32) (setup : Bool)
    (captureBuffers : Nat) (outputBuffers : List NvBuffer) :
    Except EncoderFault JetsonEncoder :=
  if setup then
    .ok {
      ctx := {
        enc := some {
          outputPlane := { numBuffers := 10 }
          capturePlane := { numBuffers := captureBuffers }
          outputBuffers := outputBuffers }
        encodeWidth := width
        encodeHeight := height
        numOutputBuffers := 6
        encodedImages := some e.arrays.length }
      arrays := e.arrays ++ [{ images := List.replicate 6 {} }]
      enqueueing := some 0
      thread := .waiting }
  else .error .assertFailed

/-- One turn of the loop at the end of `InitEncode`; it returns when the loop is
over or the buffer is refused. -/
def enqueue (e : JetsonEncoder) (accepted : Bool) : Except EncoderFault JetsonEncoder :=
  match e.enqueueing with
  | none => .ok e
  | some i => do
      let enc ← e.useEnc
      if i < enc.capturePlane.numBuffers then
        match enc.capturePlane.qBuffer i accepted with
        | some plane =>
            .ok { e.setEnc { enc with capturePlane := plane } with enqueueing := some (i + 1) }
        | none => .ok { e with enqueueing := none }
      else .ok { e with enqueueing := none }

/-- The image slot `encoded_images[index]` of the current array. -/
def useImage (e : JetsonEncoder) (index : Nat) :
    Except EncoderFault (Nat × ImageArray × EncodedImage) :=
  match e.ctx.encodedImages with
  | none => .error .nullImages
  | some p =>
      match e.arrays[p]? with
      | none => .error .nullImages
      | some array =>
          if array.deleted then .error .useAfterDelete
          else match array.images[index]? with
            | none => .error .imageOutOfRange
            | some image => .ok (p, array, image)

def setImage (e : JetsonEncoder) (p : Nat) (array : ImageArray) (index : Nat)
    (image : EncodedImage) : JetsonEncoder :=
  { e with arrays := e.arrays.set p { array with images := array.images.set index image } }

/-- `memcpy` of `bytesused` bytes into the start of a buffer plane. -/
def copyPlane (plane : BufferPlane) (data : List UInt8) : Except EncoderFault BufferPlane :=
  if data.length < plane.bytesused ∨ plane.data.length < plane.bytesused then
    .error .outOfBounds
  else .ok { plane with data := data.take plane.bytesused ++ plane.data.drop plane.bytesused }

def copyFrame (buffer : NvBuffer) (frame : Frame) : Except EncoderFault NvBuffer := do
  let y ← copyPlane buffer.y frame.dataY
  let u ← copyPlane buffer.u frame.dataU
  let v ← copyPlane buffer.v frame.dataV
  return { buffer with y := y, u := u, v := v }

def syncPlanes (o : EncodeOutcomes) (numPlanes : Nat) : Option EncodeResult :=
  (List.range numPlanes).findSome? (fun j =>
    if !o.fromFd j then some .surfaceFailed
    else if !o.sync j then some .syncFailed
    else none)

def describe (e : JetsonEncoder) (image : EncodedImage) (frame : Frame) : EncodedImage :=
  { image with
    encodedWidth := e.ctx.encodeWidth
    encodedHeight := e.ctx.encodeHeight
    timestamp := frame.timestamp
    ntpTimeMs := frame.ntpTimeMs
    captureTimeMs := frame.renderTimeMs
    rotation := frame.rotation
    colorSpace := frame.colorSpace }

def encode (e : JetsonEncoder) (frame : Frame) (o : EncodeOutcomes) :
    Except EncoderFault (JetsonEncoder × EncodeResult) := do
  let enc ← e.useEnc
  match enc.outputPlane.dqBuffer o.pick with
  | none => return (e, .dqFailed)
  | some (index, plane) =>
      match enc.outputBuffers[index]? with
      | none => .error .outOfBounds
      | some buffer => do
          let buffer ← copyFrame buffer frame
          let enc := { enc with
            outputPlane := plane, outputBuffers := enc.outputBuffers.set index buffer }
          let e := e.setEnc enc
          match syncPlanes o buffer.numPlanes with
          | some failure => return (e, failure)
          | none =>
              let (p, array, image) ← e.useImage index
              let e := e.setImage p array index (e.describe image frame)
              match enc.outputPlane.qBuffer index o.accepted with
              | none => return (e, .qFailed)
              | some plane =>
                  let e := e.setEnc { enc with outputPlane := plane }
                  return ({ e with ctx := { e.ctx with
                    inputFramesQueuedCount := e.ctx.inputFramesQueuedCount + 1 } }, .queued)

def abort (e : JetsonEncoder) (enc : NvVideoEncoder) (a : Abort) : JetsonEncoder :=
  let e := { e with ctx := { e.ctx with gotError := true } }
  e.setEnc { enc with
    outputPlane := enc.outputPlane.abort a.outputKept
    capturePlane := enc.capturePlane.abort a.captureKept }

/-- The thread takes a buffer from the capture plane and enters the callback with
it, or with a null pointer when it gets none. -/
def dequeueCapture (e : JetsonEncoder) (pick : Option Nat) :
    Except EncoderFault JetsonEncoder :=
  match e.thread with
  | .waiting => do
      let enc ← e.useEnc
      match enc.capturePlane.dqBuffer pick with
      | none => return { e with thread := .inCallback none }
      | some (i, plane) =>
          return { e.setEnc { enc with capturePlane := plane } with
            thread := .inCallback (some i) }
  | _ => .ok e

/-- `EncoderCapturePlaneCallback`, with what it returns to the thread and the image it has
selected, if it came so far. -/
def encoderCapturePlaneCallback (e : JetsonEncoder) (buf : Option Nat) (o : CallbackOutcomes) :
    Except EncoderFault (JetsonEncoder × Bool × Option EncodedImage) := do
  let enc ← e.useEnc
  match buf with
  | none => return (e.abort enc o.abort, false, none)
  | some index =>
      if o.bytesused = 0 then return (e.abort enc o.abort, false, none)
      else do
        let (p, array, image) ← e.useImage index
        let image := image.allocate o.requiredCapacity
        let e := e.setImage p array index image
        match enc.capturePlane.qBuffer index o.accepted with
        | none => return (e.abort enc o.abort, false, some image)
        | some plane => return (e.setEnc { enc with capturePlane := plane }, true, some image)

/-- The thread goes on when the callback returns true and stops otherwise. -/
def callback (e : JetsonEncoder) (o : CallbackOutcomes) : Except EncoderFault JetsonEncoder :=
  match e.thread with
  | .inCallback buf => do
      let (e, goOn, _) ← e.encoderCapturePlaneCallback buf o
      return { e with thread := if goOn then .waiting else .stopped }
  | _ => .ok e

/-- The pointer to the deleted array is kept. -/
def release (e : JetsonEncoder) (inError : Bool) : Except EncoderFault (JetsonEncoder × Int) := do
  let error := (e.ctx.enc.isSome && inError) || e.ctx.gotError
  let code : Int := if error then -1 else 0
  match e.ctx.encodedImages with
  | none => return (e, code)
  | some p =>
      match e.arrays[p]? with
      | none => .error .nullImages
      | some array =>
          if array.deleted then .error .doubleDelete
          else return ({ e with arrays := e.arrays.set p { array with deleted := true } }, code)

def finishOutput (e : JetsonEncoder) (index : Nat) : JetsonEncoder :=
  match e.ctx.enc with
  | none => e
  | some enc => e.setEnc { enc with outputPlane := enc.outputPlane.finish index }

def finishCapture (e : JetsonEncoder) (index : Nat) : JetsonEncoder :=
  match e.ctx.enc with
  | none => e
  | some enc => e.setEnc { enc with capturePlane := enc.capturePlane.finish index }

end JetsonEncoder

def encoderStep (e : JetsonEncoder) : EncoderAction → Except EncoderFault JetsonEncoder
  | .initEncode width height setup captureBuffers outputBuffers =>
      e.initEncode width height setup captureBuffers outputBuffers
  | .enqueue accepted => e.enqueue accepted
  | .encode frame o => (e.encode frame o).map Prod.fst
  | .dequeueCapture pick => e.dequeueCapture pick
  | .callback o => e.callback o
  | .finishOutput index => .ok (e.finishOutput index)
  | .finishCapture index => .ok (e.finishCapture index)
  | .release inError => (e.release inError).map Prod.fst

end Wadi
