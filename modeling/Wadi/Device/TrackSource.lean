import Wadi.Device.Descriptors
import Wadi.Device.PixelFormat
import Wadi.Library.Numerals
import Wadi.Session.Model

/-!
The video source `CapturerTrackSource` and what it asks the capture module for.

`AddCaptureDevice` opens the device, with or without a configuration, and the source
that is built around it starts capturing with the size, frame rate and pixel format the
device object holds. The kernel, the factory for capture modules and `StartCapture` are
the world outside. A device object is built in memory with arbitrary contents, of which
the constructor leaves the frame rate alone.
-/

namespace Wadi
open SizeString Numerals

structure CaptureTrackConfig where
  width : UInt32
  height : UInt32
  fps : UInt32
  fourcc : Fourcc
  deriving DecidableEq, Repr

inductive VideoType where
  | kUnknown
  | kI420
  | kIYUV
  | kRGB24
  | kABGR
  | kARGB
  | kARGB4444
  | kRGB565
  | kARGB1555
  | kYUY2
  | kYV12
  | kUYVY
  | kMJPEG
  | kNV21
  | kNV12
  | kBGRA
  deriving DecidableEq, Repr

structure VideoCaptureCapability where
  width : Int := 0
  height : Int := 0
  maxFPS : Int := 0
  videoType : VideoType := .kUnknown
  interlaced : Bool := false
  deriving DecidableEq, Repr

inductive CaptureStop where
  | device (e : V4LError)
  | noCapturer
  | assertFailed
  deriving DecidableEq, Repr

/-- What is outside: the kernel's answers, whether there is a capture module for a bus,
and what `StartCapture` returns. -/
structure CaptureWorld where
  answers : KernelAnswers
  capturer : Str → Bool
  startCapture : VideoCaptureCapability → Int

structure CapturerTrackSource where
  device : V4LDevice
  deriving DecidableEq, Repr

/-- The descriptors open afterwards, the request `StartCapture` was called with, and the
source or what ended its construction. -/
structure CaptureRun where
  openFds : List Int
  request : Option VideoCaptureCapability
  result : Except CaptureStop CapturerTrackSource

/-- The text `RGB24` has five characters and is never met. -/
def fourccToVideotype (fourcc : Str) : Except CaptureStop VideoType :=
  if fourcc.length ≠ 4 then .error .assertFailed
  else .ok (
    if fourcc = "I420".toList ∨ fourcc = "YU12".toList then .kI420
    else if fourcc = "IYUV".toList then .kIYUV
    else if fourcc = "RGB24".toList then .kRGB24
    else if fourcc = "YUY2".toList ∨ fourcc = "YUYV".toList then .kYUY2
    else if fourcc = "YV12".toList then .kYV12
    else if fourcc = "UYVY".toList then .kUYVY
    else if fourcc = "NV21".toList then .kNV21
    else if fourcc = "NV12".toList then .kNV12
    else if fourcc = "BGRA".toList then .kBGRA
    else .kUnknown)

namespace V4LDevice

/-- What `CreateWithConfig` writes into the device object. -/
def configure (d : V4LDevice) (config : CaptureTrackConfig) : V4LDevice :=
  { d with
    fmt := { d.fmt with
      width := config.width
      height := config.height
      pixelformat := v4l2Fourcc config.fourcc.a config.fourcc.b config.fourcc.c config.fourcc.d }
    framerate := config.fps }

/-- The request, with unsigned numbers stored in `int32_t`. -/
def capability (d : V4LDevice) : Except CaptureStop VideoCaptureCapability := do
  let videoType ← fourccToVideotype (fourccToString d.fmt.pixelformat)
  return {
    width := toInt d.fmt.width
    height := toInt d.fmt.height
    maxFPS := toInt d.framerate
    videoType := videoType }

end V4LDevice

namespace CapturerTrackSource

def construct (device : V4LDevice) (openFds : List Int) (world : CaptureWorld) : CaptureRun :=
  match device.capability with
  | .error stop => ⟨openFds, none, .error stop⟩
  | .ok capability =>
      ⟨openFds, some capability,
        if world.startCapture capability < 0 then .error .assertFailed else .ok ⟨device⟩⟩

/-- Both factory functions: they differ in what is written into the object once it is
built. -/
def createWith (prepare : V4LDevice → V4LDevice) (memory : V4LDevice) (path : Str)
    (openFds : List Int) (world : CaptureWorld) : CaptureRun :=
  match memory.construct path world.answers openFds with
  | (openFds, .error e) => ⟨openFds, none, .error (.device e)⟩
  | (openFds, .ok device) =>
      let device := prepare device
      -- a null capturer lets the `unique_ptr` go, and the destructor closes the descriptor
      if world.capturer device.cap.busInfo then construct device openFds world
      else ⟨openFds.erase device.fd, none, .error .noCapturer⟩

def create (memory : V4LDevice) (path : Str) (openFds : List Int) (world : CaptureWorld) :
    CaptureRun :=
  createWith id memory path openFds world

def createWithConfig (memory : V4LDevice) (path : Str) (config : CaptureTrackConfig)
    (openFds : List Int) (world : CaptureWorld) : CaptureRun :=
  createWith (·.configure config) memory path openFds world

end CapturerTrackSource

def devicePath (deviceIdx : UInt8) : Str := "/dev/video".toList ++ decimal deviceIdx.toNat

def captureSource (memory : V4LDevice) (path : Str) (config : Option CaptureTrackConfig)
    (openFds : List Int) (world : CaptureWorld) : CaptureRun :=
  match config with
  | some config => CapturerTrackSource.createWithConfig memory path config openFds world
  | none => CapturerTrackSource.create memory path openFds world

/-- `AddCaptureDevice` up to the point where it has its source. -/
def addCaptureDevice (memory : V4LDevice) (deviceIdx : UInt8)
    (config : Option CaptureTrackConfig) (openFds : List Int) (world : CaptureWorld) :
    CaptureRun :=
  captureSource memory (devicePath deviceIdx) config openFds world

/-- The device opens, its capabilities are accepted, and there is a capture module. -/
def CaptureWorld.Serves (world : CaptureWorld) : Prop :=
  let cap := (world.answers.queryCap {}).2
  0 ≤ world.answers.opened ∧
    (cap.capabilities &&& 0x00000001 ≠ 0 ∨ cap.capabilities &&& 0x00001000 ≠ 0) ∧
    cap.capabilities &&& 0x04000000 ≠ 0 ∧ world.capturer cap.busInfo = true

namespace V4LDevice

theorem capability_ok (d : V4LDevice) : ∃ videoType, d.capability = .ok {
    width := toInt d.fmt.width
    height := toInt d.fmt.height
    maxFPS := toInt d.framerate
    videoType := videoType } := by
  obtain ⟨videoType, known⟩ : ∃ videoType,
      fourccToVideotype (fourccToString d.fmt.pixelformat) = .ok videoType :=
    ⟨_, if_neg (fun h => h rfl)⟩
  refine ⟨videoType, ?_⟩
  rw [capability, known]
  rfl

theorem capability_congr {d e : V4LDevice} (width : d.fmt.width = e.fmt.width)
    (height : d.fmt.height = e.fmt.height) (pixels : d.fmt.pixelformat = e.fmt.pixelformat)
    (rate : d.framerate = e.framerate) : d.capability = e.capability := by
  rw [capability, capability, width, height, pixels, rate]

theorem construct_of_world (memory : V4LDevice) (path : Str) (world : CaptureWorld)
    (openFds : List Int) :
    (memory.construct path world.answers openFds =
        (openFds ++ [world.answers.opened], .ok (memory.filled path world.answers)) ∧
      (world.Serves ↔ world.capturer (memory.filled path world.answers).cap.busInfo = true)) ∨
    (¬ world.Serves ∧ ∃ fds e,
      memory.construct path world.answers openFds = (fds, .error e)) := by
  have serves_iff : world.Serves ↔ 0 ≤ world.answers.opened ∧
      (memory.filled path world.answers).canCapture = true ∧
      (memory.filled path world.answers).canStream = true ∧
      world.capturer (memory.filled path world.answers).cap.busInfo = true := by
    simp [CaptureWorld.Serves, canCapture, canStream, filled]
  rw [serves_iff]
  obtain ⟨failed, threw⟩ | ⟨opened, refused, e, threw⟩ | ⟨opened, capture, stream, made⟩ :=
    memory.construct_outcome path world.answers openFds
  · exact Or.inr ⟨fun serves => Int.not_lt.mpr serves.1 failed, _, _, threw⟩
  · refine Or.inr ⟨?_, _, _, threw⟩
    rintro ⟨-, capture, stream, -⟩
    simp [capture, stream] at refused
  · exact Or.inl ⟨made, by simp [opened, capture, stream]⟩

end V4LDevice

namespace CapturerTrackSource
open V4LDevice

section
variable (prepare : V4LDevice → V4LDevice) (keeps : ∀ d, (prepare d).cap = d.cap)
  (memory : V4LDevice) (path : Str) (openFds : List Int) {world : CaptureWorld}
include keeps

theorem request_of_serves (serves : world.Serves) : ∃ capability,
    (prepare (memory.filled path world.answers)).capability = .ok capability ∧
    (createWith prepare memory path openFds world).request = some capability := by
  obtain ⟨built, serves_iff⟩ | ⟨refused, -⟩ := memory.construct_of_world path world openFds
  · obtain ⟨videoType, asked⟩ := (prepare (memory.filled path world.answers)).capability_ok
    rw [← keeps (memory.filled path world.answers)] at serves_iff
    refine ⟨_, asked, ?_⟩
    simp only [createWith, built, construct, asked]
    rw [if_pos (serves_iff.mp serves)]
  · exact absurd serves refused

theorem request_of_not_serves (refused : ¬ world.Serves) :
    (createWith prepare memory path openFds world).request = none := by
  obtain ⟨built, serves_iff⟩ | ⟨-, fds, e, thrown⟩ := memory.construct_of_world path world openFds
  · rw [← keeps (memory.filled path world.answers)] at serves_iff
    simp only [createWith, built]
    rw [if_neg (fun h => refused (serves_iff.mpr h))]
  · simp only [createWith, thrown]

end

theorem sysfsPath_of_createWith (prepare : V4LDevice → V4LDevice)
    (keeps : ∀ d, (prepare d).sysfsPath = d.sysfsPath) {memory : V4LDevice} {path : Str}
    {openFds : List Int} {world : CaptureWorld} {source : CapturerTrackSource}
    (h : (createWith prepare memory path openFds world).result = .ok source) :
    source.device.sysfsPath = path := by
  obtain ⟨built, -⟩ | ⟨-, fds, e, thrown⟩ := memory.construct_of_world path world openFds
  · obtain ⟨videoType, asked⟩ := (prepare (memory.filled path world.answers)).capability_ok
    simp only [createWith, built, construct, asked] at h
    split at h
    next =>
        split at h
        next => cases h
        next => exact Except.ok.inj h ▸ keeps (memory.filled path world.answers)
    next => cases h
  · simp only [createWith, thrown] at h
    cases h

end CapturerTrackSource

/-- Runs that differ only in what was in memory make the same request. -/
def SameRequest (run : V4LDevice → CaptureRun) : Prop :=
  ∀ memory memory', (run memory).request = (run memory').request

theorem sameRequest_of_not_serves (path : Str) (config : Option CaptureTrackConfig)
    (openFds : List Int) {world : CaptureWorld} (refused : ¬ world.Serves) :
    SameRequest (fun memory => captureSource memory path config openFds world) := by
  have none_made (memory : V4LDevice) :
      (captureSource memory path config openFds world).request = none := by
    cases config with
    | none =>
        exact CapturerTrackSource.request_of_not_serves id (fun _ => rfl) memory path openFds
          refused
    | some config =>
        exact CapturerTrackSource.request_of_not_serves (·.configure config) (fun _ => rfl) memory
          path openFds refused
  intro memory memory'
  exact (none_made memory).trans (none_made memory').symm

theorem sameRequest_of_config (path : Str) (config : CaptureTrackConfig) (openFds : List Int)
    (world : CaptureWorld) :
    SameRequest (fun memory => captureSource memory path (some config) openFds world) := by
  by_cases serves : world.Serves
  · intro memory memory'
    have made (memory : V4LDevice) := CapturerTrackSource.request_of_serves
      (·.configure config) (fun _ => rfl) memory path openFds serves
    obtain ⟨capability, asked, request⟩ := made memory
    obtain ⟨capability', asked', request'⟩ := made memory'
    have same := V4LDevice.capability_congr
      (d := (memory.filled path world.answers).configure config)
      (e := (memory'.filled path world.answers).configure config) rfl rfl rfl rfl
    rw [asked, asked'] at same
    exact request.trans ((congrArg some (Except.ok.inj same)).trans request'.symm)
  · exact sameRequest_of_not_serves path (some config) openFds serves

theorem maxFPS_of_create (memory : V4LDevice) (path : Str) (openFds : List Int)
    {world : CaptureWorld} (serves : world.Serves) : ∃ capability,
    (captureSource memory path none openFds world).request = some capability ∧
      capability.maxFPS = toInt memory.framerate := by
  obtain ⟨capability, asked, request⟩ := CapturerTrackSource.request_of_serves
    id (fun _ => rfl) memory path openFds serves
  obtain ⟨videoType, known⟩ := (memory.filled path world.answers).capability_ok
  obtain rfl := Except.ok.inj (asked.symm.trans known)
  exact ⟨_, request, rfl⟩

theorem not_sameRequest_of_serves (path : Str) (openFds : List Int) {world : CaptureWorld}
    (serves : world.Serves) :
    ¬ SameRequest (fun memory => captureSource memory path none openFds world) := by
  intro same
  obtain ⟨zero, request, isZero⟩ := maxFPS_of_create ⟨[], {}, {}, 0, 0⟩ path openFds serves
  obtain ⟨one, request', isOne⟩ := maxFPS_of_create ⟨[], {}, {}, 1, 0⟩ path openFds serves
  obtain rfl := Option.some.inj (request.symm.trans ((same _ _).trans request'))
  rw [isZero] at isOne
  exact absurd isOne (by decide)

/-- The request is free of what was in memory exactly when there is a configuration or no
request is made at all. -/
theorem captureRequest_determined_iff (config : Option CaptureTrackConfig) (openFds : List Int)
    (world : CaptureWorld) :
    (∀ path, SameRequest (fun memory => captureSource memory path config openFds world) ↔
      config.isSome = true ∨ ¬ world.Serves) ∧
    ∀ deviceIdx, SameRequest (fun memory =>
      addCaptureDevice memory deviceIdx config openFds world) ↔
        config.isSome = true ∨ ¬ world.Serves := by
  have atPath (path : Str) :
      SameRequest (fun memory => captureSource memory path config openFds world) ↔
        config.isSome = true ∨ ¬ world.Serves := by
    constructor
    · intro same
      cases config with
      | some config => exact Or.inl rfl
      | none => exact Or.inr (fun serves => not_sameRequest_of_serves path openFds serves same)
    · rintro (given | refused)
      · obtain ⟨config, rfl⟩ := Option.isSome_iff_exists.mp given
        exact sameRequest_of_config path config openFds world
      · exact sameRequest_of_not_serves path config openFds refused
  exact ⟨atPath, fun deviceIdx => atPath (devicePath deviceIdx)⟩

def workingCamera : CaptureWorld where
  answers := {
    opened := 3
    queryCap := fun _ => (0, { busInfo := "usb".toList, capabilities := 0x04000001 })
    getFormat := fun _ =>
      (0, { type := 1, width := 640, height := 480, pixelformat := 0x56595559 }) }
  capturer := fun _ => true
  startCapture := fun _ => 0

theorem workingCamera_rate_of_memory :
    (addCaptureDevice ⟨[], {}, {}, 0, 0⟩ 0 none [] workingCamera).request =
      some ⟨640, 480, 0, .kYUY2, false⟩ ∧
    (addCaptureDevice ⟨[], {}, {}, 4000000000, 0⟩ 0 none [] workingCamera).request =
      some ⟨640, 480, -294967296, .kYUY2, false⟩ := by
  decide

/-- Both ways around, a pixel-format code survives exactly when it is packable. -/
theorem fourcc_roundTrip_iff (device : V4LDevice) (config : CaptureTrackConfig) (p : UInt32) :
    (fourccToString (device.configure config).fmt.pixelformat = config.fourcc.text ↔
      config.fourcc.Packable) ∧
    ∀ a b c d, [charOf a, charOf b, charOf c, charOf d] = fourccToString p →
      (v4l2Fourcc a b c d = p ↔ (Fourcc.mk a b c d).Packable) := by
  constructor
  · rw [← fourccChars_pack_eq_iff]
    exact ⟨Fourcc.text_injective, congrArg Fourcc.text⟩
  · intro a b c d same
    have chars : Fourcc.mk a b c d = fourccChars p := Fourcc.text_injective same
    rw [chars, ← pack_fourccChars_eq_iff, ← chars]
    rfl

/-- A first character with its high bit set: the other three are gone. -/
theorem highBit_not_roundTrip :
    fourccToString (v4l2Fourcc 0xC3 0x41 0x42 0x43) = Fourcc.text ⟨0xC3, 0xFF, 0xFF, 0xFF⟩ ∧
    fourccToString 0x434241C3 = Fourcc.text ⟨0xC3, 0x41, 0x42, 0x43⟩ ∧
    v4l2Fourcc 0xC3 0x41 0x42 0x43 = 0xFFFFFFC3 := by
  decide

end Wadi
