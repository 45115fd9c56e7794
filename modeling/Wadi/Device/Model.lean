import Wadi.Library.Runs
import Wadi.Library.SizeString

/-!
The capture device `V4LDevice` and the descriptors it opens.

The constructor has three places where it throws, one before it has a descriptor and two
after. What the kernel answers to `open` and to the two `ioctl` calls is a parameter; a
call that fails may still have written to the structure it was given. Members that the
constructor does not assign keep what was in memory. A destructor runs only for an object
whose constructor has returned.
-/

namespace Wadi
open SizeString

structure Capability where
  busInfo : Str := []
  capabilities : UInt32 := 0
  deriving DecidableEq, Repr

structure Format where
  type : UInt32 := 0
  width : UInt32 := 0
  height : UInt32 := 0
  pixelformat : UInt32 := 0
  deriving DecidableEq, Repr

structure V4LDevice where
  sysfsPath : Str
  cap : Capability
  fmt : Format
  framerate : UInt32
  fd : Int
  deriving DecidableEq, Repr

inductive V4LError where
  | openFailed
  | cannotCapture
  | cannotStream
  deriving DecidableEq, Repr

def V4LError.what : V4LError → String
  | .openFailed => "Failed to open video capture device"
  | .cannotCapture => "Failed to capture video"
  | .cannotStream => "Failed to stream video"

/-- The answers of the kernel: what `open` returns, and for each `ioctl` what it returns
and leaves in the structure it was passed. -/
structure KernelAnswers where
  opened : Int
  queryCap : Capability → Int × Capability
  getFormat : Format → Int × Format

namespace V4LDevice

/-- `V4L2_CAP_VIDEO_CAPTURE` or `V4L2_CAP_VIDEO_CAPTURE_MPLANE`. -/
def canCapture (d : V4LDevice) : Bool :=
  d.cap.capabilities &&& 0x00000001 != 0 || d.cap.capabilities &&& 0x00001000 != 0

/-- `V4L2_CAP_STREAMING`. -/
def canStream (d : V4LDevice) : Bool := d.cap.capabilities &&& 0x04000000 != 0

/-- `_open`. -/
def openDevice (d : V4LDevice) (opened : Int) : V4LDevice × Int :=
  ({ d with fd := opened }, if opened < 0 then -1 else 0)

/-- `_fill_cap`. -/
def fillCap (d : V4LDevice) (queryCap : Capability → Int × Capability) : V4LDevice × Int :=
  let (ret, cap) := queryCap d.cap
  ({ d with cap := cap }, if ret < 0 then -1 else 0)

/-- `_fill_format`; 1 is `V4L2_BUF_TYPE_VIDEO_CAPTURE`. -/
def fillFormat (d : V4LDevice) (getFormat : Format → Int × Format) : V4LDevice × Int :=
  let (ret, fmt) := getFormat { d.fmt with type := 1 }
  ({ d with fmt := fmt }, if ret < 0 then 1 else 0)

/-- The constructor: the descriptors that are open afterwards, and the object or what was
thrown. The results of the two `ioctl` calls are dropped. -/
def construct (memory : V4LDevice) (path : Str) (answers : KernelAnswers)
    (openFds : List Int) : List Int × Except V4LError V4LDevice :=
  let d := { memory with sysfsPath := path }
  let (d, ret) := d.openDevice answers.opened
  if ret < 0 then (openFds, .error .openFailed)
  else
    let openFds := openFds ++ [d.fd]
    let d := { d with fmt := {}, cap := {} }
    let d := (d.fillCap answers.queryCap).1
    let d := (d.fillFormat answers.getFormat).1
    if !d.canCapture then (openFds, .error .cannotCapture)
    else if !d.canStream then (openFds, .error .cannotStream)
    else (openFds, .ok d)

end V4LDevice

/-- The descriptors opened for devices and not closed, and the live objects. -/
structure Devices where
  openFds : List Int := []
  live : List V4LDevice := []
  deriving DecidableEq, Repr

inductive DeviceAction where
  | construct (memory : V4LDevice) (path : Str) (answers : KernelAnswers)
  | destroy (index : Nat)

/-- A descriptor that is open is not handed out again. -/
inductive DeviceStop where
  | descriptorInUse
  deriving DecidableEq, Repr

def deviceStep (s : Devices) : DeviceAction → Except DeviceStop Devices
  | .construct memory path answers =>
      if s.openFds.contains answers.opened then .error .descriptorInUse
      else match memory.construct path answers s.openFds with
        | (openFds, .ok d) => .ok { openFds := openFds, live := s.live ++ [d] }
        | (openFds, .error _) => .ok { s with openFds := openFds }
  | .destroy index =>
      match s.live[index]? with
      | none => .ok s
      | some d => .ok { openFds := s.openFds.erase d.fd, live := s.live.eraseIdx index }

end Wadi
