import Wadi.Config.Arguments
import Wadi.Device.TrackSource

/-!
The configuration `WadiConfig` made from the command line, and the device `main` opens
with it.

Each option overwrites one field of the default configuration. Numbers go through `atoi`
and are then stored in narrower or unsigned types without a check, and the pixel-format
code is copied over the default one, as many characters as there are.
-/

namespace Wadi
open SizeString Numerals

structure WadiConfig where
  whipEndpoint : Str
  videoDevice : Str
  captureConfig : CaptureTrackConfig
  deriving DecidableEq, Repr

def byteOf (c : Char) : UInt8 := UInt8.ofNat c.toNat

/-- `mempcpy` of the first `n` bytes of `src`, at most four, to the start of the array. -/
def Fourcc.mempcpy (f : Fourcc) (src : List UInt8) (n : Nat) : Fourcc where
  a := (src.take n)[0]?.getD f.a
  b := (src.take n)[1]?.getD f.b
  c := (src.take n)[2]?.getD f.c
  d := (src.take n)[3]?.getD f.d

/-- `std::toupper` of every character, in the C locale. -/
def upperCase (s : Str) : Str := s.map Char.toUpper

namespace WadiConfig

def initial : WadiConfig where
  whipEndpoint := "http://localhost:8889/wadi/whip".toList
  videoDevice := "0".toList
  captureConfig := { width := 1280, height := 720, fps := 30, fourcc := ⟨0x49, 0x34, 0x32, 0x30⟩ }

def number (value : Option Str) (field : UInt32) : UInt32 :=
  match value with
  | some s => UInt32.ofInt (atoi s)
  | none => field

/-- The pixel-format code from the command line, written over the one in the field. -/
def code (value : Option Str) (field : Fourcc) : Fourcc :=
  match value with
  -- with fewer than four characters the end of the field stays as it was
  | some s => field.mempcpy ((upperCase s).map byteOf) (if s.length > 4 then 4 else s.length)
  | none => field

/-- What `FromArgs` does to a configuration. -/
def override (config : WadiConfig) (args : ParsedArgs) : WadiConfig where
  whipEndpoint := args.positional.head?.getD config.whipEndpoint
  videoDevice := (args.named.lookup "d".toList).getD config.videoDevice
  captureConfig := {
    width := number (args.named.lookup "w".toList) config.captureConfig.width
    height := number (args.named.lookup "h".toList) config.captureConfig.height
    fps := number (args.named.lookup "r".toList) config.captureConfig.fps
    fourcc := code (args.named.lookup "c".toList) config.captureConfig.fourcc }

def fromArgs (argv : List Str) : WadiConfig := initial.override (parseArgs argv)

end WadiConfig

def baseVideoPath : Str := "/dev/video".toList

/-- The device name without the path `main` strips from it. -/
def deviceNumber (videoDevice : Str) : Str :=
  if find videoDevice baseVideoPath 0 = some 0 then videoDevice.drop baseVideoPath.length
  else videoDevice

/-- The argument of `AddCaptureDevice`, an `int` passed as `uint8_t`. -/
def deviceIndex (videoDevice : Str) : UInt8 := UInt8.ofInt (atoi (deviceNumber videoDevice))

def openedPath (argv : List Str) : Str :=
  devicePath (deviceIndex (WadiConfig.fromArgs argv).videoDevice)

def mainCapture (argv : List Str) (memory : V4LDevice) (openFds : List Int)
    (world : CaptureWorld) : CaptureRun :=
  let config := WadiConfig.fromArgs argv
  addCaptureDevice memory (deviceIndex config.videoDevice) (some config.captureConfig) openFds
    world

namespace WadiConfig

theorem override_named (config : WadiConfig) (argv : List Str) :
    (config.override (parseArgs argv)).videoDevice =
      (argument "d".toList (argv.drop 1)).getD config.videoDevice ∧
    (config.override (parseArgs argv)).captureConfig = {
      width := number (argument "w".toList (argv.drop 1)) config.captureConfig.width
      height := number (argument "h".toList (argv.drop 1)) config.captureConfig.height
      fps := number (argument "r".toList (argv.drop 1)) config.captureConfig.fps
      fourcc := code (argument "c".toList (argv.drop 1)) config.captureConfig.fourcc } := by
  simp only [override, lookup_parseArgs, and_self]

theorem number_lt_iff {value : Option Str} {field : UInt32} (small : field.toNat < 2 ^ 31) :
    (number value field).toNat < 2 ^ 31 ↔ ∀ s, value = some s → ¬ TurnsNegative (numeral s) := by
  cases value with
  | none => exact ⟨fun _ _ => nofun, fun _ => small⟩
  | some s =>
      rw [number, toNat_ofInt_atoi_lt_iff]
      simp

/-- Width, height and frame rate stay below `2 ^ 31` exactly when none of the texts given
for them is a number that turns negative on its way through `long` and `int`. -/
theorem captureNumbers_lt_iff (argv : List Str) :
    ((fromArgs argv).captureConfig.width.toNat < 2 ^ 31 ∧
      (fromArgs argv).captureConfig.height.toNat < 2 ^ 31 ∧
      (fromArgs argv).captureConfig.fps.toNat < 2 ^ 31) ↔
    ∀ key ∈ ["w".toList, "h".toList, "r".toList], ∀ s, argument key (argv.drop 1) = some s →
      ¬ TurnsNegative (numeral s) := by
  rw [fromArgs, (override_named initial argv).2, number_lt_iff (by decide),
    number_lt_iff (by decide), number_lt_iff (by decide)]
  simp only [List.forall_mem_cons, List.not_mem_nil, false_imp_iff, implies_true, and_true]

/-- A blank in front of the minus sign hides it from `parse_args`. -/
theorem hiddenMinus_wraps :
    (fromArgs ["wadi".toList, "-w".toList, " -5".toList]).captureConfig.width = 4294967291 := by
  rw [fromArgs, (override_named initial _).2]
  decide

end WadiConfig

namespace Fourcc

def bytes (f : Fourcc) : List UInt8 := [f.a, f.b, f.c, f.d]

theorem bytes_injective {f g : Fourcc} (h : f.bytes = g.bytes) : f = g := by
  cases f
  cases g
  simpa [bytes] using h

theorem bytes_mempcpy (f : Fourcc) (src : List UInt8) {n : Nat} (h : n ≤ 4) :
    (f.mempcpy src n).bytes = src.take n ++ f.bytes.drop (src.take n).length := by
  have short : (src.take n).length ≤ 4 := by
    rw [List.length_take]
    omega
  unfold mempcpy bytes
  generalize src.take n = copied at short
  match copied with
  | [] | [_] | [_, _] | [_, _, _] | [_, _, _, _] => rfl
  | _ :: _ :: _ :: _ :: _ :: _ =>
      simp only [List.length_cons] at short
      omega

end Fourcc

namespace WadiConfig

def withFourcc (config : WadiConfig) (fourcc : Fourcc) : WadiConfig :=
  { config with captureConfig := { config.captureConfig with fourcc := fourcc } }

theorem bytes_code (s : Str) (field : Fourcc) :
    (code (some s) field).bytes =
      ((upperCase s).take 4).map byteOf ++ field.bytes.drop (min 4 s.length) := by
  have count : (if s.length > 4 then 4 else s.length) = min 4 s.length := by
    split <;> omega
  have copied : ((upperCase s).map byteOf).take (min 4 s.length) =
      ((upperCase s).take 4).map byteOf := by
    rw [List.map_take, List.take_eq_take_iff]
    simp [upperCase]
  rw [code, count, Fourcc.bytes_mempcpy _ _ (Nat.min_le_left ..), copied]
  simp [upperCase]

theorem code_last {s : Str} (short : s.length < 4) (field : Fourcc) :
    (code (some s) field).d = field.d := by
  have missing (n : Nat) : (((upperCase s).map byteOf).take n)[3]? = none := by
    apply List.getElem?_eq_none
    simp only [List.length_take, List.length_map, upperCase]
    omega
  simp only [code, Fourcc.mempcpy, missing, Option.getD_none]

/-- The code asked for is all there is exactly when it has at least four characters. -/
theorem requestedCode_determined_iff {argv : List Str} {s : Str}
    (given : argument "c".toList (argv.drop 1) = some s) :
    ((∀ fourcc fourcc',
        ((initial.withFourcc fourcc).override (parseArgs argv)).captureConfig.fourcc =
          ((initial.withFourcc fourcc').override (parseArgs argv)).captureConfig.fourcc) ↔
      4 ≤ s.length) ∧
    (4 ≤ s.length →
      (fromArgs argv).captureConfig.fourcc.bytes = ((upperCase s).take 4).map byteOf) := by
  have result (config : WadiConfig) :
      (config.override (parseArgs argv)).captureConfig.fourcc =
        code (some s) config.captureConfig.fourcc := by
    rw [(override_named config argv).2, given]
  have whole (long : 4 ≤ s.length) (field : Fourcc) :
      (code (some s) field).bytes = ((upperCase s).take 4).map byteOf := by
    rw [bytes_code, Nat.min_eq_left long]
    exact List.append_nil _
  refine ⟨⟨fun same => ?_, fun long fourcc fourcc' => ?_⟩, fun long => ?_⟩
  · by_contra short
    have differ := same ⟨0, 0, 0, 0⟩ ⟨0, 0, 0, 1⟩
    rw [result, result] at differ
    have last := congrArg Fourcc.d differ
    rw [code_last (Nat.not_le.mp short), code_last (Nat.not_le.mp short)] at last
    exact absurd last (by decide)
  · rw [result, result]
    exact Fourcc.bytes_injective ((whole long _).trans (whole long _).symm)
  · rw [fromArgs, result]
    exact whole long _

theorem yuyv_determined :
    4 ≤ "yuyv".toList.length ∧
    (fromArgs ["wadi".toList, "-c".toList, "yuyv".toList]).captureConfig.fourcc.bytes =
      "YUYV".toList.map byteOf := by
  refine ⟨by decide, ?_⟩
  rw [(requestedCode_determined_iff (s := "yuyv".toList) (by decide)).2 (by decide)]
  decide

/-- Three letters: the last character of the default code remains. -/
theorem threeLetters_mixed :
    (fromArgs ["wadi".toList, "-c".toList, "rgb".toList]).captureConfig.fourcc.text =
      "RGB0".toList ∧
    ((initial.withFourcc ⟨0x4E, 0x56, 0x31, 0x32⟩).override
      (parseArgs ["wadi".toList, "-c".toList, "rgb".toList])).captureConfig.fourcc.text =
      "RGB2".toList := by
  rw [fromArgs, (override_named initial _).2, (override_named (initial.withFourcc _) _).2]
  decide

end WadiConfig

theorem deviceNumber_path (s : Str) : deviceNumber (baseVideoPath ++ s) = s := by
  rw [deviceNumber, if_pos ((find_eq_some_zero_iff ..).mpr (List.prefix_append ..)),
    List.drop_left]

theorem deviceNumber_decimal (n : Nat) : deviceNumber (decimal n) = decimal n := by
  rw [deviceNumber, if_neg]
  intro found
  obtain ⟨rest, split⟩ := (find_eq_some_zero_iff ..).mp found
  have slash : '/' ∈ decimal n := by
    rw [← split]
    exact List.mem_append_left rest (by decide)
  exact absurd (isDigit_of_mem_decimal slash) (by decide)

theorem toNat_deviceIndex {n : Nat} {videoDevice : Str} (h : deviceNumber videoDevice = decimal n)
    (small : n < 256) : (deviceIndex videoDevice).toNat = n := by
  have read : atoi (decimal n) = n := by
    rw [atoi_of_small] <;> rw [numeral_decimal] <;> omega
  rw [deviceIndex, h, read, UInt8.ofInt, UInt8.toNat_ofNat']
  omega

/-- The device named on the command line by its number or its path is the one opened
exactly when its number fits a byte. -/
theorem openedPath_eq_iff {argv : List Str} {n : Nat}
    (named : argument "d".toList (argv.drop 1) = some (decimal n) ∨
      argument "d".toList (argv.drop 1) = some (baseVideoPath ++ decimal n)) :
    (openedPath argv = baseVideoPath ++ decimal n ↔ n < 256) ∧
    ∀ memory openFds world source,
      (mainCapture argv memory openFds world).result = .ok source →
      source.device.sysfsPath = openedPath argv := by
  have number : deviceNumber (WadiConfig.fromArgs argv).videoDevice = decimal n := by
    rw [WadiConfig.fromArgs, (WadiConfig.override_named _ argv).1]
    obtain named | named := named <;> rw [named]
    · exact deviceNumber_decimal n
    · exact deviceNumber_path (decimal n)
  have path : openedPath argv = baseVideoPath ++
      decimal (deviceIndex (WadiConfig.fromArgs argv).videoDevice).toNat := rfl
  refine ⟨⟨fun opened => ?_, fun small => ?_⟩, fun memory openFds world source made => ?_⟩
  · rw [path] at opened
    rw [← decimal_injective (List.append_cancel_left opened)]
    exact UInt8.toNat_lt _
  · rw [path, toNat_deviceIndex number small]
  · exact CapturerTrackSource.sysfsPath_of_createWith (·.configure _) (fun _ => rfl) made

theorem secondCamera_opened :
    openedPath ["wadi".toList, "-d".toList, "/dev/video1".toList] = "/dev/video1".toList := by
  have named : argument "d".toList (["wadi".toList, "-d".toList, "/dev/video1".toList].drop 1) =
      some (baseVideoPath ++ decimal 1) := by decide
  rw [(openedPath_eq_iff (Or.inr named)).1.mpr (by decide)]
  decide

/-- The first number that does not fit opens the first camera. -/
theorem camera256_opens_first :
    openedPath ["wadi".toList, "-d".toList, "256".toList] = "/dev/video0".toList := by
  have named : argument "d".toList (["wadi".toList, "-d".toList, "256".toList].drop 1) =
      some "256".toList := by decide
  have index : deviceIndex "256".toList = 0 := by decide
  rw [openedPath, WadiConfig.fromArgs, (WadiConfig.override_named _ _).1, named, Option.getD_some,
    index]
  decide

end Wadi
