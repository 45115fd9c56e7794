import Mathlib.Data.List.DropRight
import Wadi.Library.ByteText
import Wadi.Library.Draining

/-!
The response grammar of the HTTP client `HTTPRequest/Request.hpp`: character classes, numbers,
the status line and the header fields.

A parser takes what lies between two iterators, the input from `begin` on as a list that stops
at `end`, and returns its result with the input from the new iterator on. The only way to fail
is to throw. `char` is signed where the client is built, but every class of characters is
defined by its bytes, so that one definition serves strings and received data.
-/

namespace Wadi.Http
open ByteText Draining

inductive RequestFault where
  | invalidScheme
  | onlyHttp
  | invalidFieldName
  | invalidFieldValue
  deriving DecidableEq, Repr

inductive ResponseFault where
  | invalidDigit
  | invalidHexDigit
  | invalidVersion
  | invalidStatusCode
  | invalidToken
  | invalidHeader
  | invalidStatusLine
  | unsupportedEncoding (value : Bytes)
  | invalidChunk
  | timedOut
  deriving DecidableEq, Repr

/-- The calls whose failure is thrown as a `std::system_error`. -/
inductive SystemFault where
  | addressInfo (host : Bytes)
  | createSocket
  | getFlags
  | setFlags
  | getOption
  | connect
  | select
  | sendData
  | readData
  deriving DecidableEq, Repr

inductive HttpError where
  | request (fault : RequestFault)
  | response (fault : ResponseFault)
  | lengthError
  | system (fault : SystemFault) (errno : Int)
  deriving DecidableEq, Repr

def RequestFault.what : RequestFault → Bytes
  | .invalidScheme => ascii "Invalid scheme"
  | .onlyHttp => ascii "Only HTTP scheme is supported"
  | .invalidFieldName => ascii "Invalid header field name"
  | .invalidFieldValue => ascii "Invalid header field value"

def ResponseFault.what : ResponseFault → Bytes
  | .invalidDigit => ascii "Invalid digit"
  | .invalidHexDigit => ascii "Invalid hex digit"
  | .invalidVersion => ascii "Invalid HTTP version"
  | .invalidStatusCode => ascii "Invalid status code"
  | .invalidToken => ascii "Invalid token"
  | .invalidHeader => ascii "Invalid header"
  | .invalidStatusLine => ascii "Invalid status line"
  | .unsupportedEncoding value => ascii "Unsupported transfer encoding: " ++ value
  | .invalidChunk => ascii "Invalid chunk"
  | .timedOut => ascii "Request timed out"

/-- The text a system error is thrown with; the library appends the description of `errno`. -/
def SystemFault.what : SystemFault → Bytes
  | .addressInfo host => ascii "Failed to get address info of " ++ host
  | .createSocket => ascii "Failed to create socket"
  | .getFlags => ascii "Failed to get socket flags"
  | .setFlags => ascii "Failed to set socket flags"
  | .getOption => ascii "Failed to get socket option"
  | .connect => ascii "Failed to connect"
  | .select => ascii "Failed to select socket"
  | .sendData => ascii "Failed to send data"
  | .readData => ascii "Failed to read data"

structure Version where
  major : UInt16
  minor : UInt16
  deriving DecidableEq, Repr

structure Status where
  version : Version
  code : UInt16
  reason : Bytes
  deriving DecidableEq, Repr

abbrev HeaderField := Bytes × Bytes

structure Response where
  status : Status
  headerFields : List HeaderField
  body : Bytes
  deriving DecidableEq, Repr

section Characters

def toLowerChar (c : UInt8) : UInt8 := if 0x41 ≤ c ∧ c ≤ 0x5A then c - (0x41 - 0x61) else c

def toLower (s : Bytes) : Bytes := s.map toLowerChar

def isWhiteSpaceChar (c : UInt8) : Bool := c == 0x20 || c == 0x09

def isDigitChar (c : UInt8) : Bool := 0x30 ≤ c && c ≤ 0x39

def isAlphaChar (c : UInt8) : Bool := (0x61 ≤ c && c ≤ 0x7A) || (0x41 ≤ c && c ≤ 0x5A)

def isTokenChar (c : UInt8) : Bool :=
  c == 0x21 || c == 0x23 || c == 0x24 || c == 0x25 || c == 0x26 || c == 0x27 || c == 0x2A ||
    c == 0x2B || c == 0x2D || c == 0x2E || c == 0x5E || c == 0x5F || c == 0x60 || c == 0x7C ||
    c == 0x7E || isDigitChar c || isAlphaChar c

def isVisibleChar (c : UInt8) : Bool := 0x21 ≤ c && c ≤ 0x7E

def isObsoleteTextChar (c : UInt8) : Bool := 0x80 ≤ c && c ≤ 0xFF

/-- The characters of a reason phrase and of a field value. -/
def isFieldChar (c : UInt8) : Bool :=
  isWhiteSpaceChar c || isVisibleChar c || isObsoleteTextChar c

def skipWhiteSpaces (i : Bytes) : Bytes := i.dropWhile isWhiteSpaceChar

end Characters

section Numbers

def digitToUint (c : UInt8) : Except HttpError Nat :=
  if 0x30 ≤ c ∧ c ≤ 0x39 then .ok (c.toNat - 0x30) else .error (.response .invalidDigit)

/-- Services that send lower-case digits are served too. -/
def hexDigitToUint (c : UInt8) : Except HttpError Nat :=
  if 0x30 ≤ c ∧ c ≤ 0x39 then .ok (c.toNat - 0x30)
  else if 0x41 ≤ c ∧ c ≤ 0x46 then .ok (c.toNat - 0x41 + 10)
  else if 0x61 ≤ c ∧ c ≤ 0x66 then .ok (c.toNat - 0x61 + 10)
  else .error (.response .invalidHexDigit)

/-- Digits read into a `std::size_t`, which wraps. -/
def toUint (base : Nat) (digit : UInt8 → Except HttpError Nat) (s : Bytes) :
    Except HttpError Nat :=
  s.foldlM (fun result c => do return (base * result + (← digit c)) % 2 ^ 64) 0

def stringToUint : Bytes → Except HttpError Nat := toUint 10 digitToUint

def hexStringToUint : Bytes → Except HttpError Nat := toUint 16 hexDigitToUint

end Numbers

section StatusLine

/-- `if (i == end || *i++ != c) throw e`. -/
def expect (c : UInt8) (e : HttpError) : Bytes → Except HttpError Bytes
  | [] => .error e
  | d :: i => if d = c then .ok i else .error e

def parseVersionDigit : Bytes → Except HttpError (UInt16 × Bytes)
  | [] => .error (.response .invalidVersion)
  | c :: i => (digitToUint c).map (fun d => (UInt16.ofNat d, i))

def parseVersion (i : Bytes) : Except HttpError (Version × Bytes) := do
  let i ← expect 0x48 (.response .invalidVersion) i
  let i ← expect 0x54 (.response .invalidVersion) i
  let i ← expect 0x54 (.response .invalidVersion) i
  let i ← expect 0x50 (.response .invalidVersion) i
  let i ← expect 0x2F (.response .invalidVersion) i
  let (major, i) ← parseVersionDigit i
  let i ← expect 0x2E (.response .invalidVersion) i
  let (minor, i) ← parseVersionDigit i
  return (⟨major, minor⟩, i)

/-- All digits are read, in 16 bits, before it is checked that there were three. -/
def parseStatusCode (i : Bytes) : Except HttpError (UInt16 × Bytes) :=
  let digits := i.takeWhile isDigitChar
  let result : UInt16 := digits.foldl (fun r c => r * 10 + UInt16.ofNat (c.toNat - 0x30)) 0
  if digits.length ≠ 3 then .error (.response .invalidStatusCode)
  else .ok (result, i.dropWhile isDigitChar)

def parseReasonPhrase (i : Bytes) : Bytes × Bytes :=
  (i.takeWhile isFieldChar, i.dropWhile isFieldChar)

def parseStatusLine (i : Bytes) : Except HttpError (Status × Bytes) := do
  let (version, i) ← parseVersion i
  let i ← expect 0x20 (.response .invalidStatusLine) i
  let (code, i) ← parseStatusCode i
  let i ← expect 0x20 (.response .invalidStatusLine) i
  let (reason, i) := parseReasonPhrase i
  let i ← expect 0x0D (.response .invalidStatusLine) i
  let i ← expect 0x0A (.response .invalidStatusLine) i
  return (⟨version, code, reason⟩, i)

end StatusLine

section HeaderFields

def parseToken (i : Bytes) : Except HttpError (Bytes × Bytes) :=
  let result := i.takeWhile isTokenChar
  if result = [] then .error (.response .invalidToken)
  else .ok (result, i.dropWhile isTokenChar)

/-- White space at the end of the value is dropped. -/
def parseFieldValue (i : Bytes) : Bytes × Bytes :=
  ((i.takeWhile isFieldChar).rdropWhile isWhiteSpaceChar, i.dropWhile isFieldChar)

/-- A line end followed by white space continues the value and is read as one space. The white
space behind the first is kept. -/
def fieldContentRound (result i : Bytes) : Round Bytes UInt8 (Bytes × Bytes) :=
  let (value, i) := parseFieldValue i
  match i with
  | 0x0D :: 0x0A :: c :: rest =>
      if isWhiteSpaceChar c then .next (result ++ value ++ [0x20]) rest
      else .stop (result ++ value, i)
  | _ => .stop (result ++ value, i)

/-- No round waits. -/
def parseFieldContent (i : Bytes) : Bytes × Bytes :=
  match drain fieldContentRound [] i with
  | .error r => r
  | .ok r => r

def parseHeaderField (i : Bytes) : Except HttpError (HeaderField × Bytes) := do
  let (token, i) ← parseToken i
  let i ← expect 0x3A (.response .invalidHeader) i
  let (value, i) := parseFieldContent (skipWhiteSpaces i)
  let i ← expect 0x0D (.response .invalidHeader) i
  let i ← expect 0x0A (.response .invalidHeader) i
  return ((toLower token, value), i)

end HeaderFields

end Wadi.Http
