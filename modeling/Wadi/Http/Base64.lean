import Wadi.Http.Grammar

/-!
`encodeBase64`: bytes are collected three at a time and written as four characters, and what is
left at the end is padded. A decoder that reads four characters at a time gives the bytes back.
-/

namespace Wadi.Http
open ByteText

def base64Chars : Bytes :=
  ascii "ABCDEFGHIJKLMNOPQRSTUVWXYZabcdefghijklmnopqrstuvwxyz0123456789+/"

/-- `chars[n]`, where `n` is made of six bits. -/
def base64Char (n : UInt8) : UInt8 := base64Chars.getD n.toNat 0

section
variable (a b c : UInt8)

def firstSextet : UInt8 := (a &&& 0xFC) >>> 2

def secondSextet : UInt8 := ((a &&& 0x03) <<< 4) + ((b &&& 0xF0) >>> 4)

def thirdSextet : UInt8 := ((b &&& 0x0F) <<< 2) + ((c &&& 0xC0) >>> 6)

def fourthSextet : UInt8 := c &&& 0x3F

def secondPadded : UInt8 := (a &&& 0x03) <<< 4

def thirdPadded : UInt8 := (b &&& 0x0F) <<< 2

end

/-- The result so far and the bytes in `charArray`. -/
structure Base64State where
  result : Bytes := []
  charArray : Bytes := []

/-- One byte. The array is written out when it holds three. -/
def base64Step (s : Base64State) (byte : UInt8) : Base64State :=
  match s.charArray ++ [byte] with
  | [a, b, c] =>
      { result := s.result ++ [base64Char (firstSextet a), base64Char (secondSextet a b),
          base64Char (thirdSextet b c), base64Char (fourthSextet c)] }
  | charArray => { s with charArray := charArray }

/-- What is left in the array, padded to four characters. -/
def base64Rest : Bytes → Bytes
  | [] => []
  | [a] => [base64Char (firstSextet a), base64Char (secondPadded a), 0x3D, 0x3D]
  | a :: b :: _ =>
      [base64Char (firstSextet a), base64Char (secondSextet a b),
        base64Char (thirdPadded b), 0x3D]

def encodeBase64 (bytes : Bytes) : Bytes :=
  let s := bytes.foldl base64Step {}
  s.result ++ base64Rest s.charArray

theorem foldl_base64Step_result (bytes : Bytes) (result : Bytes) (charArray : Bytes) :
    bytes.foldl base64Step ⟨result, charArray⟩ =
      { bytes.foldl base64Step ⟨[], charArray⟩ with
        result := result ++ (bytes.foldl base64Step ⟨[], charArray⟩).result } := by
  induction bytes generalizing result charArray with
  | nil => simp
  | cons byte bytes ih =>
      have step (r : Bytes) : base64Step ⟨r, charArray⟩ byte =
          ⟨r ++ (base64Step ⟨[], charArray⟩ byte).result,
            (base64Step ⟨[], charArray⟩ byte).charArray⟩ := by
        simp only [base64Step]
        split <;> simp
      rw [List.foldl_cons, List.foldl_cons, step result, step [], ih, ih ([] ++ _)]
      simp

theorem encodeBase64_three (a b c : UInt8) (bytes : Bytes) :
    encodeBase64 (a :: b :: c :: bytes) = base64Char (firstSextet a) ::
      base64Char (secondSextet a b) :: base64Char (thirdSextet b c) ::
      base64Char (fourthSextet c) :: encodeBase64 bytes := by
  have three : (a :: b :: c :: bytes).foldl base64Step {} =
      bytes.foldl base64Step ⟨[base64Char (firstSextet a), base64Char (secondSextet a b),
        base64Char (thirdSextet b c), base64Char (fourthSextet c)], []⟩ := rfl
  rw [encodeBase64, three, foldl_base64Step_result]
  rfl

section
variable (a b c : UInt8)

theorem toNat_high {k : Nat} (mask : Nat) (hm : mask >>> k = 2 ^ (8 - k) - 1) (hk : k < 8) :
    (a.toNat &&& mask) >>> k = a.toNat / 2 ^ k := by
  have bound : a.toNat / 2 ^ k < 2 ^ (8 - k) := by
    rw [Nat.div_lt_iff_lt_mul (Nat.two_pow_pos k), ← Nat.pow_add, Nat.sub_add_cancel hk.le]
    exact a.toNat_lt
  rw [Nat.shiftRight_and_distrib, hm, Nat.and_two_pow_sub_one_eq_mod,
    Nat.shiftRight_eq_div_pow, Nat.mod_eq_of_lt bound]

theorem toNat_firstSextet : (firstSextet a).toNat = a.toNat / 4 := by
  rw [firstSextet, UInt8.toNat_shiftRight, UInt8.toNat_and]
  exact toNat_high a 0xFC (by decide) (by decide : 2 < 8)

theorem toNat_secondPadded : (secondPadded a).toNat = a.toNat % 4 * 16 := by
  rw [secondPadded, UInt8.toNat_shiftLeft, UInt8.toNat_and]
  change (a.toNat &&& (2 ^ 2 - 1)) <<< 4 % 2 ^ 8 = _
  rw [Nat.and_two_pow_sub_one_eq_mod, Nat.shiftLeft_eq]
  omega

theorem toNat_thirdPadded : (thirdPadded b).toNat = b.toNat % 16 * 4 := by
  rw [thirdPadded, UInt8.toNat_shiftLeft, UInt8.toNat_and]
  change (b.toNat &&& (2 ^ 4 - 1)) <<< 2 % 2 ^ 8 = _
  rw [Nat.and_two_pow_sub_one_eq_mod, Nat.shiftLeft_eq]
  omega

theorem toNat_secondSextet :
    (secondSextet a b).toNat = a.toNat % 4 * 16 + b.toNat / 16 := by
  have high : ((b &&& 0xF0) >>> 4).toNat = b.toNat / 16 := by
    rw [UInt8.toNat_shiftRight, UInt8.toNat_and]
    exact toNat_high b 0xF0 (by decide) (by decide : 4 < 8)
  have bound := b.toNat_lt
  rw [secondSextet, UInt8.toNat_add, ← secondPadded, toNat_secondPadded, high]
  omega

theorem toNat_thirdSextet :
    (thirdSextet b c).toNat = b.toNat % 16 * 4 + c.toNat / 64 := by
  have high : ((c &&& 0xC0) >>> 6).toNat = c.toNat / 64 := by
    rw [UInt8.toNat_shiftRight, UInt8.toNat_and]
    exact toNat_high c 0xC0 (by decide) (by decide : 6 < 8)
  have bound := c.toNat_lt
  rw [thirdSextet, UInt8.toNat_add, ← thirdPadded, toNat_thirdPadded, high]
  omega

theorem toNat_fourthSextet : (fourthSextet c).toNat = c.toNat % 64 := by
  rw [fourthSextet, UInt8.toNat_and]
  exact Nat.and_two_pow_sub_one_eq_mod c.toNat 6

end

/-- The number a character stands for. -/
def base64Value (c : UInt8) : Option Nat := base64Chars.idxOf? c

/-- The bytes made from the numbers of neighbouring characters. -/
def firstOctet (x y : Nat) : UInt8 := UInt8.ofNat (x * 4 + y / 16)

def secondOctet (y z : Nat) : UInt8 := UInt8.ofNat (y % 16 * 16 + z / 4)

def thirdOctet (z w : Nat) : UInt8 := UInt8.ofNat (z % 4 * 64 + w)

/-- Four characters at a time; padding is looked for in the last four only. -/
def decodeBase64 : Bytes → Option Bytes
  | [] => some []
  | x :: y :: z :: w :: rest => do
      let x ← base64Value x
      let y ← base64Value y
      if w = 0x3D ∧ rest = [] then
        if z = 0x3D then return [firstOctet x y]
        let z ← base64Value z
        return [firstOctet x y, secondOctet y z]
      let z ← base64Value z
      let w ← base64Value w
      let bytes ← decodeBase64 rest
      return firstOctet x y :: secondOctet y z :: thirdOctet z w :: bytes
  | _ => none

theorem base64_table : ∀ n < 64, base64Value (base64Chars.getD n 0) = some n := by decide

theorem base64Value_char {n : UInt8} (small : n.toNat < 64) :
    base64Value (base64Char n) = some n.toNat := base64_table n.toNat small

theorem base64Value_padding : base64Value 0x3D = none := by decide

theorem base64Char_ne_padding {n : UInt8} (small : n.toNat < 64) : base64Char n ≠ 0x3D := by
  intro same
  have value := base64Value_char small
  rw [same, base64Value_padding] at value
  cases value

theorem isVisibleChar_base64Char {n : UInt8} (small : n.toNat < 64) :
    isVisibleChar (base64Char n) = true := by
  have all : base64Chars.all isVisibleChar = true := by decide
  have length : base64Chars.length = 64 := by decide
  have bound : n.toNat < base64Chars.length := by omega
  rw [base64Char, List.getD_eq_getElem?_getD, List.getElem?_eq_getElem bound]
  exact List.all_eq_true.mp all _ (List.getElem_mem bound)

section
variable (a b c : UInt8)

theorem firstSextet_lt : (firstSextet a).toNat < 64 := by
  have bound := a.toNat_lt
  rw [toNat_firstSextet]
  omega

theorem secondSextet_lt : (secondSextet a b).toNat < 64 := by
  have bound := b.toNat_lt
  rw [toNat_secondSextet]
  omega

theorem thirdSextet_lt : (thirdSextet b c).toNat < 64 := by
  have bound := c.toNat_lt
  rw [toNat_thirdSextet]
  omega

theorem fourthSextet_lt : (fourthSextet c).toNat < 64 := by
  rw [toNat_fourthSextet]
  omega

theorem secondPadded_lt : (secondPadded a).toNat < 64 := by
  rw [toNat_secondPadded]
  omega

theorem thirdPadded_lt : (thirdPadded b).toNat < 64 := by
  rw [toNat_thirdPadded]
  omega

end

section
variable {a b c : UInt8} {x y z w : Nat}

theorem firstOctet_eq (hx : x = a.toNat / 4) (hy : y / 16 = a.toNat % 4) :
    firstOctet x y = a := by
  rw [firstOctet, show x * 4 + y / 16 = a.toNat by omega, UInt8.ofNat_toNat]

theorem secondOctet_eq (hy : y % 16 = b.toNat / 16) (hz : z / 4 = b.toNat % 16) :
    secondOctet y z = b := by
  rw [secondOctet, show y % 16 * 16 + z / 4 = b.toNat by omega, UInt8.ofNat_toNat]

theorem thirdOctet_eq (hz : z % 4 = c.toNat / 64) (hw : w = c.toNat % 64) :
    thirdOctet z w = c := by
  rw [thirdOctet, show z % 4 * 64 + w = c.toNat by omega, UInt8.ofNat_toNat]

end

theorem octets_of_sextets (a b c : UInt8) :
    firstOctet (firstSextet a).toNat (secondSextet a b).toNat = a ∧
      secondOctet (secondSextet a b).toNat (thirdSextet b c).toNat = b ∧
      thirdOctet (thirdSextet b c).toNat (fourthSextet c).toNat = c := by
  have hb := b.toNat_lt
  have hc := c.toNat_lt
  have second := toNat_secondSextet a b
  have third := toNat_thirdSextet b c
  exact ⟨firstOctet_eq (toNat_firstSextet a) (by omega), secondOctet_eq (by omega) (by omega),
    thirdOctet_eq (by omega) (toNat_fourthSextet c)⟩

/-- Decoding gives back what was encoded. -/
theorem decodeBase64_encodeBase64 : ∀ bytes, decodeBase64 (encodeBase64 bytes) = some bytes
  | [] => rfl
  | [a] => by
      have first := base64Value_char (firstSextet_lt a)
      have second := base64Value_char (secondPadded_lt a)
      have byte : firstOctet (firstSextet a).toNat (secondPadded a).toNat = a :=
        firstOctet_eq (toNat_firstSextet a) (by rw [toNat_secondPadded]; omega)
      change decodeBase64 [base64Char (firstSextet a), base64Char (secondPadded a), 0x3D, 0x3D] = _
      simp [decodeBase64, first, second, byte]
  | [a, b] => by
      have first := base64Value_char (firstSextet_lt a)
      have second := base64Value_char (secondSextet_lt a b)
      have third := base64Value_char (thirdPadded_lt b)
      have unpadded := base64Char_ne_padding (thirdPadded_lt b)
      have bound := b.toNat_lt
      have byte := (octets_of_sextets a b b).1
      have byte' : secondOctet (secondSextet a b).toNat (thirdPadded b).toNat = b :=
        secondOctet_eq (by rw [toNat_secondSextet]; omega) (by rw [toNat_thirdPadded]; omega)
      change decodeBase64 [base64Char (firstSextet a), base64Char (secondSextet a b),
        base64Char (thirdPadded b), 0x3D] = _
      simp [decodeBase64, first, second, third, unpadded, byte, byte']
  | a :: b :: c :: bytes => by
      have first := base64Value_char (firstSextet_lt a)
      have second := base64Value_char (secondSextet_lt a b)
      have third := base64Value_char (thirdSextet_lt b c)
      have fourth := base64Value_char (fourthSextet_lt c)
      have unpadded := base64Char_ne_padding (fourthSextet_lt c)
      obtain ⟨byte, byte', byte''⟩ := octets_of_sextets a b c
      have rest := decodeBase64_encodeBase64 bytes
      rw [encodeBase64_three, decodeBase64, first, second, third, fourth, rest]
      simp [unpadded, byte, byte', byte'']

theorem isVisibleChar_of_mem_base64 : ∀ bytes, ∀ c ∈ encodeBase64 bytes, isVisibleChar c = true
  | [] => by simp [encodeBase64, base64Rest]
  | [a] => by
      change ∀ c ∈ [base64Char (firstSextet a), base64Char (secondPadded a), 0x3D, 0x3D], _
      simp [isVisibleChar_base64Char, firstSextet_lt, secondPadded_lt,
        (by decide : isVisibleChar 0x3D = true)]
  | [a, b] => by
      change ∀ c ∈ [base64Char (firstSextet a), base64Char (secondSextet a b),
        base64Char (thirdPadded b), 0x3D], _
      simp [isVisibleChar_base64Char, firstSextet_lt, secondSextet_lt, thirdPadded_lt,
        (by decide : isVisibleChar 0x3D = true)]
  | a :: b :: c :: bytes => by
      have rest := isVisibleChar_of_mem_base64 bytes
      simp only [encodeBase64_three, List.mem_cons, forall_eq_or_imp]
      exact ⟨isVisibleChar_base64Char (firstSextet_lt a),
        isVisibleChar_base64Char (secondSextet_lt a b),
        isVisibleChar_base64Char (thirdSextet_lt b c),
        isVisibleChar_base64Char (fourthSextet_lt c), rest⟩

end Wadi.Http
