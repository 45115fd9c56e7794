import Mathlib.Algebra.Group.Int.Defs
import Mathlib.Data.List.TakeWhile
import Wadi.Library.SizeString

/-!
Numbers read from text as the C library reads them, and written as it writes them.

`strtol` skips white space, takes a sign and then as many digits as follow, and stops
at the ends of a 64-bit `long`. `atoi` converts its result to an `int`. What a text says
as a number, without any bound, is `numeral`; the two are compared here once and for all.
-/

namespace Numerals
open SizeString

/-- `isspace` in the C locale. -/
def isSpace (c : Char) : Bool :=
  c == ' ' || c == '\t' || c == '\n' || c == '\x0b' || c == '\x0c' || c == '\r'

/-- The number written by the digits a text begins with. -/
def digitsValue (s : Str) : Nat := Nat.ofDigitChars 10 (s.takeWhile Char.isDigit) 0

/-- The integer a text begins with, zero if it begins with none. -/
def numeral (s : Str) : Int :=
  match s.dropWhile isSpace with
  | '-' :: t => -(digitsValue t : Int)
  | '+' :: t => digitsValue t
  | t => digitsValue t

def strtol (s : Str) : Int := max (-2 ^ 63) (min (numeral s) (2 ^ 63 - 1))

def atoi (s : Str) : Int := (strtol s).bmod (2 ^ 32)

/-- `std::to_string` of an unsigned number. -/
def decimal (n : Nat) : Str := Nat.toDigits 10 n

/-- The integers that become negative on the way through `long` and `int`. -/
def TurnsNegative (n : Int) : Prop := 2 ^ 63 ≤ n ∨ -2 ^ 63 ≤ n ∧ 2 ^ 31 ≤ n % 2 ^ 32

instance (n : Int) : Decidable (TurnsNegative n) :=
  inferInstanceAs (Decidable (2 ^ 63 ≤ n ∨ -2 ^ 63 ≤ n ∧ 2 ^ 31 ≤ n % 2 ^ 32))

theorem isDigit_of_mem_decimal {n : Nat} {c : Char} (h : c ∈ decimal n) : c.isDigit = true :=
  Nat.isDigit_of_mem_toDigits (by decide) (by decide) h

theorem digitsValue_decimal (n : Nat) : digitsValue (decimal n) = n := by
  have all : (decimal n).takeWhile Char.isDigit = decimal n := by
    rw [List.takeWhile_eq_self_iff]
    exact fun c hc => isDigit_of_mem_decimal hc
  rw [digitsValue, all]
  exact Nat.ofDigitChars_ten_toDigits

theorem decimal_injective {m n : Nat} (h : decimal m = decimal n) : m = n := by
  rw [← digitsValue_decimal m, h, digitsValue_decimal]

theorem not_isSpace_of_isDigit {c : Char} (h : c.isDigit = true) : isSpace c = false := by
  rw [Bool.eq_false_iff]
  intro space
  simp only [isSpace, Bool.or_eq_true, beq_iff_eq] at space
  obtain ((((rfl | rfl) | rfl) | rfl) | rfl) | rfl := space
  all_goals exact absurd h (by decide)

theorem numeral_of_digit {c : Char} {s : Str} (h : c.isDigit = true) :
    numeral (c :: s) = digitsValue (c :: s) := by
  have minus : c ≠ '-' := by rintro rfl; exact absurd h (by decide)
  have plus : c ≠ '+' := by rintro rfl; exact absurd h (by decide)
  rw [numeral, List.dropWhile_cons_of_neg (by simp [not_isSpace_of_isDigit h])]
  split
  next heq => exact absurd (List.cons.inj heq).1 minus
  next heq => exact absurd (List.cons.inj heq).1 plus
  next => rfl

theorem numeral_decimal (n : Nat) : numeral (decimal n) = n := by
  cases hd : decimal n with
  | nil => exact absurd hd Nat.toDigits_ne_nil
  | cons c s =>
      have digit : c.isDigit = true := isDigit_of_mem_decimal (hd ▸ List.mem_cons_self)
      rw [numeral_of_digit digit, ← hd, digitsValue_decimal]

theorem atoi_of_small {s : Str} (low : 0 ≤ numeral s) (high : numeral s < 2 ^ 31) :
    atoi s = numeral s := by
  have same : strtol s = numeral s := by
    rw [strtol]
    omega
  rw [atoi, same, Int.bmod_def]
  split <;> omega

theorem atoi_neg_iff (s : Str) : atoi s < 0 ↔ TurnsNegative (numeral s) := by
  rw [atoi, strtol, Int.bmod_def, TurnsNegative]
  split <;> omega

/-- A negative `int` stored in a `uint32_t` is a number from the upper half. -/
theorem toNat_ofInt_atoi_lt_iff (s : Str) :
    (UInt32.ofInt (atoi s)).toNat < 2 ^ 31 ↔ ¬ TurnsNegative (numeral s) := by
  have range : -2 ^ 31 ≤ atoi s ∧ atoi s < 2 ^ 31 := by
    rw [atoi, Int.bmod_def]
    split <;> omega
  have stored : (UInt32.ofInt (atoi s)).toNat = (atoi s % 2 ^ 32).toNat := by
    rw [UInt32.ofInt, UInt32.toNat_ofNat']
    omega
  rw [← atoi_neg_iff, stored]
  omega

end Numerals
