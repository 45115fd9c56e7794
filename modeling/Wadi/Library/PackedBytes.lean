import Mathlib.Algebra.Group.Nat.Defs
import Mathlib.Tactic.Common

/-!
The bytes of a machine word, and words put together from bytes that are widened with
their sign. A widened byte fills all higher bytes with copies of its sign bit, so that
or-ing several of them together keeps a byte only where no lower one is negative.
-/

namespace PackedBytes

variable {w : Nat}

def byteAt (x : BitVec w) (k : Nat) : BitVec 8 := x.extractLsb' (8 * k) 8

/-- The copies of the sign bit that stand above a widened byte. -/
def fill (b : BitVec 8) : BitVec 8 := if b.msb then BitVec.allOnes 8 else 0#8

theorem getLsbD_byteAt (x : BitVec w) (k : Nat) {i : Nat} (hi : i < 8) :
    (byteAt x k).getLsbD i = x.getLsbD (8 * k + i) := by
  rw [byteAt, BitVec.getLsbD_extractLsb', decide_eq_true hi, Bool.true_and]

theorem getLsbD_fill (b : BitVec 8) {i : Nat} (hi : i < 8) : (fill b).getLsbD i = b.msb := by
  cases sign : b.msb with
  | false => simp [fill, sign]
  | true => rw [fill, if_pos sign, BitVec.getLsbD_allOnes, decide_eq_true hi]

/-- A word is determined by its bytes. -/
theorem eq_of_byteAt_eq {x y : BitVec w} (h : ∀ k, 8 * k < w → byteAt x k = byteAt y k) :
    x = y := by
  apply BitVec.eq_of_getLsbD_eq
  intro i hi
  have place : 8 * (i / 8) + i % 8 = i := by omega
  have same := congrArg (fun b => b.getLsbD (i % 8)) (h (i / 8) (by omega))
  simp only [getLsbD_byteAt _ _ (show i % 8 < 8 by omega), place] at same
  exact same

theorem byteAt_or (x y : BitVec w) (k : Nat) :
    byteAt (x ||| y) k = byteAt x k ||| byteAt y k := by
  apply BitVec.eq_of_getLsbD_eq
  intro i hi
  simp only [getLsbD_byteAt _ _ hi, BitVec.getLsbD_or]

section
variable (b : BitVec 8) {j k : Nat}

theorem byteAt_shift_above (h : k < j) :
    byteAt ((b.signExtend w) <<< (8 * j)) k = 0#8 := by
  apply BitVec.eq_of_getLsbD_eq
  intro i hi
  have below : 8 * k + i < 8 * j := by omega
  rw [getLsbD_byteAt _ _ hi, BitVec.getLsbD_shiftLeft, decide_eq_true below]
  simp

theorem byteAt_shift_self (h : 8 * j + 8 ≤ w) :
    byteAt ((b.signExtend w) <<< (8 * j)) j = b := by
  apply BitVec.eq_of_getLsbD_eq
  intro i hi
  have inside : 8 * j + i < w := by omega
  have above : ¬ 8 * j + i < 8 * j := by omega
  have small : i < w := by omega
  rw [getLsbD_byteAt _ _ hi, BitVec.getLsbD_shiftLeft, Nat.add_sub_cancel_left,
    BitVec.getLsbD_signExtend, if_pos hi, decide_eq_true inside, decide_eq_false above,
    decide_eq_true small]
  rfl

theorem byteAt_shift_below (h : j < k) (fits : 8 * k + 8 ≤ w) :
    byteAt ((b.signExtend w) <<< (8 * j)) k = fill b := by
  apply BitVec.eq_of_getLsbD_eq
  intro i hi
  have inside : 8 * k + i < w := by omega
  have above : ¬ 8 * k + i < 8 * j := by omega
  have past : ¬ 8 * k + i - 8 * j < 8 := by omega
  have small : 8 * k + i - 8 * j < w := by omega
  rw [getLsbD_byteAt _ _ hi, getLsbD_fill _ hi, BitVec.getLsbD_shiftLeft,
    BitVec.getLsbD_signExtend, if_neg past, decide_eq_true inside, decide_eq_false above,
    decide_eq_true small]
  rfl

end

/-- Shifting down and masking takes out one byte. -/
theorem masked_eq_byteAt (x : BitVec 32) (k : Nat) :
    ((x >>> (8 * k)) &&& 255#32).setWidth 8 = byteAt x k := by
  have mask : 255#32 = (BitVec.allOnes 8).setWidth 32 := by decide
  apply BitVec.eq_of_getLsbD_eq
  intro i hi
  have small : i < 32 := by omega
  rw [getLsbD_byteAt _ _ hi, mask, BitVec.getLsbD_setWidth, BitVec.getLsbD_and,
    BitVec.getLsbD_ushiftRight, BitVec.getLsbD_setWidth, BitVec.getLsbD_allOnes,
    decide_eq_true hi, decide_eq_true small, Bool.true_and, Bool.and_self, Bool.and_true]

theorem fill_or_eq_iff (b c : BitVec 8) :
    fill b ||| c = c ↔ b.msb = false ∨ c = BitVec.allOnes 8 := by
  cases sign : b.msb with
  | false => simp [fill, sign]
  | true =>
      rw [fill, if_pos sign, BitVec.allOnes_or, eq_comm]
      exact ⟨Or.inr, fun h => h.resolve_left (by decide)⟩

theorem or_or_eq_iff (x y z : BitVec w) : x ||| (y ||| z) = z ↔ x ||| z = z ∧ y ||| z = z := by
  constructor
  · intro h
    have left : x ||| (x ||| (y ||| z)) = x ||| (y ||| z) := by
      rw [← BitVec.or_assoc, BitVec.or_self]
    have right : y ||| (x ||| (y ||| z)) = x ||| (y ||| z) := by
      rw [BitVec.or_comm x, ← BitVec.or_assoc, ← BitVec.or_assoc, BitVec.or_self]
    rw [h] at left right
    exact ⟨left, right⟩
  · rintro ⟨left, right⟩
    rw [right, left]

end PackedBytes
