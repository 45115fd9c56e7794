import Wadi.Library.PackedBytes
import Wadi.Library.SizeString

/-!
Pixel-format codes: four characters packed into a 32-bit number and taken out again.

The macro `v4l2_fourcc` converts each character to `__u32` before it shifts it. The
characters come from an array of plain `char`, which is signed, so one with its high bit
set is widened with ones and spoils the characters behind it.
-/

namespace Wadi
open SizeString PackedBytes

/-- `char fourcc[4]`. -/
structure Fourcc where
  a : UInt8
  b : UInt8
  c : UInt8
  d : UInt8
  deriving DecidableEq, Repr

def charOf (b : UInt8) : Char := Char.ofNat b.toNat

/-- `std::string(str, 4)`. -/
def Fourcc.text (f : Fourcc) : Str := [charOf f.a, charOf f.b, charOf f.c, charOf f.d]

/-- A `char` converted to `__u32`. -/
def widen (b : UInt8) : UInt32 := b.toInt8.toInt32.toUInt32

def v4l2Fourcc (a b c d : UInt8) : UInt32 :=
  widen a ||| widen b <<< 8 ||| widen c <<< 16 ||| widen d <<< 24

/-- The array `str` of `fourcc_to_string`. -/
def fourccChars (pixelformat : UInt32) : Fourcc where
  a := ((pixelformat >>> 0) &&& 0xFF).toUInt8
  b := ((pixelformat >>> 8) &&& 0xFF).toUInt8
  c := ((pixelformat >>> 16) &&& 0xFF).toUInt8
  d := ((pixelformat >>> 24) &&& 0xFF).toUInt8

def fourccToString (pixelformat : UInt32) : Str := (fourccChars pixelformat).text

/-- The characters of an array packed into a number. -/
def Fourcc.pack (f : Fourcc) : UInt32 := v4l2Fourcc f.a f.b f.c f.d

/-- Behind a character with its high bit set there are only characters `0xFF`. -/
def Fourcc.Packable (f : Fourcc) : Prop :=
  [f.a, f.b, f.c, f.d].Pairwise (fun x y => x < 0x80 ∨ y = 0xFF)

theorem toNat_charOf (b : UInt8) : (charOf b).toNat = b.toNat := by
  have small : b.toNat < 256 := b.toNat_lt
  have valid : b.toNat.isValidChar := Or.inl (by omega)
  rw [charOf, Char.ofNat, dif_pos valid]
  rfl

theorem charOf_injective {a b : UInt8} (h : charOf a = charOf b) : a = b := by
  apply UInt8.toNat_inj.mp
  rw [← toNat_charOf a, h, toNat_charOf]

theorem Fourcc.text_injective {f g : Fourcc} (h : f.text = g.text) : f = g := by
  simp only [Fourcc.text, List.cons.injEq, and_true] at h
  obtain ⟨ha, hb, hc, hd⟩ := h
  cases f
  cases g
  simp only [Fourcc.mk.injEq]
  exact ⟨charOf_injective ha, charOf_injective hb, charOf_injective hc, charOf_injective hd⟩

theorem toBitVec_widen (b : UInt8) : (widen b).toBitVec = b.toBitVec.signExtend 32 := by
  rw [widen, Int32.toBitVec_toUInt32, Int8.toBitVec_toInt32, UInt8.toBitVec_toInt8]

theorem toBitVec_v4l2Fourcc (a b c d : UInt8) :
    (v4l2Fourcc a b c d).toBitVec =
      (a.toBitVec.signExtend 32) <<< (8 * 0) ||| (b.toBitVec.signExtend 32) <<< (8 * 1) |||
        (c.toBitVec.signExtend 32) <<< (8 * 2) ||| (d.toBitVec.signExtend 32) <<< (8 * 3) := by
  simp only [v4l2Fourcc, UInt32.toBitVec_or, UInt32.toBitVec_shiftLeft, toBitVec_widen]
  rw [Nat.mul_zero, BitVec.shiftLeft_zero]
  rfl

theorem toBitVec_fourccChars (p : UInt32) :
    (fourccChars p).a.toBitVec = byteAt p.toBitVec 0 ∧
    (fourccChars p).b.toBitVec = byteAt p.toBitVec 1 ∧
    (fourccChars p).c.toBitVec = byteAt p.toBitVec 2 ∧
    (fourccChars p).d.toBitVec = byteAt p.toBitVec 3 := by
  simp only [← masked_eq_byteAt]
  exact ⟨rfl, rfl, rfl, rfl⟩

theorem fourccChars_injective {p q : UInt32} (h : fourccChars p = fourccChars q) : p = q := by
  obtain ⟨pa, pb, pc, pd⟩ := toBitVec_fourccChars p
  obtain ⟨qa, qb, qc, qd⟩ := toBitVec_fourccChars q
  apply UInt32.toBitVec_inj.mp
  apply eq_of_byteAt_eq
  intro k hk
  obtain rfl | rfl | rfl | rfl : k = 0 ∨ k = 1 ∨ k = 2 ∨ k = 3 := by omega
  · rw [← pa, ← qa, h]
  · rw [← pb, ← qb, h]
  · rw [← pc, ← qc, h]
  · rw [← pd, ← qd, h]

/-- Every packed character is joined with the sign bits of those before it. -/
theorem toBitVec_fourccChars_pack (f : Fourcc) :
    (fourccChars f.pack).a.toBitVec = f.a.toBitVec ∧
    (fourccChars f.pack).b.toBitVec = fill f.a.toBitVec ||| f.b.toBitVec ∧
    (fourccChars f.pack).c.toBitVec =
      fill f.a.toBitVec ||| (fill f.b.toBitVec ||| f.c.toBitVec) ∧
    (fourccChars f.pack).d.toBitVec =
      fill f.a.toBitVec ||| fill f.b.toBitVec ||| (fill f.c.toBitVec ||| f.d.toBitVec) := by
  obtain ⟨ha, hb, hc, hd⟩ := toBitVec_fourccChars f.pack
  rw [ha, hb, hc, hd, Fourcc.pack, toBitVec_v4l2Fourcc]
  -- in each byte: the sign bits of the characters before, the character, zeros
  simp only [byteAt_or]
  refine ⟨?_, ?_, ?_, ?_⟩
  · rw [byteAt_shift_self _ (by decide), byteAt_shift_above _ (by decide),
      byteAt_shift_above _ (by decide), byteAt_shift_above _ (by decide)]
    simp only [BitVec.or_zero]
  · rw [byteAt_shift_below _ (by decide) (by decide), byteAt_shift_self _ (by decide),
      byteAt_shift_above _ (by decide), byteAt_shift_above _ (by decide)]
    simp only [BitVec.or_zero]
  · rw [byteAt_shift_below _ (by decide) (by decide), byteAt_shift_below _ (by decide) (by decide),
      byteAt_shift_self _ (by decide), byteAt_shift_above _ (by decide)]
    simp only [BitVec.or_zero, BitVec.or_assoc]
  · rw [byteAt_shift_below _ (by decide) (by decide), byteAt_shift_below _ (by decide) (by decide),
      byteAt_shift_below _ (by decide) (by decide), byteAt_shift_self _ (by decide),
      BitVec.or_assoc]

theorem msb_eq_false_iff (b : UInt8) : b.toBitVec.msb = false ↔ b < 0x80 := by
  rw [BitVec.msb_eq_decide, decide_eq_false_iff_not, Nat.not_le, UInt8.lt_iff_toNat_lt]
  rfl

theorem fill_or_toBitVec_eq_iff (b c : UInt8) :
    fill b.toBitVec ||| c.toBitVec = c.toBitVec ↔ b < 0x80 ∨ c = 0xFF := by
  rw [fill_or_eq_iff, msb_eq_false_iff, ← UInt8.toBitVec_inj]
  rfl

theorem Fourcc.packable_iff (f : Fourcc) :
    f.Packable ↔
      ((f.a < 0x80 ∨ f.b = 0xFF) ∧ (f.a < 0x80 ∨ f.c = 0xFF) ∧ (f.a < 0x80 ∨ f.d = 0xFF)) ∧
      ((f.b < 0x80 ∨ f.c = 0xFF) ∧ (f.b < 0x80 ∨ f.d = 0xFF)) ∧
      (f.c < 0x80 ∨ f.d = 0xFF) := by
  simp [Fourcc.Packable]

theorem fourccChars_pack_eq_iff (f : Fourcc) : fourccChars f.pack = f ↔ f.Packable := by
  obtain ⟨ha, hb, hc, hd⟩ := toBitVec_fourccChars_pack f
  have byBytes : fourccChars f.pack = f ↔ (fourccChars f.pack).a = f.a ∧
      (fourccChars f.pack).b = f.b ∧ (fourccChars f.pack).c = f.c ∧
      (fourccChars f.pack).d = f.d := by
    cases fourccChars f.pack
    cases f
    exact Fourcc.mk.injEq .. |>.to_iff
  simp only [byBytes, ← UInt8.toBitVec_inj, ha, hb, hc, hd, or_or_eq_iff]
  simp only [BitVec.or_assoc, or_or_eq_iff, fill_or_toBitVec_eq_iff, Fourcc.packable_iff]
  constructor
  · rintro ⟨-, ab, ⟨ac, bc⟩, ⟨ad, bd⟩, cd⟩
    exact ⟨⟨ab, ac, ad⟩, ⟨bc, bd⟩, cd⟩
  · rintro ⟨⟨ab, ac, ad⟩, ⟨bc, bd⟩, cd⟩
    exact ⟨trivial, ab, ⟨ac, bc⟩, ⟨ad, bd⟩, cd⟩

theorem pack_fourccChars_eq_iff (p : UInt32) :
    (fourccChars p).pack = p ↔ (fourccChars p).Packable := by
  rw [← fourccChars_pack_eq_iff]
  exact ⟨fun h => congrArg fourccChars h, fourccChars_injective⟩

end Wadi
