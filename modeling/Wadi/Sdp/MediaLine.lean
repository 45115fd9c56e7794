import Wadi.Library.Separators
import Wadi.Sdp.Refinement

/-!
The cut of a media line and the ids and names cut out of attribute lines.

With at least two blanks the chained searches stop in front of the third one
and the rewritten line can be cut again without loss. With a single blank the
second search misses, the third starts over at the front of the line, and the
cut falls in front of the only blank.
-/

namespace Wadi
open SizeString LineText SectionFilter

/-- The media, port and protocol fields of a media line. -/
def beforeThirdSpace (m : Str) : Str := beforeSep ' ' 2 m

private theorem substr_zero (s : Str) (n : Nat) :
    (substr s 0 n).toOption.getD [] = s.take n := by
  rw [substr_of_le s 0 n (Nat.zero_le _)]
  rfl

theorem mlineCut_eq (m : Str) : mlineCut m = m.take (thirdSep m ' ') :=
  substr_zero m _

theorem mlineCut_of_two (m : Str) (h : 2 ≤ m.count ' ')
    (size : (beforeThirdSpace m).length < 2 ^ 63) : mlineCut m = beforeThirdSpace m := by
  rw [mlineCut_eq]
  exact take_thirdSep ' ' m h size

theorem mlineCut_of_one (x y : Str) (hx : ' ' ∉ x) (hy : ' ' ∉ y)
    (size : (x ++ ' ' :: y).length < 2 ^ 63) : mlineCut (x ++ ' ' :: y) = x := by
  rw [mlineCut_eq]
  simp only [List.length_append, List.length_cons] at size
  exact take_thirdSep_one ' ' x y hx hy (by omega)

theorem mlineCut_of_none (m : Str) (h : ' ' ∉ m) (size : m.length < 2 ^ 63) :
    mlineCut m = m := by
  rw [mlineCut_eq]
  exact take_thirdSep_none ' ' m h size

theorem beforeThirdSpace_length_le (m : Str) : (beforeThirdSpace m).length ≤ m.length :=
  (beforeSep_isPrefix ' ' 2 m).length_le

theorem appendIds_shape (ids : List Str) :
    appendIds ids = [] ∨ ∃ t, appendIds ids = ' ' :: t := by
  cases ids with
  | nil => exact Or.inl rfl
  | cons id ids => exact Or.inr ⟨_, rfl⟩

theorem two_blanks_mlineText (m : Str) (h : 2 ≤ m.count ' ') (size : m.length < 2 ^ 63)
    (es : List Str) : 2 ≤ (mlineText m es).count ' ' := by
  have short := Nat.lt_of_le_of_lt (beforeThirdSpace_length_le m) size
  rw [mlineText, mlineCut_of_two m h short, List.count_append]
  exact Nat.le_add_right_of_le (count_beforeSep ' ' 2 m h)

/-- Rewriting a rewritten media line forgets the first rewriting. -/
theorem mlineText_again (m : Str) (h : 2 ≤ m.count ' ') (size : m.length < 2 ^ 63)
    (es es' : List Str) : mlineText (mlineText m es) es' = mlineText m es' := by
  have short := Nat.lt_of_le_of_lt (beforeThirdSpace_length_le m) size
  have cut := mlineCut_of_two m h short
  have again : beforeThirdSpace (mlineText m es) = beforeThirdSpace m := by
    rw [mlineText, cut]
    exact beforeSep_again ' ' 2 m _ h (appendIds_shape _)
  have blanks := two_blanks_mlineText m h size es
  rw [mlineText, mlineCut_of_two _ blanks (again ▸ short), again, mlineText, cut]

/-- Rewriting neither makes nor unmakes a line that begins with `m=video`. -/
theorem mVideo_prefix_mlineText (m : Str) (es : List Str) :
    mVideo <+: mlineText m es ↔ mVideo <+: m := by
  have noBlank : ' ' ∉ mVideo := by decide
  have cut : mlineCut m <+: m := by
    rw [mlineCut_eq]
    exact List.take_prefix _ _
  constructor
  · intro h
    exact (prefix_of_prefix_append ' ' mVideo (mlineCut m) _ noBlank
      (appendIds_shape _) h).trans cut
  · intro h
    have kept := prefix_take_thirdSep ' ' mVideo m noBlank h (by decide)
    rw [← mlineCut_eq] at kept
    exact kept.trans (List.prefix_append _ _)

end Wadi
