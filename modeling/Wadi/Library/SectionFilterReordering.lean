import Mathlib.Data.List.Count
import Wadi.Library.SectionFilterBody

/-!
The pass inside one section and the order of its lines. Admitted entries are filed
wherever they stand. A detail is filed from the first entry on that covers it, so each
of its copies in front of that entry is lost. Two orders of the same lines file the same
lines exactly when every detail stands equally often in front of its first entry.
-/

namespace SectionFilter
universe u
variable {L : Type u} [BEq L]

/-- How often a line stands in front of the first admitted entry that covers it. -/
def tooEarly (R : Rules L) (ls : List L) (l : L) : Nat :=
  (ls.takeWhile (fun e => !(R.admitted e && R.covers e l))).count l

theorem count_filing_cons (R : Rules L) (adm : List L) (e : L) (es : List L) (l : L) :
    (filing R adm (e :: es)).count l =
      (filing R (adm ++ [e].filter R.admitted) es).count l +
        if R.files adm e && e == l then 1 else 0 := by
  rw [filing]
  by_cases files : R.files adm e = true
  · rw [if_pos files, List.count_cons, files, Bool.true_and]
  · rw [if_neg files, Bool.eq_false_iff.mpr files, Bool.false_and, if_neg Bool.false_ne_true,
      Nat.add_zero]

variable [LawfulBEq L]

theorem count_filing_covered (R : Rules L) {l : L} (hl : R.role l = .detail)
    (adm ls : List L) (covered : adm.any (R.covers · l) = true) :
    (filing R adm ls).count l = ls.count l := by
  induction ls generalizing adm with
  | nil => rfl
  | cons e es ih =>
      have still : (adm ++ [e].filter R.admitted).any (R.covers · l) = true := by
        rw [List.any_append, covered, Bool.true_or]
      rw [count_filing_cons, ih _ still, List.count_cons]
      obtain rfl | differ := eq_or_ne e l
      · have files : R.files adm e = true := by simp [Rules.files, hl, covered]
        simp [files]
      · simp [differ]

theorem count_filing_admitted (R : Rules L) {l : L} (hl : R.admitted l = true)
    (adm ls : List L) : (filing R adm ls).count l = ls.count l := by
  induction ls generalizing adm with
  | nil => rfl
  | cons e es ih =>
      rw [count_filing_cons, ih, List.count_cons]
      obtain rfl | differ := eq_or_ne e l
      · have files : R.files adm e = true := by simp [Rules.files, hl]
        simp [files]
      · simp [differ]

/-- The copies of a detail in front of its first entry are the ones that are lost. -/
theorem count_filing_detail (R : Rules L) {l : L} (hl : R.role l = .detail) (adm ls : List L)
    (uncovered : adm.any (R.covers · l) = false) :
    (filing R adm ls).count l + tooEarly R ls l = ls.count l := by
  have notAdmitted : R.admitted l = false := by simp [Rules.admitted, hl]
  induction ls generalizing adm with
  | nil => rfl
  | cons e es ih =>
      rw [count_filing_cons, List.count_cons, tooEarly]
      by_cases opens : R.admitted e = true ∧ R.covers e l = true
      · have differ : e ≠ l := by
          rintro rfl
          rw [notAdmitted] at opens
          cases opens.1
        have covered : (adm ++ [e].filter R.admitted).any (R.covers · l) = true := by
          simp [opens.1, opens.2]
        rw [count_filing_covered R hl _ _ covered]
        simp [opens.1, opens.2, differ]
      · have closed : (R.admitted e && R.covers e l) = false := by
          rw [← Bool.not_eq_true, Bool.and_eq_true]
          exact opens
        have still : (adm ++ [e].filter R.admitted).any (R.covers · l) = false := by
          rw [List.any_append, uncovered, Bool.false_or]
          cases admitted : R.admitted e <;> simp_all
        have rest := ih _ still
        rw [tooEarly] at rest
        obtain rfl | differ := eq_or_ne e l
        · have files : R.files adm e = false := by simp [Rules.files, notAdmitted, uncovered]
          simp only [List.takeWhile_cons, closed, Bool.not_false, if_true, List.count_cons,
            files, Bool.false_and, Bool.false_eq_true, if_false, beq_self_eq_true]
          omega
        · simp only [List.takeWhile_cons, closed, Bool.not_false, if_true, List.count_cons,
            beq_false_of_ne differ, Bool.and_false, Bool.false_eq_true, if_false]
          exact rest

theorem count_filing_other (R : Rules L) {l : L} (admitted : R.admitted l = false)
    (role : R.role l ≠ .detail) (adm ls : List L) : (filing R adm ls).count l = 0 := by
  rw [List.count_eq_zero, filing_eq]
  intro member
  obtain ⟨p, hp, rfl⟩ := List.mem_map.mp member
  have files := (List.mem_filter.mp hp).2
  simp [Rules.files, admitted, role] at files

/-- Two orders of the same lines file the same lines exactly when every detail stands
equally often in front of its first entry. -/
theorem filing_perm_iff (R : Rules L) {ls ks : List L} (perm : ls.Perm ks) :
    (filing R [] ls).Perm (filing R [] ks) ↔
      ∀ l, R.role l = .detail → tooEarly R ls l = tooEarly R ks l := by
  rw [List.perm_iff_count]
  refine forall_congr' fun l => ?_
  have same := perm.count_eq l
  by_cases detail : R.role l = .detail
  · have left := count_filing_detail R detail [] ls rfl
    have right := count_filing_detail R detail [] ks rfl
    constructor
    · intro equal _
      omega
    · intro equal
      have early := equal detail
      omega
  · refine iff_of_true ?_ (fun role => absurd role detail)
    cases admitted : R.admitted l with
    | true => rw [count_filing_admitted R admitted, count_filing_admitted R admitted, same]
    | false => rw [count_filing_other R admitted detail, count_filing_other R admitted detail]

end SectionFilter
