import Wadi.Library.SectionFilterBody
import Wadi.Library.SectionFilterHeaders
import Wadi.Sdp.MediaLine

/-!
The kinds of SDP lines, stated on the text of a line. They follow the order of the
program's tests: a line with several markers is what the first test makes of it.
-/

namespace Wadi
open SizeString LineText SectionFilter

/-- Lines with none of the markers the filter acts on. -/
def passThrough (l : Str) : Bool :=
  !contains l mVideo && !contains l aRtpmap && !contains l aRtcpFb && !contains l aFmtp

def isRtpmap (l : Str) : Bool := !contains l mVideo && contains l aRtpmap

def isFeedback (l : Str) : Bool :=
  !contains l mVideo && !contains l aRtpmap && (contains l aRtcpFb || contains l aFmtp)

def isSsrc (l : Str) : Bool := passThrough l && contains l aSsrc

def allowedRtpmap (allowed : List Str) (l : Str) : Bool :=
  isRtpmap l && decide (codecOf l ∈ allowed)

/-- The payload ids of the allowed rtpmap lines, in order. -/
def allowedIdsOf (allowed : List Str) (lines : List Str) : List Str :=
  (lines.filter (allowedRtpmap allowed)).map codecIdOf

/-- Whether a codec line is kept, given the lines in front of it. -/
def keepsLine (allowed : List Str) (earlier : List Str) (l : Str) : Bool :=
  allowedRtpmap allowed l ||
    (isFeedback l && decide (feedbackIdOf l ∈ allowedIdsOf allowed earlier))

theorem not_video_of_passThrough {l : Str} (h : passThrough l = true) :
    contains l mVideo = false := by
  cases video : contains l mVideo with
  | false => rfl
  | true => simp [passThrough, video] at h

theorem ne_aRtpmap_of_passThrough {l : Str} (h : passThrough l = true) : l ≠ aRtpmap := by
  rintro rfl
  exact absurd h (by decide)

/-- The role of a line, test by test. -/
theorem lineRole_iff (l : Str) :
    (lineRole l = .header ↔ contains l mVideo = true) ∧
    (lineRole l = .entry ↔ isRtpmap l = true) ∧
    (lineRole l = .detail ↔ isFeedback l = true) ∧
    (lineRole l = .closer ↔ isSsrc l = true) ∧
    (lineRole l = .plain ↔ passThrough l = true ∧ isSsrc l = false) := by
  simp only [lineRole, isRtpmap, isFeedback, isSsrc, passThrough]
  cases contains l mVideo <;> cases contains l aRtpmap <;> cases contains l aRtcpFb <;>
    cases contains l aFmtp <;> cases contains l aSsrc <;> simp

theorem lineRole_header {l : Str} : lineRole l = .header ↔ contains l mVideo = true :=
  (lineRole_iff l).1

theorem lineRole_entry {l : Str} : lineRole l = .entry ↔ isRtpmap l = true :=
  (lineRole_iff l).2.1

theorem lineRole_detail {l : Str} : lineRole l = .detail ↔ isFeedback l = true :=
  (lineRole_iff l).2.2.1

theorem lineRole_closer {l : Str} : lineRole l = .closer ↔ isSsrc l = true :=
  (lineRole_iff l).2.2.2.1

theorem lineRole_beq_entry (l : Str) : (lineRole l == .entry) = isRtpmap l := by
  rw [Bool.eq_iff_iff, beq_iff_eq]
  exact lineRole_entry

theorem lineRole_beq_detail (l : Str) : (lineRole l == .detail) = isFeedback l := by
  rw [Bool.eq_iff_iff, beq_iff_eq]
  exact lineRole_detail

theorem lineRole_inner (l : Str) :
    lineRole l ≠ .header ∧ lineRole l ≠ .closer ↔
      contains l mVideo = false ∧ isSsrc l = false := by
  rw [← Bool.not_eq_true, ← Bool.not_eq_true]
  exact and_congr (not_congr lineRole_header) (not_congr lineRole_closer)

/-- The lines up to the next `a=ssrc` line, when no media line comes first. -/
theorem closing_sdpRules {allowed lines mid : List Str} :
    closing (sdpRules allowed) lines = some mid ↔
      ∃ s rest, lines = mid ++ s :: rest ∧ isSsrc s = true ∧
        ∀ l ∈ mid, contains l mVideo = false ∧ isSsrc l = false := by
  simp only [closing_eq_some, sdpRules, lineRole_inner, lineRole_closer]

/-- A media line is pending when it is the last one and no `a=ssrc` line follows. -/
theorem pending_sdpRules {allowed lines : List Str} {m : Str} :
    (run (sdpRules allowed) {} lines).pending = some m ↔
      ∃ pre mid, lines = pre ++ m :: mid ∧ contains m mVideo = true ∧
        ∀ l ∈ mid, contains l mVideo = false ∧ isSsrc l = false := by
  rw [pending_eq_some_iff]
  simp only [sdpRules, lineRole_inner, lineRole_header]

theorem sdpRules_passes (allowed : List Str) : (sdpRules allowed).passes = passThrough := by
  funext l
  simp only [Rules.passes, sdpRules, lineRole, passThrough]
  cases contains l mVideo <;> cases contains l aRtpmap <;> cases contains l aRtcpFb <;>
    cases contains l aFmtp <;> cases contains l aSsrc <;> rfl

theorem sdpRules_admitted (allowed : List Str) :
    (sdpRules allowed).admitted = allowedRtpmap allowed := by
  funext l
  exact congrArg (· && decide (codecOf l ∈ allowed)) (lineRole_beq_entry l)

theorem sdpRules_covered (allowed : List Str) (pre : List Str) (l : Str) :
    (∃ e ∈ pre, (sdpRules allowed).admitted e = true ∧ (sdpRules allowed).covers e l = true) ↔
      feedbackIdOf l ∈ allowedIdsOf allowed pre := by
  rw [sdpRules_admitted]
  simp only [sdpRules, allowedIdsOf, List.mem_map, List.mem_filter, beq_iff_eq, and_assoc]

theorem files_eq_keepsLine (allowed earlier : List Str) (l : Str) :
    (sdpRules allowed).files (earlier.filter (sdpRules allowed).admitted) l =
      keepsLine allowed earlier l := by
  have covered : ((earlier.filter (sdpRules allowed).admitted).any
      ((sdpRules allowed).covers · l)) =
        decide (feedbackIdOf l ∈ allowedIdsOf allowed earlier) := by
    rw [Bool.eq_iff_iff, covers_any, sdpRules_admitted, decide_eq_true_iff]
    rfl
  have detail : ((sdpRules allowed).role l == .detail) = isFeedback l := lineRole_beq_detail l
  rw [Rules.files, covered, detail, sdpRules_admitted, keepsLine]

/-- Only rewritten media lines are written for lines that contain `m=video`. -/
theorem not_video_of_line_mem {allowed lines : List Str} {l : Str}
    (h : .line l ∈ output (sdpRules allowed) lines) : contains l mVideo = false := by
  rw [← Bool.not_eq_true]
  intro video
  obtain ⟨-, pass⟩ | acc := accounted_of_mem_output h
  · simp [sdpRules_passes, passThrough, video] at pass
  · obtain role | role := acc.role <;> simp [sdpRules, lineRole_header.mpr video] at role

end Wadi
