import Wadi.Library.SectionFilterOrder
import Wadi.Sdp.LineKinds

/-!
Lines without any of the filter's markers. They travel through two streams,
depending on whether a media line is pending, and still come out in the order
they went in. What is needed is that the last media line is followed by an
`a=ssrc` line: what is held back after that is written before it.
-/

namespace Wadi
open SizeString LineText SectionFilter

/-- Every media line has been answered when the offer ends. -/
def LastMediaClosed (lines : List Str) : Prop :=
  (∀ l ∈ lines, contains l mVideo = false) ∨
    ∃ pre s post, lines = pre ++ s :: post ∧ isSsrc s = true ∧
      ∀ l ∈ post, contains l mVideo = false

theorem pending_of_lastMediaClosed (allowed : List Str) {lines : List Str}
    (h : LastMediaClosed lines) : (run (sdpRules allowed) {} lines).pending = none := by
  have noHeader {l : Str} (hl : contains l mVideo = false) :
      (sdpRules allowed).role l ≠ .header := by
    intro role
    simp [lineRole_header.mp role] at hl
  obtain none | ⟨pre, s, post, rfl, hs, after⟩ := h
  · exact pending_of_no_header _ {} rfl lines (fun l hl => noHeader (none l hl))
  · exact pending_of_closed _ pre post s (lineRole_closer.mpr hs)
      (fun l hl => noHeader (after l hl))

theorem filter_outputLines (allowed lines : List Str)
    (video : ∀ l ∈ lines, contains l mVideo = true → mVideo <+: l) :
    (outputLines allowed lines).filter passThrough =
      (output (sdpRules allowed) lines).filterMap (sdpRules allowed).passed := by
  rw [outputLines, List.filter_map, ← List.filterMap_eq_filter, List.map_filterMap]
  apply List.filterMap_congr
  intro i hi
  cases i with
  | line l =>
      cases hp : passThrough l <;> simp [Rules.passed, sdpRules_passes, itemText, hp]
  | header m es =>
      obtain ⟨mem, role, -⟩ := mem_of_mem_output hi
      have begins := video m mem (lineRole_header.mp role)
      have media : contains (mlineText m es) mVideo = true :=
        contains_of_isPrefix ((mVideo_prefix_mlineText m es).mpr begins)
      simp [Rules.passed, itemText, passThrough, media]

/-- Pass-through lines are neither lost nor duplicated nor reordered. -/
theorem passThrough_preserved (sdp : Str) (allowed : List Str)
    (video : ∀ l ∈ getlines sdp, contains l mVideo = true → mVideo <+: l)
    (noStop : ∀ l ∈ getlines sdp, l ≠ aRtpmap) (closed : LastMediaClosed (getlines sdp)) :
    ∃ out, sdpForceCodecs sdp allowed = .ok out ∧
      (crlfLines out).filter passThrough = (getlines sdp).filter passThrough := by
  refine ⟨_, sdpForceCodecs_eq sdp allowed noStop, ?_⟩
  have pending := pending_of_lastMediaClosed allowed closed
  rw [crlfLines_outputLines, filter_outputLines allowed _ video,
    output_passed _ _ pending, sdpRules_passes]

def overtakenOffer : Str := lfText
  ["v=0".toList, "m=video 9 UDP 96".toList, "a=mid:0".toList, "m=video 8 UDP 96".toList,
    "a=mid:1".toList, "a=ssrc:1".toList, "a=end".toList]

theorem overtakenOffer_passThrough :
    ∃ out, sdpForceCodecs overtakenOffer [] = .ok out ∧
      (crlfLines out).filter passThrough = (getlines overtakenOffer).filter passThrough :=
  passThrough_preserved overtakenOffer [] (by decide) (by decide)
    (Or.inr ⟨["v=0".toList, "m=video 9 UDP 96".toList, "a=mid:0".toList,
      "m=video 8 UDP 96".toList, "a=mid:1".toList], "a=ssrc:1".toList, ["a=end".toList],
      by decide, by decide, by decide⟩)

end Wadi
