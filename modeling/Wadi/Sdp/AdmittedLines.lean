import Wadi.Sdp.LineKinds

/-!
No disallowed codec gets through, on any input the filter returns on. Kept
lines are justified one by one: an rtpmap line by its codec name, a feedback or
format line by an allowed rtpmap line in front of it, and the ids on a media
line by the allowed rtpmap lines in front of the point where it is written.

Kinds overlap on text: an allowed rtpmap line may also carry `a=fmtp`. Such a
line is kept for its codec name, with nothing in front of it.
-/

namespace Wadi
open SizeString LineText SectionFilter

def RtpmapLinesAllowed (allowed lines out : List Str) : Prop :=
  ∀ l ∈ out, ¬ mVideo <+: l → contains l aRtpmap = true → l ∈ lines ∧ codecOf l ∈ allowed

/-- An input line whose id is that of an allowed rtpmap line in front of it. -/
def Covered (allowed lines : List Str) (l : Str) : Prop :=
  ∃ pre post, lines = pre ++ l :: post ∧ feedbackIdOf l ∈ allowedIdsOf allowed pre

def FeedbackLinesCovered (allowed lines out : List Str) : Prop :=
  ∀ l ∈ out, ¬ mVideo <+: l → contains l aRtcpFb = true ∨ contains l aFmtp = true →
    Covered allowed lines l

def FeedbackLinesJustified (allowed lines out : List Str) : Prop :=
  ∀ l ∈ out, ¬ mVideo <+: l → contains l aRtcpFb = true ∨ contains l aFmtp = true →
    (l ∈ lines ∧ allowedRtpmap allowed l = true) ∨ Covered allowed lines l

/-- Each media line is a pending one, written at the next `a=ssrc` line with the
ids of the allowed rtpmap lines in front of that line. -/
def MediaLinesCovered (allowed lines out : List Str) : Prop :=
  ∀ l ∈ out, mVideo <+: l → ∃ before m between s after,
    lines = before ++ m :: (between ++ s :: after) ∧ contains m mVideo = true ∧
    (∀ k ∈ between, contains k mVideo = false ∧ isSsrc k = false) ∧ isSsrc s = true ∧
    l = mlineCut m ++ appendIds (allowedIdsOf allowed (before ++ m :: between))

theorem line_of_not_media {allowed lines : List Str}
    (video : ∀ l ∈ lines, contains l mVideo = true → mVideo <+: l) {l : Str}
    (hl : l ∈ outputLines allowed lines) (hm : ¬ mVideo <+: l) :
    (l ∈ lines ∧ passThrough l = true) ∨ Accepted (sdpRules allowed) lines l := by
  obtain ⟨i, hi, rfl⟩ := List.mem_map.mp hl
  cases i with
  | line k =>
      have acc := accounted_of_mem_output hi
      simpa only [Accounted, sdpRules_passes, itemText] using acc
  | header m es =>
      obtain ⟨hmem, role, -⟩ := mem_of_mem_output hi
      have begins := video m hmem (lineRole_header.mp role)
      exact absurd ((mVideo_prefix_mlineText m es).mpr begins) hm

theorem rtpmapLinesAllowed_output {allowed lines : List Str}
    (video : ∀ l ∈ lines, contains l mVideo = true → mVideo <+: l) :
    RtpmapLinesAllowed allowed lines (outputLines allowed lines) := by
  intro l hl hm hr
  obtain ⟨-, pass⟩ | acc := line_of_not_media video hl hm
  · simp [passThrough, hr] at pass
  · obtain ⟨mem, adm⟩ | ⟨role, -⟩ := acc
    · rw [sdpRules_admitted] at adm
      simp only [allowedRtpmap, Bool.and_eq_true, decide_eq_true_eq] at adm
      exact ⟨mem, adm.2⟩
    · have feedback := lineRole_detail.mp role
      simp [isFeedback, hr] at feedback

theorem feedbackLinesJustified_output {allowed lines : List Str}
    (video : ∀ l ∈ lines, contains l mVideo = true → mVideo <+: l) :
    FeedbackLinesJustified allowed lines (outputLines allowed lines) := by
  intro l hl hm hf
  obtain ⟨-, pass⟩ | acc := line_of_not_media video hl hm
  · obtain h | h := hf <;> simp [passThrough, h] at pass
  · obtain ⟨mem, adm⟩ | ⟨-, pre, post, split, covered⟩ := acc
    · exact Or.inl ⟨mem, sdpRules_admitted allowed ▸ adm⟩
    · exact Or.inr ⟨pre, post, split, (sdpRules_covered allowed pre l).mp covered⟩

theorem header_of_mem_output {allowed lines : List Str} {m : Str} {es : List Str}
    (h : .header m es ∈ output (sdpRules allowed) lines) :
    ∃ before between s after,
      lines = before ++ m :: (between ++ s :: after) ∧ contains m mVideo = true ∧
      (∀ k ∈ between, contains k mVideo = false ∧ isSsrc k = false) ∧ isSsrc s = true ∧
      mlineText m es =
        mlineCut m ++ appendIds (allowedIdsOf allowed (before ++ m :: between)) := by
  obtain ⟨before, between, s, after, split, header, hs, inner, rfl⟩ := header_mem_output.mp h
  refine ⟨before, between, s, after, split, lineRole_header.mp header,
    fun k hk => (lineRole_inner k).mp (inner k hk), lineRole_closer.mp hs, ?_⟩
  rw [mlineText, sdpRules_admitted]
  rfl

theorem mediaLinesCovered_output {allowed lines : List Str} :
    MediaLinesCovered allowed lines (outputLines allowed lines) := by
  intro l hl hm
  obtain ⟨i, hi, rfl⟩ := List.mem_map.mp hl
  cases i with
  | line k =>
      have video : contains k mVideo = true := contains_of_isPrefix hm
      rw [not_video_of_line_mem hi] at video
      cases video
  | header m es =>
      obtain ⟨before, between, s, after, split, rest⟩ := header_of_mem_output hi
      exact ⟨before, m, between, s, after, split, rest⟩

/-- Every kept line and every listed id is justified by the input, whatever the
number and order of the media sections. -/
theorem no_disallowed_codec (sdp out : Str) (allowed : List Str)
    (video : ∀ l ∈ getlines sdp, contains l mVideo = true → mVideo <+: l)
    (returns : sdpForceCodecs sdp allowed = .ok out) :
    RtpmapLinesAllowed allowed (getlines sdp) (crlfLines out) ∧
      FeedbackLinesJustified allowed (getlines sdp) (crlfLines out) ∧
      MediaLinesCovered allowed (getlines sdp) (crlfLines out) := by
  obtain ⟨-, rfl⟩ := eq_of_sdpForceCodecs returns
  rw [crlfLines_outputLines]
  exact ⟨rtpmapLinesAllowed_output video, feedbackLinesJustified_output video,
    mediaLinesCovered_output⟩

/-- An offer whose only rtpmap line also carries the marker of a format line. -/
def markedOffer : Str := lfText
  ["m=video 9 UDP 96".toList, "a=rtpmap:96 H264/90000 a=fmtp".toList, "a=ssrc:1".toList]

theorem markedOffer_no_disallowed_codec :
    ∃ out, sdpForceCodecs markedOffer ["H264".toList] = .ok out ∧
      RtpmapLinesAllowed ["H264".toList] (getlines markedOffer) (crlfLines out) ∧
      FeedbackLinesJustified ["H264".toList] (getlines markedOffer) (crlfLines out) ∧
      MediaLinesCovered ["H264".toList] (getlines markedOffer) (crlfLines out) :=
  ⟨crlfText (getlines markedOffer), by decide +kernel,
    no_disallowed_codec markedOffer _ ["H264".toList] (by decide +kernel) (by decide +kernel)⟩

/-- The marked rtpmap line is kept and contains `a=fmtp`, but no allowed rtpmap
line stands in front of it. -/
theorem markedOffer_not_covered :
    (∀ l ∈ getlines markedOffer, contains l mVideo = true → mVideo <+: l) ∧
      ∃ out, sdpForceCodecs markedOffer ["H264".toList] = .ok out ∧
        ¬ FeedbackLinesCovered ["H264".toList] (getlines markedOffer) (crlfLines out) := by
  refine ⟨by decide +kernel, crlfText (getlines markedOffer), by decide +kernel, ?_⟩
  intro covered
  have mem : "a=rtpmap:96 H264/90000 a=fmtp".toList ∈
      crlfLines (crlfText (getlines markedOffer)) := by decide
  obtain ⟨pre, post, split, id⟩ :=
    covered _ mem (by decide) (Or.inr (by decide))
  have none : ∀ p ∈ positions [] (getlines markedOffer),
      p.2.1 = "a=rtpmap:96 H264/90000 a=fmtp".toList →
        feedbackIdOf p.2.1 ∉ allowedIdsOf ["H264".toList] p.1 := by
    decide
  exact none _ (mem_positions_nil.mpr split) rfl id

end Wadi
