import Wadi.Library.SectionFilterComposition
import Wadi.Sdp.LineKinds

/-!
Filtering an offer twice. On lines, with the carriage returns of each result
taken off before the next application, filtering for two lists of codecs in a
row is filtering once for the codecs in both. A media line can be rewritten
again without loss because its cut stops in front of the third blank, which is
where the ids of the first rewriting begin.
-/

namespace Wadi
open SizeString LineText SectionFilter

/-- The filter on lists of lines: the lines are joined by LF, and the lines of
the result lose their trailing carriage returns. -/
def forceLines (allowed : List Str) (lines : List Str) : Except OutOfRange (List Str) :=
  (sdpForceCodecs (lfText lines) allowed).map (fun out => (getlines out).map stripCr)

/-- Lines the filter can be applied to more than once. -/
structure Refilterable (lines : List Str) : Prop where
  clean : ∀ l ∈ lines, '\r' ∉ l ∧ '\n' ∉ l
  noStop : ∀ l ∈ lines, l ≠ aRtpmap
  video : ∀ l ∈ lines, contains l mVideo = true → mVideo <+: l ∧ 2 ≤ l.count ' '

theorem forceLines_eq (allowed : List Str) {lines : List Str} (h : Refilterable lines) :
    forceLines allowed lines = .ok (outputLines allowed lines) := by
  have read : getlines (lfText lines) = lines :=
    getlines_lfText lines (fun l hl => (h.clean l hl).2)
  have noLf : ∀ l ∈ outputLines allowed lines, '\n' ∉ l :=
    not_mem_outputLines (by decide) (fun l hl => (h.clean l hl).2)
  have noCr : ∀ l ∈ outputLines allowed lines, '\r' ∉ l :=
    not_mem_outputLines (by decide) (fun l hl => (h.clean l hl).1)
  rw [forceLines, sdpForceCodecs_eq _ allowed (read.symm ▸ h.noStop), read, Except.map,
    getlines_crlfText _ noLf, List.map_map]
  congr 1
  conv_rhs => rw [← List.map_id (outputLines allowed lines)]
  apply List.map_congr_left
  intro l hl
  exact stripCr_append_cr l (noCr l hl)

theorem mlineText_ne_aRtpmap {m : Str} (h : mVideo <+: m) (es : List Str) :
    mlineText m es ≠ aRtpmap := by
  intro eq
  have begins := (mVideo_prefix_mlineText m es).mpr h
  rw [eq] at begins
  exact absurd begins (by decide)

theorem refilterable_outputLines (allowed : List Str) {lines : List Str} (h : Refilterable lines)
    (size : ∀ l ∈ lines, l.length < 2 ^ 63) : Refilterable (outputLines allowed lines) := by
  refine ⟨?_, ?_, ?_⟩
  · intro l hl
    exact ⟨not_mem_outputLines (by decide) (fun k hk => (h.clean k hk).1) l hl,
      not_mem_outputLines (by decide) (fun k hk => (h.clean k hk).2) l hl⟩
  · intro l hl
    obtain ⟨i, hi, rfl⟩ := List.mem_map.mp hl
    have origin := mem_of_mem_output hi
    cases i with
    | line l => exact h.noStop l origin
    | header m es =>
        exact mlineText_ne_aRtpmap (h.video m origin.1 (lineRole_header.mp origin.2.1)).1 es
  · intro l hl video
    obtain ⟨i, hi, rfl⟩ := List.mem_map.mp hl
    have origin := mem_of_mem_output hi
    cases i with
    | line l =>
        rw [itemText, not_video_of_line_mem hi] at video
        cases video
    | header m es =>
        obtain ⟨begins, blanks⟩ := h.video m origin.1 (lineRole_header.mp origin.2.1)
        exact ⟨(mVideo_prefix_mlineText m es).mpr begins,
          two_blanks_mlineText m blanks (size m origin.1) es⟩

theorem rewrites_mlineText (allowed : List Str) {m : Str} (begins : mVideo <+: m)
    (blanks : 2 ≤ m.count ' ') (size : m.length < 2 ^ 63) :
    Rewrites (sdpRules allowed) mlineText m := by
  refine ⟨fun es => lineRole_header.mpr ?_, fun es es' => mlineText_again m blanks size es es'⟩
  exact contains_of_isPrefix ((mVideo_prefix_mlineText m es).mpr begins)

theorem render_mlineText : Item.render mlineText = itemText := by
  funext i
  cases i <;> rfl

theorem outputLines_twice (A B C lines : List Str) (both : ∀ c, c ∈ C ↔ c ∈ A ∧ c ∈ B)
    (h : Refilterable lines) (size : ∀ l ∈ lines, l.length < 2 ^ 63) :
    outputLines B (outputLines A lines) = outputLines C lines := by
  have rewrites : ∀ m ∈ lines, (sdpRules []).role m = .header →
      Rewrites (sdpRules []) mlineText m := by
    intro m hm role
    obtain ⟨begins, blanks⟩ := h.video m hm (lineRole_header.mp role)
    exact rewrites_mlineText [] begins blanks (size m hm)
  have twice := output_twice (a := fun l => decide (codecOf l ∈ A))
    (b := fun l => decide (codecOf l ∈ B)) lines rewrites
  have same : (fun l => decide (codecOf l ∈ A) && decide (codecOf l ∈ B)) =
      fun l => decide (codecOf l ∈ C) := by
    funext l
    simp [both]
  rw [same, render_mlineText] at twice
  exact twice

theorem forceLines_twice (A B C lines : List Str) (both : ∀ c, c ∈ C ↔ c ∈ A ∧ c ∈ B)
    (h : Refilterable lines) (size : ∀ l ∈ lines, l.length < 2 ^ 63) :
    (forceLines A lines).bind (forceLines B) = forceLines C lines := by
  rw [forceLines_eq A h, forceLines_eq C h, Except.bind,
    forceLines_eq B (refilterable_outputLines A h size), outputLines_twice A B C _ both h size]

/-- Two filters compose to the filter for the common codecs; a filter is
idempotent and two filters commute. -/
theorem sdpForceCodecs_compose (A B C lines : List Str) (both : ∀ c, c ∈ C ↔ c ∈ A ∧ c ∈ B)
    (h : Refilterable lines) (size : ∀ l ∈ lines, l.length < 2 ^ 63) :
    (∃ out, forceLines C lines = .ok out) ∧
      (forceLines A lines).bind (forceLines B) = forceLines C lines ∧
      (forceLines A lines).bind (forceLines A) = forceLines A lines ∧
      (forceLines A lines).bind (forceLines B) = (forceLines B lines).bind (forceLines A) := by
  have same : ∀ c, c ∈ A ↔ c ∈ A ∧ c ∈ A := fun c => (and_self_iff).symm
  have swapped : ∀ c, c ∈ C ↔ c ∈ B ∧ c ∈ A := fun c => (both c).trans and_comm
  refine ⟨⟨_, forceLines_eq C h⟩, forceLines_twice A B C lines both h size,
    forceLines_twice A A A lines same h size, ?_⟩
  rw [forceLines_twice A B C lines both h size, forceLines_twice B A C lines swapped h size]

def refilteredOffer : List Str :=
  ["m=video 9 UDP 96 97".toList, "a=mid:0".toList, "a=rtpmap:96 H264/90000".toList,
    "a=rtpmap:97 VP8/90000".toList, "a=rtcp-fb:97 nack".toList, "a=fmtp:96 level=1".toList,
    "a=ssrc:1".toList]

theorem refilteredOffer_compose :
    (forceLines ["H264".toList, "VP8".toList] refilteredOffer).bind
        (forceLines ["H264".toList]) =
      .ok ["m=video 9 UDP 96".toList, "a=mid:0".toList, "a=rtpmap:96 H264/90000".toList,
        "a=fmtp:96 level=1".toList, "a=ssrc:1".toList] :=
  (sdpForceCodecs_compose ["H264".toList, "VP8".toList] ["H264".toList] ["H264".toList]
    refilteredOffer (by simp) ⟨by decide, by decide, by decide⟩
    (by decide +kernel)).2.1.trans (by decide +kernel)

end Wadi
