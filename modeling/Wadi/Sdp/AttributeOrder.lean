import Wadi.Library.SectionFilterReordering
import Wadi.Sdp.MediaLineLoss
import Wadi.Sdp.SectionOutput

/-!
The order of the attribute lines of a section. rtpmap lines and lines without a marker
are treated the same wherever they stand, so the ids on the media line do not depend on
the order. An rtcp-fb or fmtp line is judged by the rtpmap lines in front of it. Two
orders keep the same lines exactly when each such line stands equally often in front of
the first allowed rtpmap line with its id.
-/

namespace Wadi
open SizeString LineText SectionFilter

/-- The same lines apart from the media lines, and the same ids on these. -/
def SameUpToOrder (xs ys : List Str) : Prop :=
  (xs.filter (fun l => !isMediaLine l)).Perm (ys.filter (fun l => !isMediaLine l)) ∧
    ∀ M ∈ xs, isMediaLine M = true → ∀ N ∈ ys, isMediaLine N = true →
      ∀ id, id ∈ payloadIds M ↔ id ∈ payloadIds N

/-- How often a line stands in front of the first allowed rtpmap line with its id. -/
def beforeRtpmap (allowed attrs : List Str) (l : Str) : Nat :=
  (attrs.takeWhile (fun r =>
    !(allowedRtpmap allowed r && codecIdOf r == feedbackIdOf l))).count l

theorem tooEarly_sdpRules (allowed attrs : List Str) (l : Str) :
    tooEarly (sdpRules allowed) attrs l = beforeRtpmap allowed attrs l := by
  rw [tooEarly, sdpRules_admitted]
  rfl

theorem beforeRtpmap_of_not_mem {allowed attrs : List Str} {l : Str} (h : l ∉ attrs) :
    beforeRtpmap allowed attrs l = 0 :=
  List.count_eq_zero.mpr (mt (fun member => (List.takeWhile_prefix _).subset member) h)

theorem keptLines_perm_iff (allowed : List Str) {attrs attrs' : List Str}
    (perm : attrs.Perm attrs') :
    (keptLines allowed attrs).Perm (keptLines allowed attrs') ↔
      ∀ l ∈ attrs, isFeedback l = true →
        beforeRtpmap allowed attrs l = beforeRtpmap allowed attrs' l := by
  rw [← filing_eq_keptLines, ← filing_eq_keptLines, filing_perm_iff _ perm]
  simp only [tooEarly_sdpRules]
  constructor
  · intro same l _ feedback
    exact same l (lineRole_detail.mpr feedback)
  · intro same l role
    by_cases member : l ∈ attrs
    · exact same l member (lineRole_detail.mp role)
    · rw [beforeRtpmap_of_not_mem member,
        beforeRtpmap_of_not_mem (mt perm.mem_iff.mpr member)]

namespace VideoSection

variable {lines pre attrs post : List Str} {m s : Str}

theorem filter_written (h : VideoSection lines pre m attrs s post) (begins : mVideo <+: m)
    (short : m.length < 2 ^ 63) (allowed : List Str) :
    (filteredSection allowed pre m attrs s post).filter (fun l => !isMediaLine l) =
      pre ++ (otherLines attrs ++ keptLines allowed attrs) ++ ([s] ++ post) := by
  have media : isMediaLine (beforeThirdSpace m ++ appendIds (allowedIdsOf allowed attrs)) =
      true :=
    List.isPrefixOf_iff_prefix.mpr (h.written_begins begins short allowed)
  have all (ls : List Str) (none : ∀ l ∈ ls, contains l mVideo = false) :
      ls.filter (fun l => !isMediaLine l) = ls := by
    rw [List.filter_eq_self]
    intro l hl
    rw [isMediaLine_of_not_video (none l hl)]
    rfl
  have front := all pre (fun l hl => not_video_of_passThrough (h.before l hl))
  have others := all (otherLines attrs) (fun l hl => (h.body l (List.mem_filter.mp hl).1).1)
  have kept := all (keptLines allowed attrs) (fun l hl => h.kept_video hl)
  have closing := all [s] (by simpa using not_video_of_passThrough h.closed.2)
  have back := all post (fun l hl => not_video_of_passThrough (h.behind l hl))
  simp only [filteredSection, List.filter_append, front, others, kept, closing, back]
  simp [media]

theorem reorder {attrs' : List Str} (h : VideoSection lines pre m attrs s post)
    (perm : attrs.Perm attrs') :
    VideoSection (pre ++ [m] ++ attrs' ++ [s] ++ post) pre m attrs' s post :=
  { h with
    lines_eq := rfl
    body := fun l hl => h.body l (perm.mem_iff.mpr hl) }

theorem sameUpToOrder_iff {attrs' : List Str} (h : VideoSection lines pre m attrs s post)
    (perm : attrs.Perm attrs') (begins : mVideo <+: m) (short : m.length < 2 ^ 63)
    (allowed : List Str) :
    SameUpToOrder (filteredSection allowed pre m attrs s post)
        (filteredSection allowed pre m attrs' s post) ↔
      ∀ l ∈ attrs, isFeedback l = true →
        beforeRtpmap allowed attrs l = beforeRtpmap allowed attrs' l := by
  have h' := h.reorder perm
  have two : 2 ≤ m.count ' ' := Nat.le_of_succ_le h.blanks
  have ids : (allowedIdsOf allowed attrs).Perm (allowedIdsOf allowed attrs') :=
    (perm.filter _).map _
  have others : (otherLines attrs).Perm (otherLines attrs') := perm.filter _
  have lines_iff : ((filteredSection allowed pre m attrs s post).filter
        (fun l => !isMediaLine l)).Perm
      ((filteredSection allowed pre m attrs' s post).filter (fun l => !isMediaLine l)) ↔
      (keptLines allowed attrs).Perm (keptLines allowed attrs') := by
    rw [h.filter_written begins short, h'.filter_written begins short,
      List.perm_append_right_iff, List.perm_append_left_iff]
    constructor
    · intro same
      exact (List.perm_append_left_iff _).mp (same.trans (others.symm.append_right _))
    · intro same
      exact others.append same
  have sameIds : ∀ M ∈ filteredSection allowed pre m attrs s post, isMediaLine M = true →
      ∀ N ∈ filteredSection allowed pre m attrs' s post, isMediaLine N = true →
        ∀ id, id ∈ payloadIds M ↔ id ∈ payloadIds N := by
    intro M hM mediaM N hN mediaN id
    obtain rfl | video := h.written_video allowed hM
    · obtain rfl | video := h'.written_video allowed hN
      · rw [payloadIds_written two, payloadIds_written two]
        exact (ids.flatMap_right _).mem_iff
      · rw [isMediaLine_of_not_video video] at mediaN
        cases mediaN
    · rw [isMediaLine_of_not_video video] at mediaM
      cases mediaM
  rw [SameUpToOrder, lines_iff, keptLines_perm_iff allowed perm]
  exact and_iff_left sameIds

end VideoSection

/-- Two offers that differ in the order of the attribute lines are filtered alike exactly
when no rtcp-fb or fmtp line changes sides with its rtpmap line. -/
theorem attributeOrder_irrelevant_iff (sdp sdp' : Str) (allowed : List Str)
    {pre attrs attrs' post : List Str} {m s : Str} (size : sdp.length < 2 ^ 63)
    (shape : VideoSection (getlines sdp) pre m attrs s post)
    (begins : mVideo <+: m) (perm : attrs.Perm attrs')
    (reordered : getlines sdp' = pre ++ [m] ++ attrs' ++ [s] ++ post) :
    (∃ out out', sdpForceCodecs sdp allowed = .ok out ∧
      sdpForceCodecs sdp' allowed = .ok out' ∧
      SameUpToOrder (crlfLines out) (crlfLines out')) ↔
    ∀ l ∈ attrs, isFeedback l = true →
      beforeRtpmap allowed attrs l = beforeRtpmap allowed attrs' l := by
  have short : m.length < 2 ^ 63 := by
    have le := (mem_getlines (s := sdp) (l := m) (by simp [shape.lines_eq])).2
    omega
  have shape' : VideoSection (getlines sdp') pre m attrs' s post :=
    reordered ▸ shape.reorder perm
  rw [filteredPair_iff sdp sdp' allowed SameUpToOrder, shape.outputLines_eq short,
    shape'.outputLines_eq short, shape.sameUpToOrder_iff perm begins short allowed]
  exact and_iff_right ⟨shape.noStop, shape'.noStop⟩

def orderedOffer (attrs : List Str) : Str := lfText
  (["v=0".toList] ++ ["m=video 9 UDP 96".toList] ++ attrs ++ ["a=ssrc:1".toList] ++ [])

def rtpmapFirst : List Str :=
  ["a=rtpmap:96 H264/90000".toList, "a=fmtp:96 p=1".toList, "a=sendonly".toList]

def sendonlyFirst : List Str :=
  ["a=sendonly".toList, "a=rtpmap:96 H264/90000".toList, "a=fmtp:96 p=1".toList]

def fmtpFirst : List Str :=
  ["a=fmtp:96 p=1".toList, "a=rtpmap:96 H264/90000".toList, "a=sendonly".toList]

theorem rtpmapFirst_shape :
    VideoSection (getlines (orderedOffer rtpmapFirst)) ["v=0".toList]
      "m=video 9 UDP 96".toList rtpmapFirst "a=ssrc:1".toList [] :=
  ⟨getlines_lfText _ (by decide), by decide, by decide, by decide, by decide, by decide,
    by decide⟩

theorem sendonlyFirst_sameUpToOrder :
    ∃ out out', sdpForceCodecs (orderedOffer rtpmapFirst) ["H264".toList] = .ok out ∧
      sdpForceCodecs (orderedOffer sendonlyFirst) ["H264".toList] = .ok out' ∧
      SameUpToOrder (crlfLines out) (crlfLines out') := by
  have perm : rtpmapFirst.Perm sendonlyFirst := by decide
  refine (attributeOrder_irrelevant_iff _ _ _ (by decide) rtpmapFirst_shape
    (by decide) perm (by decide)).mpr ?_
  decide +kernel

/-- The fmtp line is kept behind its rtpmap line and lost in front of it. -/
theorem fmtpFirst_not_sameUpToOrder :
    rtpmapFirst.Perm fmtpFirst ∧
    ∃ out out', sdpForceCodecs (orderedOffer rtpmapFirst) ["H264".toList] = .ok out ∧
      sdpForceCodecs (orderedOffer fmtpFirst) ["H264".toList] = .ok out' ∧
      ¬ SameUpToOrder (crlfLines out) (crlfLines out') := by
  refine ⟨by decide, crlfText ["v=0".toList, "m=video 9 UDP 96".toList,
    "a=sendonly".toList, "a=rtpmap:96 H264/90000".toList, "a=fmtp:96 p=1".toList,
    "a=ssrc:1".toList], crlfText ["v=0".toList, "m=video 9 UDP 96".toList,
    "a=sendonly".toList, "a=rtpmap:96 H264/90000".toList, "a=ssrc:1".toList],
    by decide +kernel, by decide +kernel, fun same => ?_⟩
  exact absurd same.1.length_eq (by decide)

end Wadi
