import Wadi.Sdp.MediaLineLoss
import Wadi.Sdp.SectionOutput

/-!
Retransmission formats. A line `a=fmtp:x apt=y` says that `x` retransmits the payload
`y`. The filter keeps it for the codec name of `x`, which is `rtx`, and never looks at
`y`. The output names a payload it no longer offers exactly when a kept line has a `y`
that belongs to no allowed rtpmap line.
-/

namespace Wadi
open SizeString LineText SectionFilter

/-- The `y` of a line `a=fmtp:x apt=y`: the digits that follow. -/
def aptOf (l : Str) : Option Str :=
  if (aFmtp ++ [':']).isPrefixOf l then
    match l.dropWhile (· != ' ') with
    | [] => none
    | _ :: t =>
        let y := (t.drop 4).takeWhile Char.isDigit
        if "apt=".toList.isPrefixOf t && !y.isEmpty then some y else none
  else none

/-- Every retransmission format is for a payload id of the media line. -/
def NoneDangling (lines : List Str) : Prop :=
  ∀ M ∈ lines, isMediaLine M = true → ∀ l ∈ lines, ∀ y, aptOf l = some y → y ∈ payloadIds M

theorem aFmtp_prefix_of_aptOf {l y : Str} (h : aptOf l = some y) : aFmtp ++ [':'] <+: l := by
  unfold aptOf at h
  split at h
  next begins => exact List.isPrefixOf_iff_prefix.mp begins
  next => cases h

theorem contains_of_aptOf {l y : Str} (h : aptOf l = some y) : contains l aFmtp = true :=
  contains_of_isPrefix ((List.prefix_append aFmtp [':']).trans (aFmtp_prefix_of_aptOf h))

theorem aptOf_of_passThrough {l : Str} (h : passThrough l = true) : aptOf l = none := by
  cases found : aptOf l with
  | none => rfl
  | some y => simp [passThrough, contains_of_aptOf found] at h

theorem aptOf_of_isMediaLine {l : Str} (h : isMediaLine l = true) : aptOf l = none := by
  cases found : aptOf l with
  | none => rfl
  | some y =>
      obtain ⟨t, rfl⟩ := List.isPrefixOf_iff_prefix.mp h
      obtain ⟨u, text⟩ := aFmtp_prefix_of_aptOf found
      have fmtp : aFmtp.head? = some 'a' := by decide
      have video : mVideo.head? = some 'm' := by decide
      have first := congrArg List.head? text
      rw [List.append_assoc, List.head?_append, List.head?_append, List.head?_append, fmtp,
        video] at first
      exact absurd (Option.some.inj first) (by decide)

theorem aptOf_of_otherLines {body : List Str} {l : Str} (video : contains l mVideo = false)
    (h : l ∈ otherLines body) : aptOf l = none := by
  cases found : aptOf l with
  | none => rfl
  | some y =>
      have kind := (List.mem_filter.mp h).2
      have fmtp := contains_of_aptOf found
      cases rtpmap : contains l aRtpmap <;>
        simp [isRtpmap, isFeedback, video, fmtp, rtpmap] at kind

namespace VideoSection

variable {lines pre body post : List Str} {m s : Str}

theorem aptOf_written (h : VideoSection lines pre m body s post) (allowed : List Str) {l : Str}
    (member : l ∈ filteredSection allowed pre m body s post) :
    l = beforeThirdSpace m ++ appendIds (allowedIdsOf allowed body) ∨
      aptOf l = none ∨ l ∈ keptLines allowed body := by
  simp only [filteredSection, List.mem_append, List.mem_singleton] at member
  obtain ((((hl | rfl) | hl) | hl) | rfl) | hl := member
  · exact Or.inr (Or.inl (aptOf_of_passThrough (h.before l hl)))
  · exact Or.inl rfl
  · have video := (h.body l (List.mem_filter.mp hl).1).1
    exact Or.inr (Or.inl (aptOf_of_otherLines video hl))
  · exact Or.inr (Or.inr hl)
  · exact Or.inr (Or.inl (aptOf_of_passThrough h.closed.2))
  · exact Or.inr (Or.inl (aptOf_of_passThrough (h.behind l hl)))

theorem noneDangling_iff (h : VideoSection lines pre m body s post) (begins : mVideo <+: m)
    (short : m.length < 2 ^ 63) (allowed : List Str) :
    NoneDangling (filteredSection allowed pre m body s post) ↔
      ∀ p ∈ withEarlier body, keepsLine allowed p.1 p.2 = true → ∀ y, aptOf p.2 = some y →
        y ∈ (allowedIdsOf allowed body).flatMap (·.splitOn ' ') := by
  have two : 2 ≤ m.count ' ' := Nat.le_of_succ_le h.blanks
  have ids := payloadIds_written two (allowedIdsOf allowed body)
  have media : isMediaLine (beforeThirdSpace m ++ appendIds (allowedIdsOf allowed body)) =
      true :=
    List.isPrefixOf_iff_prefix.mpr (h.written_begins begins short allowed)
  constructor
  · intro none p place kept y found
    rw [← ids]
    refine none _ (by simp [filteredSection]) media p.2 ?_ y found
    have member : p.2 ∈ keptLines allowed body := mem_keptLines.mpr ⟨p.1, place, kept⟩
    simp [filteredSection, member]
  · intro served M hM mediaM l hl y found
    obtain rfl | video := h.written_video allowed hM
    · rw [ids]
      obtain rfl | none | kept := h.aptOf_written allowed hl
      · rw [aptOf_of_isMediaLine media] at found
        cases found
      · rw [none] at found
        cases found
      · obtain ⟨earlier, place, keeps⟩ := mem_keptLines.mp kept
        exact served (earlier, l) place keeps y found
    · rw [isMediaLine_of_not_video video] at mediaM
      cases mediaM

end VideoSection

/-- The output names only payloads it offers exactly when each kept `apt` is the id of an
allowed rtpmap line. -/
theorem noneDangling_iff_apt_allowed (sdp : Str) (allowed : List Str)
    {pre body post : List Str} {m s : Str} (size : sdp.length < 2 ^ 63)
    (shape : VideoSection (getlines sdp) pre m body s post) (begins : mVideo <+: m) :
    (∃ out, sdpForceCodecs sdp allowed = .ok out ∧ NoneDangling (crlfLines out)) ↔
      ∀ p ∈ withEarlier body, keepsLine allowed p.1 p.2 = true → ∀ y, aptOf p.2 = some y →
        y ∈ (allowedIdsOf allowed body).flatMap (·.splitOn ' ') := by
  have short : m.length < 2 ^ 63 := by
    have le := (mem_getlines (s := sdp) (l := m) (by simp [shape.lines_eq])).2
    omega
  rw [filtered_iff sdp allowed NoneDangling, shape.outputLines_eq short,
    shape.noneDangling_iff begins short allowed]
  exact and_iff_right shape.noStop

def rtxBody : List Str :=
  ["a=rtpmap:96 H264/90000".toList, "a=rtpmap:97 rtx/90000".toList, "a=fmtp:97 apt=96".toList,
    "a=rtpmap:98 VP8/90000".toList]

def rtxOffer : Str := lfText
  (["v=0".toList] ++ ["m=video 9 UDP 96 97 98".toList] ++ rtxBody ++
    ["a=ssrc:1".toList] ++ [])

theorem rtxOffer_shape :
    VideoSection (getlines rtxOffer) ["v=0".toList]
      "m=video 9 UDP 96 97 98".toList rtxBody "a=ssrc:1".toList [] :=
  ⟨getlines_lfText _ (by decide), by decide, by decide, by decide, by decide, by decide,
    by decide⟩

theorem rtxOffer_noneDangling :
    ∃ out, sdpForceCodecs rtxOffer ["rtx".toList, "H264".toList] = .ok out ∧
      NoneDangling (crlfLines out) := by
  refine (noneDangling_iff_apt_allowed rtxOffer _ (by decide +kernel) rtxOffer_shape
    (by decide)).mpr ?_
  decide +kernel

/-- `rtx` is allowed and the codec it retransmits is not: every `apt` has its rtpmap line
in the offer, and the output retransmits a payload it does not offer. -/
theorem rtxOffer_dangling :
    (∀ l ∈ rtxBody, ∀ y, aptOf l = some y → ∃ r ∈ rtxBody, aRtpmap ++ ':' :: y <+: r) ∧
    ∃ out, sdpForceCodecs rtxOffer ["rtx".toList, "VP8".toList] = .ok out ∧
      ¬ NoneDangling (crlfLines out) := by
  refine ⟨by decide, crlfText ["v=0".toList, "m=video 9 UDP 97 98".toList,
    "a=rtpmap:97 rtx/90000".toList, "a=fmtp:97 apt=96".toList, "a=rtpmap:98 VP8/90000".toList,
    "a=ssrc:1".toList], by decide +kernel, fun none => ?_⟩
  have served := none "m=video 9 UDP 97 98".toList (by decide)
    (by decide) "a=fmtp:97 apt=96".toList (by decide) "96".toList
    (by decide)
  exact absurd served (by decide)

end Wadi
