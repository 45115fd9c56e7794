import Wadi.Sdp.LineKinds

/-!
Which video media lines reach the output. A media line is written at the next
`a=ssrc` line and is lost when another media line, or the end of the offer,
comes first. A written line keeps its first three fields when it has at least
two blanks; a shorter one is cut differently, and then keeps them only if the
ids appended to it happen to be the fields that were cut off.
-/

namespace Wadi
open SizeString LineText SectionFilter

def isMediaLine (l : Str) : Bool := mVideo.isPrefixOf l

/-- The first three blank-separated fields of a line. -/
def mediaFields (l : Str) : List Str := (l.splitOn ' ').take 3

def MediaLinesKept (lines out : List Str) : Prop :=
  (out.filter isMediaLine).map mediaFields = (lines.filter isMediaLine).map mediaFields

/-- Rewriting the line with these ids leaves its first three fields. -/
def FieldsKept (m : Str) (ids : List Str) : Prop :=
  2 ≤ m.count ' ' ∨ (m.splitOn ' ').tail = ids

/-- The media line `m` is answered by an `a=ssrc` line of its own section and
keeps its fields there. -/
def MediaLineAnswered (allowed pre : List Str) (m : Str) (post : List Str) : Prop :=
  ∃ mid s rest, post = mid ++ s :: rest ∧ isSsrc s = true ∧
    (∀ l ∈ mid, contains l mVideo = false ∧ isSsrc l = false) ∧
    FieldsKept m (allowedIdsOf allowed (pre ++ m :: mid))

theorem splitOn_appendIds (x : Str) (hx : ' ' ∉ x) (id : Str) (ids : List Str) :
    (x ++ appendIds (id :: ids)).splitOn ' ' = x :: (id ++ appendIds ids).splitOn ' ' := by
  rw [← List.splitOn_append_cons_self_of_not_mem hx]
  rfl

/-- Ids written behind a field without blanks are the next field exactly when
there is one id and it is that field. -/
theorem splitOn_appendIds_eq_pair (x y : Str) (hx : ' ' ∉ x) (hy : ' ' ∉ y) (ids : List Str) :
    ((x ++ appendIds ids).splitOn ' ').take 3 = [x, y] ↔ ids = [y] := by
  constructor
  · intro h
    cases ids with
    | nil =>
        rw [appendIds, List.flatMap_nil, List.append_nil, List.splitOn_eq_singleton hx] at h
        cases h
    | cons id ids =>
        rw [splitOn_appendIds x hx, List.take_succ_cons, List.cons.injEq] at h
        have rest := h.2
        have whole : (id ++ appendIds ids).splitOn ' ' = [y] := by
          generalize (id ++ appendIds ids).splitOn ' ' = fields at rest
          cases fields with
          | nil => cases rest
          | cons f fields =>
              cases fields with
              | nil => exact rest
              | cons g fields => simp at rest
        have text := congrArg (List.intercalate [' ']) whole
        rw [List.intercalate_splitOn, List.intercalate_singleton] at text
        cases ids with
        | nil => simpa [appendIds] using text
        | cons id' ids => exact absurd (by simp [← text, appendIds]) hy
  · rintro rfl
    rw [splitOn_appendIds x hx, appendIds, List.flatMap_nil, List.append_nil,
      List.splitOn_eq_singleton hy]
    rfl

theorem mediaFields_mlineText (m : Str) (size : m.length < 2 ^ 63) (es : List Str) :
    mediaFields (mlineText m es) = mediaFields m ↔ FieldsKept m (es.map codecIdOf) := by
  generalize ids_eq : es.map codecIdOf = ids
  rw [mediaFields, mediaFields, FieldsKept, mlineText, ids_eq]
  obtain ⟨none, count⟩ | ⟨x, y, rfl, hx, hy, count⟩ | ⟨x, y, r, rfl, hx, hy, count⟩ :=
    separator_cases ' ' m
  · rw [mlineCut_of_none m none size, List.splitOn_eq_singleton none]
    cases ids with
    | nil => simp [appendIds, List.splitOn_eq_singleton none]
    | cons id ids =>
        rw [splitOn_appendIds m none]
        have ne := List.splitOn_ne_nil ' ' (id ++ appendIds ids)
        simp [count, List.take_eq_nil_iff, ne]
  · rw [mlineCut_of_one x y hx hy size, List.splitOn_append_cons_self_of_not_mem hx,
      List.splitOn_eq_singleton hy]
    have pair := splitOn_appendIds_eq_pair x y hx hy ids
    simpa [count, eq_comm] using pair
  · have short := Nat.lt_of_le_of_lt (beforeThirdSpace_length_le _) size
    rw [mlineCut_of_two _ count short]
    have cut : beforeThirdSpace (x ++ ' ' :: (y ++ ' ' :: r)) =
        x ++ ' ' :: (y ++ ' ' :: beforeSep ' ' 0 r) := by
      simp [beforeThirdSpace, beforeSep_append, hx, hy]
    rw [cut]
    simp only [List.append_assoc, List.cons_append,
      List.splitOn_append_cons_self_of_not_mem hx,
      List.splitOn_append_cons_self_of_not_mem hy, List.take_succ_cons, take_one_splitOn,
      beforeSep_again ' ' 0 r _ (Nat.zero_le _) (appendIds_shape ids), count, true_or]

theorem isMediaLine_of_not_video {l : Str} (h : contains l mVideo = false) :
    isMediaLine l = false := by
  rw [← Bool.not_eq_true]
  intro media
  have video := contains_of_isPrefix (List.isPrefixOf_iff_prefix.mp media)
  rw [h] at video
  cases video

/-- No written line other than a rewritten media line begins with `m=video`. -/
theorem filter_isMediaLine_outputLines (allowed lines : List Str) :
    (outputLines allowed lines).filter isMediaLine =
      ((positions [] lines).filter (fun p => isMediaLine p.2.1)).filterMap
        (fun p => (answered (sdpRules allowed) p).map itemText) := by
  have headers : (outputLines allowed lines).filter isMediaLine =
      (((output (sdpRules allowed) lines).filter Item.isHeader).map itemText).filter
        isMediaLine := by
    rw [outputLines, List.filter_map, List.filter_map, List.filter_filter]
    congr 1
    apply List.filter_congr
    intro i hi
    cases i with
    | header m es => simp [Item.isHeader]
    | line l =>
        have notMedia := isMediaLine_of_not_video (not_video_of_line_mem hi)
        simp [itemText, notMedia]
  rw [headers, output_headers, List.map_filterMap, List.filter_filterMap,
    List.filterMap_filter]
  apply List.filterMap_congr
  intro p _
  have same (es : List Str) : isMediaLine (mlineText p.2.1 es) = isMediaLine p.2.1 := by
    rw [Bool.eq_iff_iff, isMediaLine, isMediaLine, List.isPrefixOf_iff_prefix,
      List.isPrefixOf_iff_prefix]
    exact mVideo_prefix_mlineText _ es
  cases ha : answered (sdpRules allowed) p with
  | none => simp
  | some i =>
      simp only [answered] at ha
      split at ha
      next =>
          obtain ⟨c, -, rfl⟩ := Option.map_eq_some_iff.mp ha
          simp [itemText, same, Option.filter]
      next => cases ha

theorem answered_fields_iff {allowed pre post : List Str} {m : Str} (media : mVideo <+: m)
    (size : m.length < 2 ^ 63) :
    ((answered (sdpRules allowed) (pre, m, post)).map itemText).map mediaFields =
        some (mediaFields m) ↔ MediaLineAnswered allowed pre m post := by
  have role : (sdpRules allowed).role m = .header :=
    lineRole_header.mpr (contains_of_isPrefix media)
  have ids (mid : List Str) : ((pre ++ m :: mid).filter (sdpRules allowed).admitted).map
      codecIdOf = allowedIdsOf allowed (pre ++ m :: mid) := by
    rw [sdpRules_admitted]
    rfl
  simp only [answered, role, if_true, Option.map_map, Option.map_eq_some_iff,
    Function.comp_apply, itemText, mediaFields_mlineText m size, ids, closing_sdpRules]
  constructor
  · rintro ⟨mid, ⟨s, rest, split, hs, inner⟩, kept⟩
    exact ⟨mid, s, rest, split, hs, inner, kept⟩
  · rintro ⟨mid, s, rest, split, hs, inner, kept⟩
    exact ⟨mid, ⟨s, rest, split, hs, inner⟩, kept⟩

theorem mediaLinesKept_outputLines_iff (allowed lines : List Str)
    (size : ∀ l ∈ lines, l.length < 2 ^ 63) :
    MediaLinesKept lines (outputLines allowed lines) ↔
      ∀ pre m post, lines = pre ++ m :: post → mVideo <+: m →
        MediaLineAnswered allowed pre m post := by
  have input : lines.filter isMediaLine =
      ((positions [] lines).filter (fun p => isMediaLine p.2.1)).map (fun p => p.2.1) := by
    conv_lhs => rw [← positions_map [] lines]
    rw [List.filter_map]
    rfl
  rw [MediaLinesKept, filter_isMediaLine_outputLines, input, List.map_filterMap,
    List.map_map, filterMap_eq_map_iff]
  constructor
  · intro h pre m post split media
    have mem : (pre, m, post) ∈
        (positions [] lines).filter (fun p => isMediaLine p.2.1) :=
      List.mem_filter.mpr ⟨mem_positions_nil.mpr split, List.isPrefixOf_iff_prefix.mpr media⟩
    exact (answered_fields_iff media (size m (by simp [split]))).mp (h _ mem)
  · rintro h ⟨pre, m, post⟩ hp
    obtain ⟨mem, media⟩ := List.mem_filter.mp hp
    have split := mem_positions_nil.mp mem
    have begins := List.isPrefixOf_iff_prefix.mp media
    exact (answered_fields_iff begins (size m (by simp [split]))).mpr
      (h pre m post split begins)

/-- The video media lines survive, in number, order and leading fields, exactly
when the filter returns and each of them is answered. -/
theorem mediaLines_kept_iff (sdp : Str) (allowed : List Str) (size : sdp.length < 2 ^ 63) :
    (∃ out, sdpForceCodecs sdp allowed = .ok out ∧
      MediaLinesKept (getlines sdp) (crlfLines out)) ↔
    (∀ l ∈ getlines sdp, l ≠ aRtpmap) ∧
      ∀ pre m post, getlines sdp = pre ++ m :: post → mVideo <+: m →
        MediaLineAnswered allowed pre m post := by
  have short : ∀ l ∈ getlines sdp, l.length < 2 ^ 63 := fun l hl =>
    Nat.lt_of_le_of_lt (mem_getlines hl).2 size
  rw [← mediaLinesKept_outputLines_iff allowed _ short]
  exact filtered_iff sdp allowed (MediaLinesKept (getlines sdp))

def twoCameraOffer : Str := lfText
  ["m=video 9 UDP 96".toList, "a=ssrc:1".toList, "m=video 8 UDP".toList, "a=ssrc:2".toList]

theorem twoCameraOffer_mediaLines :
    ∃ out, sdpForceCodecs twoCameraOffer [] = .ok out ∧
      MediaLinesKept (getlines twoCameraOffer) (crlfLines out) := by
  apply (mediaLines_kept_iff twoCameraOffer [] (by decide)).mpr
  refine ⟨by decide, ?_⟩
  have all : ∀ p ∈ positions [] (getlines twoCameraOffer), mVideo <+: p.2.1 →
      p.2.2.head?.any isSsrc = true ∧ 2 ≤ p.2.1.count ' ' := by
    decide
  intro pre m post split media
  obtain ⟨next, blanks⟩ := all _ (mem_positions_nil.mpr split) media
  obtain ⟨s, hs, ssrc⟩ := (Option.any_eq_true _ _).mp next
  obtain ⟨rest, rfl⟩ := List.head?_eq_some_iff.mp hs
  exact ⟨[], s, rest, rfl, ssrc, by simp, Or.inl blanks⟩

def receivingOffer : Str := lfText
  ["m=video 9 UDP 96".toList, "a=rtpmap:96 H264/90000".toList, "m=audio 9 UDP 0".toList]

theorem receivingOffer_mediaLines :
    sdpForceCodecs receivingOffer ["H264".toList] = .ok [] ∧
      ¬ MediaLinesKept (getlines receivingOffer) (crlfLines []) := by
  refine ⟨by decide +kernel, ?_⟩
  rw [MediaLinesKept]
  decide

end Wadi
