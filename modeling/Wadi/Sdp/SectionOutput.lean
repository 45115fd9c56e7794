import Wadi.Library.SectionFilterBody
import Wadi.Sdp.LineKinds

/-!
The lines the filter writes for an offer with one video section: a media line, a body
without further media or `a=ssrc` lines, and the `a=ssrc` line that ends it. The media
line gets the ids of the allowed rtpmap lines, which are then its payload ids as any
reader of the line finds them.
-/

namespace Wadi
open SizeString LineText SectionFilter

/-- The kept rtpmap, rtcp-fb and fmtp lines of a section, in order. -/
def keptLines (allowed : List Str) (body : List Str) : List Str :=
  ((withEarlier body).filter (fun p => keepsLine allowed p.1 p.2)).map Prod.snd

def otherLines (body : List Str) : List Str :=
  body.filter (fun l => !isRtpmap l && !isFeedback l)

theorem mem_keptLines {allowed body : List Str} {l : Str} :
    l ∈ keptLines allowed body ↔
      ∃ earlier, (earlier, l) ∈ withEarlier body ∧ keepsLine allowed earlier l = true := by
  simp [keptLines]

theorem filing_eq_keptLines (allowed body : List Str) :
    filing (sdpRules allowed) [] body = keptLines allowed body := by
  rw [filing_eq, keptLines]
  congr 1
  apply List.filter_congr
  intro p _
  exact files_eq_keepsLine allowed p.1 p.2

theorem inner_of_body (allowed : List Str) {l : Str} (video : contains l mVideo = false)
    (ssrc : contains l aSsrc = false) :
    (sdpRules allowed).inner l = true ∧
      ((sdpRules allowed).role l == .plain) = (!isRtpmap l && !isFeedback l) := by
  simp only [Rules.inner, sdpRules, lineRole, isRtpmap, isFeedback, video, ssrc]
  cases contains l aRtpmap <;> cases contains l aRtcpFb <;> cases contains l aFmtp <;> simp

/-- One closed video section. -/
structure VideoSection (lines pre : List Str) (m : Str) (body : List Str) (s : Str)
    (post : List Str) : Prop where
  lines_eq : lines = pre ++ [m] ++ body ++ [s] ++ post
  before : ∀ l ∈ pre, passThrough l = true
  media : contains m mVideo = true
  blanks : 3 ≤ m.count ' '
  body : ∀ l ∈ body, contains l mVideo = false ∧ contains l aSsrc = false ∧ l ≠ aRtpmap
  closed : contains s aSsrc = true ∧ passThrough s = true
  behind : ∀ l ∈ post, passThrough l = true

def filteredSection (allowed pre : List Str) (m : Str) (body : List Str) (s : Str)
    (post : List Str) : List Str :=
  pre ++ [beforeThirdSpace m ++ appendIds (allowedIdsOf allowed body)] ++
    otherLines body ++ keptLines allowed body ++ [s] ++ post

namespace VideoSection

variable {lines pre body post : List Str} {m s : Str}

theorem noStop (h : VideoSection lines pre m body s post) : ∀ l ∈ lines, l ≠ aRtpmap := by
  rintro l hl rfl
  have videoStop : contains aRtpmap mVideo = false := by decide
  simp only [h.lines_eq, List.mem_append, List.mem_singleton] at hl
  obtain (((hl | rfl) | hl) | rfl) | hl := hl
  · exact ne_aRtpmap_of_passThrough (h.before _ hl) rfl
  · simp [h.media] at videoStop
  · exact (h.body _ hl).2.2 rfl
  · exact ne_aRtpmap_of_passThrough (h.closed.2) rfl
  · exact ne_aRtpmap_of_passThrough (h.behind _ hl) rfl

theorem cut (h : VideoSection lines pre m body s post) (short : m.length < 2 ^ 63) :
    mlineCut m = beforeThirdSpace m :=
  mlineCut_of_two m (Nat.le_of_succ_le h.blanks)
    (Nat.lt_of_le_of_lt (beforeThirdSpace_length_le m) short)

theorem outputLines_eq (h : VideoSection lines pre m body s post) (short : m.length < 2 ^ 63)
    (allowed : List Str) :
    outputLines allowed lines = filteredSection allowed pre m body s post := by
  have single := output_single (sdpRules allowed) pre body post m s
    (fun l hl => sdpRules_passes allowed ▸ h.before l hl) (lineRole_header.mpr h.media)
    (fun l hl => (inner_of_body allowed (h.body l hl).1 (h.body l hl).2.1).1)
    (lineRole_closer.mpr (by simp [isSsrc, h.closed]))
    (fun l hl => sdpRules_passes allowed ▸ h.behind l hl)
  have others : body.filter (fun l => (sdpRules allowed).role l == .plain) =
      otherLines body :=
    List.filter_congr
      (fun l hl => (inner_of_body allowed (h.body l hl).1 (h.body l hl).2.1).2)
  rw [outputLines, h.lines_eq, single, others, sdpRules_admitted, filing_eq_keptLines,
    filteredSection]
  simp [itemText, mlineText, h.cut short, allowedIdsOf, Function.comp_def]

theorem kept_video (h : VideoSection lines pre m body s post) {allowed : List Str} {l : Str}
    (kept : l ∈ keptLines allowed body) : contains l mVideo = false := by
  obtain ⟨earlier, place, -⟩ := mem_keptLines.mp kept
  exact (h.body l (mem_of_withEarlier place)).1

theorem written_video (h : VideoSection lines pre m body s post) (allowed : List Str) {l : Str}
    (member : l ∈ filteredSection allowed pre m body s post) :
    l = beforeThirdSpace m ++ appendIds (allowedIdsOf allowed body) ∨
      contains l mVideo = false := by
  simp only [filteredSection, List.mem_append, List.mem_singleton] at member
  obtain ((((hl | rfl) | hl) | hl) | rfl) | hl := member
  · exact Or.inr (not_video_of_passThrough (h.before l hl))
  · exact Or.inl rfl
  · exact Or.inr (h.body l (List.mem_filter.mp hl).1).1
  · exact Or.inr (h.kept_video hl)
  · exact Or.inr (not_video_of_passThrough h.closed.2)
  · exact Or.inr (not_video_of_passThrough (h.behind l hl))

theorem written_begins (h : VideoSection lines pre m body s post) (begins : mVideo <+: m)
    (short : m.length < 2 ^ 63) (allowed : List Str) :
    mVideo <+: beforeThirdSpace m ++ appendIds (allowedIdsOf allowed body) := by
  rw [← h.cut short]
  exact (mVideo_prefix_mlineText m (body.filter (allowedRtpmap allowed))).mpr begins

end VideoSection

/-- The payload ids of a media line: its blank-separated fields from the fourth on. -/
def payloadIds (l : Str) : List Str := (l.splitOn ' ').drop 3

theorem splitOn_append_appendIds (x : Str) (ids : List Str) :
    (x ++ appendIds ids).splitOn ' ' = x.splitOn ' ' ++ ids.flatMap (·.splitOn ' ') := by
  induction ids generalizing x with
  | nil => simp [appendIds]
  | cons id ids ih =>
      have shape : x ++ appendIds (id :: ids) = x ++ ' ' :: (id ++ appendIds ids) := rfl
      rw [shape, List.splitOn_append_cons_self, ih, List.flatMap_cons]

theorem splitOn_beforeThirdSpace {m : Str} (h : 2 ≤ m.count ' ') :
    ((beforeThirdSpace m).splitOn ' ').length = 3 := by
  obtain ⟨-, count⟩ | ⟨x, y, -, -, -, count⟩ | ⟨x, y, r, rfl, hx, hy, -⟩ :=
    separator_cases ' ' m
  · omega
  · omega
  · have cut : beforeThirdSpace (x ++ ' ' :: (y ++ ' ' :: r)) =
        x ++ ' ' :: (y ++ ' ' :: beforeSep ' ' 0 r) := by
      simp [beforeThirdSpace, beforeSep_append, hx, hy]
    rw [cut, List.splitOn_append_cons_self_of_not_mem hx,
      List.splitOn_append_cons_self_of_not_mem hy,
      List.splitOn_eq_singleton (not_mem_beforeSep ' ' r)]
    rfl

/-- The payload ids of a written media line are the fields of the ids it was given. -/
theorem payloadIds_written {m : Str} (h : 2 ≤ m.count ' ') (ids : List Str) :
    payloadIds (beforeThirdSpace m ++ appendIds ids) = ids.flatMap (·.splitOn ' ') := by
  rw [payloadIds, splitOn_append_appendIds, ← splitOn_beforeThirdSpace h, List.drop_left]

end Wadi
