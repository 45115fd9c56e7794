import Wadi.Library.SectionFilterTags
import Wadi.Sdp.LineKinds

/-!
Media sections and the codecs of each. The ids of the allowed rtpmap lines are
never forgotten, so a later media line lists the ids of the sections before it
as well; and a kept line that finds no media line pending waits for the next
one and is written in its section, or is lost when there is none. The first happens
in ordinary offers, as soon as two video sections have an allowed codec.

Lines are followed through the filter by the number of their section. The
numbers do not change what is written.
-/

namespace Wadi
open SizeString LineText SectionFilter

def mediaStart : Str := "m=".toList

/-- A line that starts a media section: one the filter takes for a video media
line, or a pass-through line that begins with `m=`. -/
def isMedia (l : Str) : Bool :=
  contains l mVideo || (mediaStart.isPrefixOf l && passThrough l)

def tagSections (lines : List Str) : List (Nat × Str) := tagFrom isMedia 0 lines

def taggedRules (allowed : List Str) : Rules (Nat × Str) := (sdpRules allowed).comap Prod.snd

/-- What the filter writes, every line with the section it came from. -/
def taggedOutput (allowed lines : List Str) : List (Item (Nat × Str)) :=
  output (taggedRules allowed) (tagSections lines)

def taggedText (i : Item (Nat × Str)) : Str := itemText (i.map Prod.snd)

def sectionLines (lines : List Str) (k : Nat) : List Str :=
  ((tagSections lines).filter (fun x => x.1 == k)).map Prod.snd

/-- Each video section has an `a=ssrc` line behind its rtpmap, rtcp-fb and fmtp lines. -/
def SectionsAnswered (lines : List Str) : Prop :=
  ∀ pre m post, lines = pre ++ m :: post → contains m mVideo = true →
    ∃ u s v, post.takeWhile (fun l => !isMedia l) = u ++ s :: v ∧ isSsrc s = true ∧
      ∀ l ∈ v, isRtpmap l = false ∧ isFeedback l = false

/-- The kept codec lines with their sections, in order. -/
def keptSectionLines (allowed lines : List Str) : List (Nat × Str) :=
  ((withEarlier (tagSections lines)).filter
    (fun p => keepsLine allowed (p.1.map Prod.snd) p.2.2)).map Prod.snd

/-- Each written media line lists the ids of its own section in order and each
once, and the codec lines that are written are all the kept ones, each behind the
media line of its section. -/
structure Confined (allowed lines : List Str) (items : List (Item (Nat × Str))) : Prop where
  ids : ∀ m es, .header m es ∈ items →
    es.map (fun e => codecIdOf e.2) = allowedIdsOf allowed (sectionLines lines m.1) ∧
      (es.map (fun e => codecIdOf e.2)).Nodup
  kept : Placed (taggedRules allowed) (fun x => isMedia x.2) Prod.fst none items
  written : items.filterMap (taggedRules allowed).codecLine = keptSectionLines allowed lines

/-- What the input must look like: the ids allowed up to the first `a=ssrc` line
of a video section are those of that section and distinct, and a kept codec line
stands between a video media line and its first `a=ssrc` line. -/
structure Confinable (allowed lines : List Str) : Prop where
  ids : ∀ pre m mid s post, lines = pre ++ m :: (mid ++ s :: post) →
    contains m mVideo = true → isSsrc s = true →
    (∀ l ∈ mid, contains l mVideo = false ∧ isSsrc l = false) →
    allowedIdsOf allowed (pre ++ m :: mid) =
      allowedIdsOf allowed ((mid ++ s :: post).takeWhile (fun l => !isMedia l)) ∧
      (allowedIdsOf allowed (pre ++ m :: mid)).Nodup
  kept : ∀ pre l post, lines = pre ++ l :: post → keepsLine allowed pre l = true →
    ∃ a m c, pre = a ++ m :: c ∧ contains m mVideo = true ∧
      ∀ k ∈ c, contains k mVideo = false ∧ isSsrc k = false

theorem outputLines_eq_tagged (allowed lines : List Str) :
    outputLines allowed lines = (taggedOutput allowed lines).map taggedText := by
  have natural := output_comap (sdpRules allowed) Prod.snd (tagSections lines)
  rw [tagSections, tagFrom_map_snd] at natural
  rw [outputLines, ← natural, List.map_map]
  rfl

theorem codec_sdpRules (allowed : List Str) (l : Str) :
    (sdpRules allowed).codec l = (isRtpmap l || isFeedback l) :=
  congrArg₂ (· || ·) (lineRole_beq_entry l) (lineRole_beq_detail l)

theorem sectioned_tagSections (allowed lines : List Str) :
    Sectioned (taggedRules allowed) (fun x => isMedia x.2) Prod.fst (tagSections lines) := by
  apply sectioned_tagFrom
  · intro l _ role
    rw [isMedia, lineRole_header.mp role, Bool.true_or]
  · intro l _ coded
    rw [codec_sdpRules] at coded
    simp only [isRtpmap, isFeedback, isMedia, passThrough] at coded ⊢
    cases hm : contains l mVideo <;> cases hr : contains l aRtpmap <;>
      cases hb : contains l aRtcpFb <;> cases hf : contains l aFmtp <;> simp_all

theorem closedSections_of_answered (allowed : List Str) {lines : List Str}
    (h : SectionsAnswered lines) : ClosedSections (sdpRules allowed) isMedia lines := by
  intro pre m post split role
  obtain ⟨u, s, v, body, hs, -⟩ := h pre m post split (lineRole_header.mp role)
  have inBody : ∃ x ∈ post.takeWhile (fun l => !isMedia l), isSsrc x = true :=
    ⟨s, by simp [body], hs⟩
  obtain ⟨x, found⟩ := Option.isSome_iff_exists.mp (List.find?_isSome.mpr inBody)
  obtain ⟨hx, c, d, first, before⟩ := List.find?_eq_some_iff_append.mp found
  have notMedia : ∀ l ∈ c ++ x :: d, isMedia l = false := by
    intro l hl
    have inside := List.mem_takeWhile_imp (first ▸ hl)
    simpa using inside
  refine ⟨c, x, d ++ post.dropWhile (fun l => !isMedia l), ?_, lineRole_closer.mpr hx,
    notMedia x (by simp), ?_⟩
  · rw [← List.cons_append, ← List.append_assoc, ← first, List.takeWhile_append_dropWhile]
  · intro l hl
    refine ⟨notMedia l (by simp [hl]), fun role => ?_⟩
    have none := before l hl
    rw [lineRole_closer.mp role] at none
    cases none

theorem files_taggedRules (allowed : List Str) (earlier : List (Nat × Str)) (x : Nat × Str) :
    (taggedRules allowed).files (earlier.filter (taggedRules allowed).admitted) x =
      keepsLine allowed (earlier.map Prod.snd) x.2 := by
  rw [taggedRules, files_comap, files_eq_keepsLine]

theorem filing_eq_keptSectionLines (allowed lines : List Str) :
    filing (taggedRules allowed) [] (tagSections lines) = keptSectionLines allowed lines := by
  simp only [filing_eq, List.nil_append, files_taggedRules, keptSectionLines]

theorem filedInside_tagSections (allowed lines : List Str) :
    FiledInside (taggedRules allowed) (tagSections lines) ↔
      ∀ pre l post, lines = pre ++ l :: post → keepsLine allowed pre l = true →
        ∃ a m c, pre = a ++ m :: c ∧ contains m mVideo = true ∧
          ∀ k ∈ c, contains k mVideo = false ∧ isSsrc k = false := by
  have pending (pre : List Str) : (run (sdpRules allowed) {} pre).pending ≠ none ↔
      ∃ a m c, pre = a ++ m :: c ∧ contains m mVideo = true ∧
        ∀ k ∈ c, contains k mVideo = false ∧ isSsrc k = false := by
    rw [Option.ne_none_iff_exists']
    simp only [pending_sdpRules]
    exact exists_comm
  rw [taggedRules, filedInside_comap, tagSections, tagFrom_map_snd]
  simp only [FiledInside, files_eq_keepsLine, pending]

theorem taggedRules_ids (allowed : List Str) (xs : List (Nat × Str)) :
    (xs.filter (taggedRules allowed).admitted).map (fun e => codecIdOf e.2) =
      allowedIdsOf allowed (xs.map Prod.snd) := by
  have admitted : (taggedRules allowed).admitted = allowedRtpmap allowed ∘ Prod.snd :=
    congrArg (· ∘ Prod.snd) (sdpRules_admitted allowed)
  rw [admitted, allowedIdsOf, List.filter_map, List.map_map]
  rfl

theorem allowedIdsOf_media {m : Str} (h : contains m mVideo = true) (allowed ls : List Str) :
    allowedIdsOf allowed (m :: ls) = allowedIdsOf allowed ls := by
  simp [allowedIdsOf, allowedRtpmap, isRtpmap, h]

theorem header_mem_taggedOutput {allowed lines : List Str} {m : Nat × Str}
    {es : List (Nat × Str)} :
    .header m es ∈ taggedOutput allowed lines ↔ ∃ p mid s d,
      tagSections lines = p ++ m :: (mid ++ s :: d) ∧ contains m.2 mVideo = true ∧
      isSsrc s.2 = true ∧ (∀ l ∈ mid, contains l.2 mVideo = false ∧ isSsrc l.2 = false) ∧
      es = (p ++ m :: mid).filter (taggedRules allowed).admitted := by
  have role (x : Nat × Str) : (taggedRules allowed).role x = lineRole x.2 := rfl
  rw [taggedOutput, header_mem_output]
  simp only [role, lineRole_header, lineRole_closer, lineRole_inner]

theorem section_ids (allowed : List Str) {lines : List Str} {p mid d : List (Nat × Str)}
    {m s : Nat × Str} (split : tagSections lines = p ++ m :: (mid ++ s :: d))
    (video : contains m.2 mVideo = true) :
    allowedIdsOf allowed (sectionLines lines m.1) = allowedIdsOf allowed
      ((mid.map Prod.snd ++ s.2 :: d.map Prod.snd).takeWhile (fun l => !isMedia l)) := by
  have media : isMedia m.2 = true := by rw [isMedia, video, Bool.true_or]
  rw [sectionLines, tagSections, filter_tag split media, allowedIdsOf_media video]
  simp

theorem ownIds_iff (allowed lines : List Str) :
    (∀ m es, .header m es ∈ taggedOutput allowed lines →
      es.map (fun e => codecIdOf e.2) = allowedIdsOf allowed (sectionLines lines m.1) ∧
        (es.map (fun e => codecIdOf e.2)).Nodup) ↔
    ∀ pre m mid s post, lines = pre ++ m :: (mid ++ s :: post) →
      contains m mVideo = true → isSsrc s = true →
      (∀ l ∈ mid, contains l mVideo = false ∧ isSsrc l = false) →
      allowedIdsOf allowed (pre ++ m :: mid) =
        allowedIdsOf allowed ((mid ++ s :: post).takeWhile (fun l => !isMedia l)) ∧
        (allowedIdsOf allowed (pre ++ m :: mid)).Nodup := by
  have lineOf : (tagSections lines).map Prod.snd = lines := tagFrom_map_snd isMedia 0 lines
  constructor
  · intro h pre m mid s post split video hs inner
    rw [← lineOf] at split
    obtain ⟨p, x, q, tagged, rfl, rfl, tail⟩ := map_split Prod.snd split
    obtain ⟨c, y, d, rfl, rfl, rfl, rfl⟩ := map_split Prod.snd tail
    have own := h x _ (header_mem_taggedOutput.mpr ⟨p, c, y, d, tagged, video, hs,
      fun l hl => inner l.2 (List.mem_map_of_mem hl), rfl⟩)
    rw [taggedRules_ids, section_ids allowed tagged video] at own
    simpa using own
  · intro h m es written
    obtain ⟨p, mid, s, d, split, video, hs, inner, rfl⟩ := header_mem_taggedOutput.mp written
    rw [taggedRules_ids, section_ids allowed split video]
    have place : lines = p.map Prod.snd ++ m.2 :: (mid.map Prod.snd ++ s.2 :: d.map Prod.snd) := by
      rw [← lineOf, split]
      simp
    have own := h _ _ _ _ _ place video hs (by
      intro l hl
      obtain ⟨x, hx, rfl⟩ := List.mem_map.mp hl
      exact inner x hx)
    simpa using own

theorem confined_iff_confinable (allowed : List Str) {lines : List Str}
    (answered : SectionsAnswered lines) :
    Confined allowed lines (taggedOutput allowed lines) ↔ Confinable allowed lines := by
  have closed : ClosedSections (taggedRules allowed) (fun x => isMedia x.2)
      (tagSections lines) := by
    apply closedSections_comap
    rw [tagSections, tagFrom_map_snd]
    exact closedSections_of_answered allowed answered
  have placed := (placed_iff (sectioned_tagSections allowed lines) closed).trans
    (filedInside_tagSections allowed lines)
  rw [filing_eq_keptSectionLines] at placed
  have ids := ownIds_iff allowed lines
  constructor
  · intro h
    exact ⟨ids.mp h.ids, placed.mp ⟨h.kept, h.written⟩⟩
  · intro h
    exact ⟨ids.mpr h.ids, (placed.mpr h.kept).1, (placed.mpr h.kept).2⟩

/-- The result is the numbered output with the numbers taken off, and its codecs
are confined to their sections exactly when the offer is confinable. -/
theorem section_confinement_iff (sdp out : Str) (allowed : List Str)
    (returns : sdpForceCodecs sdp allowed = .ok out)
    (answered : SectionsAnswered (getlines sdp)) :
    crlfLines out = (taggedOutput allowed (getlines sdp)).map taggedText ∧
      (Confined allowed (getlines sdp) (taggedOutput allowed (getlines sdp)) ↔
        Confinable allowed (getlines sdp)) := by
  obtain ⟨-, rfl⟩ := eq_of_sdpForceCodecs returns
  rw [crlfLines_outputLines]
  exact ⟨outputLines_eq_tagged allowed _, confined_iff_confinable allowed answered⟩

def lastCameraOffer : Str := lfText
  ["m=video 9 UDP 97".toList, "a=rtpmap:97 VP8/90000".toList, "a=ssrc:1".toList,
    "m=video 8 UDP 96".toList, "a=rtpmap:96 H264/90000".toList, "a=fmtp:96 level=1".toList,
    "a=ssrc:2".toList]

/-- Two cameras with an allowed codec each. -/
def bothCamerasOffer : Str := lfText
  ["m=video 9 UDP 97".toList, "a=rtpmap:97 H264/90000".toList, "a=ssrc:1".toList,
    "m=video 8 UDP 96".toList, "a=rtpmap:96 H264/90000".toList, "a=ssrc:2".toList]

/-- Sections that end in an `a=ssrc` line are answered. -/
theorem sectionsAnswered_of_last {lines : List Str}
    (h : ∀ p ∈ positions [] lines, contains p.2.1 mVideo = true →
      ((p.2.2.takeWhile (fun l => !isMedia l)).getLast?.any isSsrc) = true) :
    SectionsAnswered lines := by
  intro pre m post split video
  obtain ⟨s, last, hs⟩ := (Option.any_eq_true _ _).mp (h _ (mem_positions_nil.mpr split) video)
  obtain ⟨u, body⟩ := List.getLast?_eq_some_iff.mp last
  exact ⟨u, s, [], body, hs, by simp⟩

theorem lastCameraOffer_confinement :
    SectionsAnswered (getlines lastCameraOffer) ∧
      Confinable ["H264".toList] (getlines lastCameraOffer) := by
  have answered : SectionsAnswered (getlines lastCameraOffer) :=
    sectionsAnswered_of_last (by decide +kernel)
  have returns : sdpForceCodecs lastCameraOffer ["H264".toList] = .ok (crlfText
      ["m=video 9 UDP".toList, "a=ssrc:1".toList, "m=video 8 UDP 96".toList,
        "a=rtpmap:96 H264/90000".toList, "a=fmtp:96 level=1".toList,
        "a=ssrc:2".toList]) := by decide +kernel
  have items : taggedOutput ["H264".toList] (getlines lastCameraOffer) =
      [.header (1, "m=video 9 UDP 97".toList) [], .line (1, "a=ssrc:1".toList),
        .header (2, "m=video 8 UDP 96".toList) [(2, "a=rtpmap:96 H264/90000".toList)],
        .line (2, "a=rtpmap:96 H264/90000".toList), .line (2, "a=fmtp:96 level=1".toList),
        .line (2, "a=ssrc:2".toList)] := by
    decide +kernel
  refine ⟨answered, (section_confinement_iff _ _ _ returns answered).2.mp ⟨?_, ?_, ?_⟩⟩
  · rw [items]
    intro m es written
    simp only [List.mem_cons, reduceCtorEq, Item.header.injEq, false_or, or_false,
      List.not_mem_nil] at written
    obtain ⟨rfl, rfl⟩ | ⟨rfl, rfl⟩ := written <;> decide +kernel
  · rw [items]
    exact ⟨by decide +kernel, fun _ => rfl, fun _ => rfl, by decide +kernel, trivial⟩
  · rw [items]
    decide +kernel

theorem bothCamerasOffer_confinement :
    SectionsAnswered (getlines bothCamerasOffer) ∧
      sdpForceCodecs bothCamerasOffer ["H264".toList] = .ok (crlfText
        ["m=video 9 UDP 97".toList, "a=rtpmap:97 H264/90000".toList, "a=ssrc:1".toList,
          "m=video 8 UDP 97 96".toList, "a=rtpmap:96 H264/90000".toList,
          "a=ssrc:2".toList]) ∧
      ¬ Confined ["H264".toList] (getlines bothCamerasOffer)
        (taggedOutput ["H264".toList] (getlines bothCamerasOffer)) := by
  refine ⟨sectionsAnswered_of_last (by decide +kernel), by decide +kernel, fun confined => ?_⟩
  have own := confined.ids (2, "m=video 8 UDP 96".toList)
    [(1, "a=rtpmap:97 H264/90000".toList), (2, "a=rtpmap:96 H264/90000".toList)]
    (by decide +kernel)
  exact absurd own.1 (by decide +kernel)

end Wadi
