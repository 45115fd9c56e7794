import Wadi.Library.Runs
import Wadi.Library.SectionFilterOrigin
import Wadi.Sdp.ForceCodecs

/-!
The codec filter as a section filter. Video media lines are headers, rtpmap
lines are entries, rtcp-fb and fmtp lines are their details and `a=ssrc` lines
close a section. The loop of the program keeps the rendered text of the
machine's buffers, so its result is the rendered output of the machine.

The only input the program does not return on is a line that is exactly
`a=rtpmap`: every other cut starts inside its line, whatever the line looks like.
-/

namespace Wadi
open SizeString LineText SectionFilter

/-- The cut's value; the default is never used on lines the filter gets past. -/
def codecIdOf (line : Str) : Str := (rtpmapCodecId line).toOption.getD []
def codecOf (line : Str) : Str := (rtpmapCodec line).toOption.getD []
def feedbackIdOf (line : Str) : Str := (feedbackCodecId line).toOption.getD []
def mlineCut (line : Str) : Str := (mlineNoCodecs line).toOption.getD []

def lineRole (line : Str) : Role :=
  if contains line mVideo then .header
  else if contains line aRtpmap then .entry
  else if contains line aRtcpFb || contains line aFmtp then .detail
  else if contains line aSsrc then .closer
  else .plain

def sdpRules (allowedCodecs : List Str) : Rules Str where
  role := lineRole
  admits line := decide (codecOf line ∈ allowedCodecs)
  covers entry line := codecIdOf entry == feedbackIdOf line

/-- A rewritten media line: the cut line followed by the ids of the entries. -/
def mlineText (m : Str) (entries : List Str) : Str :=
  mlineCut m ++ appendIds (entries.map codecIdOf)

def itemText : Item Str → Str
  | .line l => l
  | .header m entries => mlineText m entries

def outputLines (allowedCodecs : List Str) (lines : List Str) : List Str :=
  (output (sdpRules allowedCodecs) lines).map itemText

private theorem eq_ok_getD {e : Except OutOfRange Str} {v : Str} (h : e = .ok v) :
    e = .ok (e.toOption.getD []) := by
  subst h
  rfl

theorem rtpmapCodec_ok (line : Str) : rtpmapCodec line = .ok (codecOf line) :=
  eq_ok_getD (substr_of_le line _ _ (sizeAdd_position_le line ' '))

theorem feedbackCodecId_ok (line : Str) : feedbackCodecId line = .ok (feedbackIdOf line) :=
  eq_ok_getD (substr_of_le line _ _ (sizeAdd_position_le line ':'))

theorem mlineNoCodecs_ok (line : Str) : mlineNoCodecs line = .ok (mlineCut line) :=
  eq_ok_getD (substr_of_le line 0 _ (Nat.zero_le _))

/-- A line that contains `a=rtpmap` is that text itself or has a ninth byte. -/
theorem rtpmap_length {line : Str} (h : contains line aRtpmap = true)
    (hne : line ≠ aRtpmap) : 9 ≤ line.length := by
  have sub := (contains_iff line aRtpmap).mp h
  have len : aRtpmap.length = 8 := by decide
  have le := sub.length_le
  rcases Nat.lt_or_ge 8 line.length with longer | short
  · exact longer
  · exact absurd (sub.eq_of_length (by omega)).symm hne

theorem rtpmapCodecId_ok {line : Str} (h : contains line aRtpmap = true)
    (hne : line ≠ aRtpmap) : rtpmapCodecId line = .ok (codecIdOf line) :=
  eq_ok_getD (substr_of_le line _ _ (rtpmap_length h hne))

/-- The program's loop variables hold the rendered buffers. -/
structure Represents (st : ForceState) (b : Buffers Str) : Prop where
  osdpstream : st.osdpstream = crlfText (b.emitted.map itemText)
  rtmapstream : st.rtmapstream = crlfText b.filed
  midstream : st.midstream = crlfText b.held
  currentMline : st.currentMline = b.pending.getD []
  allowedIds : st.allowedIds = b.admitted.map codecIdOf
  pending : ∀ m, b.pending = some m → m ≠ []

theorem represents_start : Represents {} {} :=
  ⟨rfl, rfl, rfl, rfl, rfl, by simp⟩

theorem Represents.isEmpty {st : ForceState} {b : Buffers Str} (h : Represents st b) :
    st.currentMline.isEmpty = b.pending.isNone := by
  rw [h.currentMline]
  cases hp : b.pending with
  | none => rfl
  | some m => simp [h.pending m hp]

theorem Represents.put {st : ForceState} {b : Buffers Str} (h : Represents st b)
    (line : Str) : Represents (st.put line) (b.pass line) := by
  have empty := h.isEmpty
  cases hp : b.pending with
  | none =>
      rw [hp] at empty
      simp only [ForceState.put, empty, Buffers.pass, hp, Option.isNone_none, if_true]
      exact ⟨by simp [h.osdpstream, itemText], h.rtmapstream, h.midstream,
        by rw [h.currentMline, hp], h.allowedIds, by simp⟩
  | some m =>
      rw [hp] at empty
      simp only [ForceState.put, empty, Buffers.pass, hp, Option.isNone_some]
      exact ⟨h.osdpstream, h.rtmapstream, by simp [h.midstream],
        by simp [h.currentMline, hp], h.allowedIds, by simpa [hp] using h.pending m hp⟩

theorem Represents.flush {st : ForceState} {b : Buffers Str} (h : Represents st b)
    {m : Str} (hm : b.pending = some m) :
    ∃ st', st.flush = .ok st' ∧ Represents st' b.close := by
  have current : st.currentMline = m := by simp [h.currentMline, hm]
  refine ⟨_, by rw [ForceState.flush, current, mlineNoCodecs_ok]; rfl, ?_⟩
  simp only [Buffers.close, hm]
  refine ⟨?_, rfl, rfl, rfl, h.allowedIds, by simp⟩
  simp [Buffers.block, itemText, mlineText, h.osdpstream, h.allowedIds, h.midstream,
    h.rtmapstream, Function.comp_def]

theorem covers_any (allowed entries : List Str) (line : Str) :
    entries.any ((sdpRules allowed).covers · line) = true ↔
      feedbackIdOf line ∈ entries.map codecIdOf := by
  simp [sdpRules]

theorem forceLine_rtpmap (allowed : List Str) (st : ForceState) {line : Str}
    (hm : ¬ contains line mVideo = true) (hr : contains line aRtpmap = true)
    (hne : line ≠ aRtpmap) :
    forceLine allowed st line =
      if codecOf line ∈ allowed then
        .ok { st with
          allowedIds := st.allowedIds ++ [codecIdOf line]
          rtmapstream := st.rtmapstream ++ line ++ crlf }
      else .ok st := by
  rw [forceLine, if_neg hm, if_pos hr, rtpmapCodecId_ok hr hne, rtpmapCodec_ok]
  rfl

theorem forceLine_feedback (allowed : List Str) (st : ForceState) {line : Str}
    (hm : ¬ contains line mVideo = true) (hr : ¬ contains line aRtpmap = true)
    (hf : (contains line aRtcpFb || contains line aFmtp) = true) :
    forceLine allowed st line =
      if feedbackIdOf line ∈ st.allowedIds then
        .ok { st with rtmapstream := st.rtmapstream ++ line ++ crlf }
      else .ok st := by
  rw [forceLine, if_neg hm, if_neg hr, if_pos hf, feedbackCodecId_ok]
  rfl

theorem forceLine_other (allowed : List Str) (st : ForceState) {line : Str}
    (hm : ¬ contains line mVideo = true) (hr : ¬ contains line aRtpmap = true)
    (hf : ¬ (contains line aRtcpFb || contains line aFmtp) = true) :
    forceLine allowed st line =
      if contains line aSsrc && !st.currentMline.isEmpty then
        st.flush.map (·.put line)
      else .ok (st.put line) := by
  rw [forceLine, if_neg hm, if_neg hr, if_neg hf]
  cases st.flush <;> rfl

/-- One turn of the loop is one step of the machine. -/
theorem forceLine_step (allowed : List Str) {st : ForceState} {b : Buffers Str}
    (h : Represents st b) (line : Str) (hne : line ≠ aRtpmap) :
    ∃ st', forceLine allowed st line = .ok st' ∧
      Represents st' (step (sdpRules allowed) b line) := by
  by_cases hm : contains line mVideo = true
  · have role : (sdpRules allowed).role line = .header := if_pos hm
    have nonempty : line ≠ [] := by
      rintro rfl
      exact absurd hm (by decide)
    refine ⟨_, if_pos hm, ?_⟩
    simp only [step, role]
    exact ⟨h.osdpstream, h.rtmapstream, h.midstream, rfl, h.allowedIds,
      fun m e => Option.some.inj e ▸ nonempty⟩
  by_cases hr : contains line aRtpmap = true
  · have role : (sdpRules allowed).role line = .entry := by
      simp [sdpRules, lineRole, hm, hr]
    rw [forceLine_rtpmap allowed st hm hr hne]
    by_cases ha : codecOf line ∈ allowed
    · have admits : (sdpRules allowed).admits line = true := decide_eq_true ha
      refine ⟨_, if_pos ha, ?_⟩
      simp only [step, role, admits, if_true]
      exact ⟨h.osdpstream, by simp [h.rtmapstream], h.midstream, h.currentMline,
        by simp [h.allowedIds], h.pending⟩
    · have admits : (sdpRules allowed).admits line = false := decide_eq_false ha
      refine ⟨st, if_neg ha, ?_⟩
      simpa only [step, role, admits, Bool.false_eq_true, if_false] using h
  by_cases hf : (contains line aRtcpFb || contains line aFmtp) = true
  · have role : (sdpRules allowed).role line = .detail := by
      simp [sdpRules, lineRole, hm, hr, hf]
    rw [forceLine_feedback allowed st hm hr hf]
    have cov := covers_any allowed b.admitted line
    rw [← h.allowedIds] at cov
    by_cases hid : feedbackIdOf line ∈ st.allowedIds
    · refine ⟨_, if_pos hid, ?_⟩
      simp only [step, role, cov.mpr hid, if_true]
      exact ⟨h.osdpstream, by simp [h.rtmapstream], h.midstream, h.currentMline,
        h.allowedIds, h.pending⟩
    · refine ⟨st, if_neg hid, ?_⟩
      simpa only [step, role, mt cov.mp hid, Bool.false_eq_true, if_false] using h
  rw [forceLine_other allowed st hm hr hf, h.isEmpty]
  by_cases hs : contains line aSsrc = true
  · have role : (sdpRules allowed).role line = .closer := by
      simp [sdpRules, lineRole, hm, hr, hf, hs]
    cases hp : b.pending with
    | none =>
        refine ⟨st.put line, by simp, ?_⟩
        simpa only [step, role, Buffers.close, hp] using h.put line
    | some m =>
        obtain ⟨st', eq, rep⟩ := h.flush hp
        refine ⟨st'.put line, by simp [hs, eq, Except.map], ?_⟩
        simpa only [step, role] using rep.put line
  · have role : (sdpRules allowed).role line = .plain := by
      simp [sdpRules, lineRole, hm, hr, hf, hs]
    refine ⟨st.put line, by simp [hs], ?_⟩
    simpa only [step, role] using h.put line

theorem foldlM_forceLine (allowed : List Str) (lines : List Str)
    (hne : ∀ l ∈ lines, l ≠ aRtpmap) {st : ForceState} {b : Buffers Str}
    (h : Represents st b) :
    ∃ st', lines.foldlM (forceLine allowed) st = .ok st' ∧
      Represents st' (run (sdpRules allowed) b lines) :=
  Runs.run_simulates (step (sdpRules allowed)) Represents lines
    (fun l hl _ _ rep => forceLine_step allowed rep l (hne l hl)) h

/-- The filter returns the machine's output, every line ended by CR LF. -/
theorem sdpForceCodecs_eq (sdp : Str) (allowed : List Str)
    (hne : ∀ l ∈ getlines sdp, l ≠ aRtpmap) :
    sdpForceCodecs sdp allowed = .ok (crlfText (outputLines allowed (getlines sdp))) := by
  obtain ⟨st, eq, rep⟩ := foldlM_forceLine allowed (getlines sdp) hne represents_start
  have out := rep.osdpstream
  rw [sdpForceCodecs, eq]
  exact congrArg Except.ok out

theorem forceLine_aRtpmap (allowed : List Str) (st : ForceState) :
    ∃ e, forceLine allowed st aRtpmap = .error e := by
  have cut : rtpmapCodecId aRtpmap = .error ⟨9, 8⟩ := by decide
  have video : contains aRtpmap mVideo = false := by decide
  have rtpmap : contains aRtpmap aRtpmap = true := by decide
  refine ⟨⟨9, 8⟩, ?_⟩
  simp [forceLine, video, rtpmap, cut, bind, Except.bind]

theorem sdpForceCodecs_throws (sdp : Str) (allowed : List Str)
    (h : aRtpmap ∈ getlines sdp) : ∃ e, sdpForceCodecs sdp allowed = .error e := by
  obtain ⟨pre, post, split, before⟩ := List.eq_append_cons_of_mem h
  have hne : ∀ l ∈ pre, l ≠ aRtpmap := fun l hl e => before (e ▸ hl)
  obtain ⟨st, eq, -⟩ := foldlM_forceLine allowed pre hne represents_start
  obtain ⟨e, throws⟩ := forceLine_aRtpmap allowed st
  refine ⟨e, ?_⟩
  rw [sdpForceCodecs, split, List.foldlM_append, eq]
  simp [throws, bind, Except.bind]

/-- A returned text is the machine's output and no line stopped the loop. -/
theorem eq_of_sdpForceCodecs {sdp out : Str} {allowed : List Str}
    (h : sdpForceCodecs sdp allowed = .ok out) :
    (∀ l ∈ getlines sdp, l ≠ aRtpmap) ∧
      out = crlfText (outputLines allowed (getlines sdp)) := by
  by_cases stop : aRtpmap ∈ getlines sdp
  · obtain ⟨e, throws⟩ := sdpForceCodecs_throws sdp allowed stop
    rw [throws] at h
    cases h
  · have hne : ∀ l ∈ getlines sdp, l ≠ aRtpmap := fun l hl e => stop (e ▸ hl)
    rw [sdpForceCodecs_eq sdp allowed hne] at h
    exact ⟨hne, (Except.ok.inj h).symm⟩

/-- The loop is stopped by a line that is the bare attribute name and by nothing else. -/
theorem sdpForceCodecs_fails_iff (sdp : Str) (allowed : List Str) :
    ((∃ e, sdpForceCodecs sdp allowed = .error e) ↔ aRtpmap ∈ getlines sdp) ∧
    ((∃ out, sdpForceCodecs sdp allowed = .ok out) ↔ aRtpmap ∉ getlines sdp) := by
  by_cases stop : aRtpmap ∈ getlines sdp
  · obtain ⟨e, throws⟩ := sdpForceCodecs_throws sdp allowed stop
    simp [throws, stop]
  · have hne : ∀ l ∈ getlines sdp, l ≠ aRtpmap := fun l hl e => stop (e ▸ hl)
    simp [sdpForceCodecs_eq sdp allowed hne, stop]

theorem codecIdOf_subset (line : Str) : ∀ c ∈ codecIdOf line, c ∈ line :=
  fun _ hc => mem_of_mem_substr hc

theorem mlineCut_subset (line : Str) : ∀ c ∈ mlineCut line, c ∈ line :=
  fun _ hc => mem_of_mem_substr hc

theorem mem_appendIds {c : Char} {ids : List Str} (h : c ∈ appendIds ids) :
    c = ' ' ∨ ∃ id ∈ ids, c ∈ id := by
  obtain ⟨id, hid, hc⟩ := List.mem_flatMap.mp h
  obtain rfl | hc := List.mem_cons.mp hc
  · exact Or.inl rfl
  · exact Or.inr ⟨id, hid, hc⟩

/-- A byte other than the blank that no input line holds is on no output line. -/
theorem not_mem_outputLines {allowed lines : List Str} {c : Char} (hc : c ≠ ' ')
    (h : ∀ l ∈ lines, c ∉ l) : ∀ l ∈ outputLines allowed lines, c ∉ l := by
  intro l hl mem
  obtain ⟨i, hi, rfl⟩ := List.mem_map.mp hl
  have origin := mem_of_mem_output hi
  cases i with
  | line k => exact h k origin mem
  | header m adm =>
      obtain hcut | hids := List.mem_append.mp mem
      · exact h m origin.1 (mlineCut_subset m c hcut)
      · obtain rfl | ⟨id, hid, hcid⟩ := mem_appendIds hids
        · exact hc rfl
        · obtain ⟨e, he, rfl⟩ := List.mem_map.mp hid
          exact h e (origin.2.2 e he) (codecIdOf_subset e c hcid)

/-- Reading the result back gives the written lines. -/
theorem crlfLines_outputLines (allowed : List Str) (sdp : Str) :
    crlfLines (crlfText (outputLines allowed (getlines sdp))) =
      outputLines allowed (getlines sdp) := by
  apply crlfLines_crlfText
  exact not_mem_outputLines (by decide) (fun l hl => (mem_getlines hl).1)

/-- What is asked of the filter's output can be asked of the machine's. -/
theorem filtered_iff (sdp : Str) (allowed : List Str) (P : List Str → Prop) :
    (∃ out, sdpForceCodecs sdp allowed = .ok out ∧ P (crlfLines out)) ↔
      (∀ l ∈ getlines sdp, l ≠ aRtpmap) ∧ P (outputLines allowed (getlines sdp)) := by
  constructor
  · rintro ⟨out, returns, holds⟩
    obtain ⟨noStop, rfl⟩ := eq_of_sdpForceCodecs returns
    rw [crlfLines_outputLines] at holds
    exact ⟨noStop, holds⟩
  · rintro ⟨noStop, holds⟩
    refine ⟨_, sdpForceCodecs_eq sdp allowed noStop, ?_⟩
    rwa [crlfLines_outputLines]

theorem filteredPair_iff (sdp sdp' : Str) (allowed : List Str)
    (P : List Str → List Str → Prop) :
    (∃ out out', sdpForceCodecs sdp allowed = .ok out ∧
      sdpForceCodecs sdp' allowed = .ok out' ∧ P (crlfLines out) (crlfLines out')) ↔
    ((∀ l ∈ getlines sdp, l ≠ aRtpmap) ∧ (∀ l ∈ getlines sdp', l ≠ aRtpmap)) ∧
      P (outputLines allowed (getlines sdp)) (outputLines allowed (getlines sdp')) := by
  rw [and_assoc, ← filtered_iff sdp' allowed, ← filtered_iff sdp allowed
    (fun ls => ∃ out', sdpForceCodecs sdp' allowed = .ok out' ∧ P ls (crlfLines out'))]
  simp only [exists_and_left]

end Wadi
