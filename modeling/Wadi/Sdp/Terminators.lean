import Wadi.Sdp.LineKinds

/-!
Line terminators. `getline` leaves the carriage return on a line of an SDP text
and the filter appends CR LF to it, so a line that is passed on ends in CR CR
LF. The terminators are right only where the filter writes nothing at all.
-/

namespace Wadi
open SizeString LineText SectionFilter

/-- Every line ends with CR LF and holds no other CR or LF. -/
def CrlfTerminated (text : Str) : Prop :=
  ∃ ls, text = crlfText ls ∧ ∀ l ∈ ls, '\r' ∉ l ∧ '\n' ∉ l

/-- The result is terminated like the offer, and is the offer when there was
nothing to filter. -/
def TerminatorsPreserved (sdp out : Str) : Prop :=
  CrlfTerminated out ∧ ((∀ l ∈ getlines sdp, passThrough l = true) → out = sdp)

/-- Every pass-through line stands behind a media line and none is an `a=ssrc` line. -/
def NothingWritten (lines : List Str) : Prop :=
  ∀ pre l post, lines = pre ++ l :: post → passThrough l = true →
    (∃ k ∈ pre, contains k mVideo = true) ∧ contains l aSsrc = false

theorem silent_iff (allowed lines : List Str) :
    Silent (sdpRules allowed) lines ↔ NothingWritten lines := by
  have closer {l : Str} (pass : passThrough l = true) :
      (sdpRules allowed).role l ≠ .closer ↔ contains l aSsrc = false := by
    rw [← Bool.not_eq_true, not_iff_not]
    refine lineRole_closer.trans ?_
    simp [isSsrc, pass]
  have header (pre : List Str) :
      (∃ k ∈ pre, (sdpRules allowed).role k = .header) ↔
        ∃ k ∈ pre, contains k mVideo = true :=
    exists_congr fun k => and_congr_right fun _ => lineRole_header
  simp only [Silent, sdpRules_passes, NothingWritten]
  constructor
  · intro h pre l post split pass
    have := h pre l post split pass
    exact ⟨(header pre).mp this.1, (closer pass).mp this.2⟩
  · intro h pre l post split pass
    have := h pre l post split pass
    exact ⟨(header pre).mpr this.1, (closer pass).mpr this.2⟩

theorem outputLines_eq_nil_iff (allowed lines : List Str) :
    outputLines allowed lines = [] ↔ NothingWritten lines := by
  rw [outputLines, List.map_eq_nil_iff, ← silent_iff allowed]
  exact ⟨silent_of_output_nil _ _, output_nil_of_silent _ _⟩

theorem crlfText_injective {ls ks : List Str} (hls : ∀ l ∈ ls, '\n' ∉ l)
    (hks : ∀ k ∈ ks, '\n' ∉ k) (h : crlfText ls = crlfText ks) : ls = ks := by
  rw [← crlfLines_crlfText ls hls, ← crlfLines_crlfText ks hks, h]

theorem outputLines_of_crlfTerminated {sdp : Str} {allowed : List Str}
    (input : CrlfTerminated sdp)
    (result : CrlfTerminated (crlfText (outputLines allowed (getlines sdp)))) :
    outputLines allowed (getlines sdp) = [] := by
  obtain ⟨ls, rfl, hls⟩ := input
  obtain ⟨os, same, hos⟩ := result
  have noLf : ∀ l ∈ outputLines allowed (getlines (crlfText ls)), '\n' ∉ l :=
    not_mem_outputLines (by decide) (fun l hl => (mem_getlines hl).1)
  have lines := crlfText_injective noLf (fun o ho => (hos o ho).2) same
  obtain none | ⟨l, hl⟩ := exists_line_of_output (sdpRules allowed) (getlines (crlfText ls))
  · rw [outputLines, none, List.map_nil]
  · have written : l ∈ os := lines ▸ List.mem_map_of_mem (f := itemText) hl
    have origin : l ∈ getlines (crlfText ls) := mem_of_mem_output hl
    rw [getlines_crlfText ls (fun k hk => (hls k hk).2)] at origin
    obtain ⟨k, -, rfl⟩ := List.mem_map.mp origin
    exact absurd (by simp) (hos _ written).1

/-- On CR LF text the terminators survive exactly when nothing is written. -/
theorem terminators_preserved_iff (sdp out : Str) (allowed : List Str)
    (input : CrlfTerminated sdp) (returns : sdpForceCodecs sdp allowed = .ok out) :
    TerminatorsPreserved sdp out ↔ NothingWritten (getlines sdp) := by
  obtain ⟨-, rfl⟩ := eq_of_sdpForceCodecs returns
  rw [← outputLines_eq_nil_iff allowed]
  constructor
  · intro preserved
    exact outputLines_of_crlfTerminated input preserved.1
  · intro none
    rw [none]
    refine ⟨⟨[], rfl, by simp⟩, fun pass => ?_⟩
    obtain ⟨ls, rfl, hls⟩ := input
    cases ls with
    | nil => rfl
    | cons l ls =>
        have first := (outputLines_eq_nil_iff allowed _).mp none [] (l ++ ['\r'])
          (ls.map (· ++ ['\r'])) (getlines_crlfText (l :: ls) fun k hk => (hls k hk).2)
        have seen := first (pass _ (by
          rw [getlines_crlfText _ fun k hk => (hls k hk).2]
          exact List.mem_cons_self))
        simp at seen

def unansweredOffer : Str := crlfText ["m=video 9 UDP 96".toList, "a=mid:0".toList]

theorem unansweredOffer_terminators :
    ∃ out, sdpForceCodecs unansweredOffer [] = .ok out ∧
      TerminatorsPreserved unansweredOffer out := by
  have input : CrlfTerminated unansweredOffer := ⟨_, rfl, by decide⟩
  have returns : sdpForceCodecs unansweredOffer [] = .ok [] := by decide
  refine ⟨[], returns, (terminators_preserved_iff _ _ [] input returns).mpr ?_⟩
  have all : ∀ p ∈ positions [] (getlines unansweredOffer), passThrough p.2.1 = true →
      (∃ k ∈ p.1, contains k mVideo = true) ∧ contains p.2.1 aSsrc = false := by
    decide
  intro pre l post split
  exact all _ (mem_positions_nil.mpr split)

/-- A single pass-through line comes back with two carriage returns. -/
theorem plainOffer_terminators :
    CrlfTerminated "v=0\r\n".toList ∧
      sdpForceCodecs "v=0\r\n".toList [] = .ok "v=0\r\r\n".toList ∧
      ¬ TerminatorsPreserved "v=0\r\n".toList "v=0\r\r\n".toList := by
  have input : CrlfTerminated "v=0\r\n".toList :=
    ⟨["v=0".toList], by decide, by decide⟩
  refine ⟨input, by decide, fun preserved => ?_⟩
  have same := preserved.2 (by decide)
  exact absurd same (by decide)

end Wadi
