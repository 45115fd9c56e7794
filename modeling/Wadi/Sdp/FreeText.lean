import Wadi.Library.SectionFilterEarlyClose
import Wadi.Sdp.Terminators

/-!
The text of a line the filter has no business with. The markers are looked for anywhere
in a line, so a session name or a stream label that contains one is taken for a line of
that kind. Two texts are treated alike in every offer exactly when neither contains a
marker, or both contain `a=ssrc` and no other one. A line without a marker shows in the
output unless it is held back behind a media line that is never answered. One text of each
kind is still treated alike where no media line is pending, since `a=ssrc` is only acted on
behind one, and in a section that keeps no codec line.
-/

namespace Wadi
open SizeString LineText SectionFilter

/-- The beginnings of the lines the filter is meant to act on. -/
def structuralStarts : List Str :=
  ["m=".toList, "a=rtpmap:".toList, "a=rtcp-fb:".toList, "a=fmtp:".toList, "a=ssrc".toList]

def isStructural (l : Str) : Bool := structuralStarts.any (·.isPrefixOf l)

/-- None of the markers stands anywhere in the line. -/
def markerFree (l : Str) : Bool := passThrough l && !contains l aSsrc

/-- The lists have the same length and differ in one line, which is `x` in one and `y`
in the other. -/
def DifferOnlyIn (x y : Str) (xs ys : List Str) : Prop :=
  ∃ A B, xs = A ++ x :: B ∧ ys = A ++ y :: B

/-- Both offers are filtered, and the outputs differ only in the given line. -/
def Unsteered (allowed : List Str) (x y sdp sdp' : Str) : Prop :=
  ∃ out out', sdpForceCodecs sdp allowed = .ok out ∧ sdpForceCodecs sdp' allowed = .ok out' ∧
    DifferOnlyIn x y (crlfLines out) (crlfLines out')

/-- The last media line is still unanswered when the lines end. -/
def MediaPending (lines : List Str) : Prop :=
  ∃ pre m mid, lines = pre ++ m :: mid ∧ contains m mVideo = true ∧
    ∀ l ∈ mid, contains l mVideo = false ∧ isSsrc l = false

/-- The lines around a place let a line at that place through. -/
def LetThrough (pre post : List Str) : Prop :=
  (∀ l ∈ pre ++ post, l ≠ aRtpmap) ∧ (MediaPending pre → ∃ s ∈ post, isSsrc s = true)

/-- The lines end with an `a=ssrc` line that answers a media line, or there are none. -/
def JustAnswered (lines : List Str) : Prop :=
  lines = [] ∨ ∃ pre s, lines = pre ++ [s] ∧ isSsrc s = true ∧ MediaPending pre

/-- An `a=ssrc` line between these lines changes nothing: no media line is pending there, or
one whose answer follows in its section, with no codec line kept since the last answer. -/
def AnswerUnseen (allowed pre post : List Str) : Prop :=
  MediaPending pre → ∃ a c mid s rest, pre = a ++ c ∧ JustAnswered a ∧
    post = mid ++ s :: rest ∧ isSsrc s = true ∧
    (∀ l ∈ mid, contains l mVideo = false ∧ isSsrc l = false) ∧
    ∀ p l q, c ++ mid = p ++ l :: q → keepsLine allowed (a ++ p) l = false

theorem lineRole_plain {l : Str} : lineRole l = .plain ↔ markerFree l = true := by
  rw [(lineRole_iff l).2.2.2.2, markerFree, isSsrc]
  cases passThrough l <;> simp

theorem mediaPending_iff (allowed lines : List Str) :
    MediaPending lines ↔ (run (sdpRules allowed) {} lines).pending.isSome = true := by
  rw [Option.isSome_iff_exists]
  simp only [pending_sdpRules]
  exact exists_comm

theorem flushed_iff (allowed lines : List Str) :
    Flushed (sdpRules allowed) lines ↔ JustAnswered lines := by
  simp only [Flushed, JustAnswered, mediaPending_iff allowed, Option.isSome_iff_ne_none,
    sdpRules, lineRole_closer]

theorem keptNone_iff (allowed pre mid : List Str) :
    (run (sdpRules allowed) {} pre).filed = [] ∧
        filing (sdpRules allowed) (pre.filter (sdpRules allowed).admitted) mid = [] ↔
      ∃ a c, pre = a ++ c ∧ JustAnswered a ∧ ∀ p l q, c ++ mid = p ++ l :: q →
        keepsLine allowed (a ++ p) l = false := by
  simp only [nothing_filed_iff, flushed_iff, files_eq_keepsLine]

theorem unsteered_iff (allowed : List Str) (x y sdp sdp' : Str) :
    Unsteered allowed x y sdp sdp' ↔
      ((∀ l ∈ getlines sdp, l ≠ aRtpmap) ∧ (∀ l ∈ getlines sdp', l ≠ aRtpmap)) ∧
        DifferOnlyIn x y (outputLines allowed (getlines sdp))
          (outputLines allowed (getlines sdp')) :=
  filteredPair_iff sdp sdp' allowed (DifferOnlyIn x y)

theorem differOnlyIn_of_outputSwap {allowed ls ks : List Str} {x y : Str}
    (h : OutputSwap (sdpRules allowed) x y ls ks) :
    DifferOnlyIn x y (outputLines allowed ls) (outputLines allowed ks) := by
  obtain ⟨A, B, first, second⟩ := h
  refine ⟨A.map itemText, B.map itemText, ?_, ?_⟩
  · simp [outputLines, first, itemText]
  · simp [outputLines, second, itemText]

theorem differOnlyIn_cons {x y a b : Str} {xs ys : List Str} :
    DifferOnlyIn x y (a :: xs) (b :: ys) ↔
      (a = x ∧ b = y ∧ xs = ys) ∨ (a = b ∧ DifferOnlyIn x y xs ys) := by
  constructor
  · rintro ⟨_ | ⟨c, A⟩, B, first, second⟩
    · obtain ⟨rfl, rfl⟩ := List.cons.inj first
      obtain ⟨rfl, rfl⟩ := List.cons.inj second
      exact Or.inl ⟨rfl, rfl, rfl⟩
    · obtain ⟨rfl, rfl⟩ := List.cons.inj first
      obtain ⟨rfl, rfl⟩ := List.cons.inj second
      exact Or.inr ⟨rfl, A, B, rfl, rfl⟩
  · rintro (⟨rfl, rfl, rfl⟩ | ⟨rfl, A, B, rfl, rfl⟩)
    · exact ⟨[], xs, rfl, rfl⟩
    · exact ⟨a :: A, B, rfl, rfl⟩

theorem differOnlyIn_append {x y : Str} (differ : x ≠ y) (front : List Str)
    {xs ys : List Str} (h : DifferOnlyIn x y (front ++ xs) (front ++ ys)) :
    DifferOnlyIn x y xs ys := by
  induction front with
  | nil => exact h
  | cons a front ih =>
      obtain ⟨rfl, rfl, -⟩ | ⟨-, rest⟩ := differOnlyIn_cons.mp h
      · exact absurd rfl differ
      · exact ih rest

theorem DifferOnlyIn.length_eq {x y : Str} {xs ys : List Str} (h : DifferOnlyIn x y xs ys) :
    xs.length = ys.length := by
  obtain ⟨A, B, rfl, rfl⟩ := h
  simp

theorem nil_of_differOnlyIn {x y s : Str} {P F G xs ys : List Str} (differ : x ≠ y)
    (outX : ∀ l ∈ F, l ≠ x) (outY : ∀ l ∈ F, l ≠ y) (outS : ∀ l ∈ G, l ≠ s)
    (h : DifferOnlyIn x y (x :: (P ++ (F ++ (G ++ s :: xs)))) (F ++ y :: (P ++ s :: ys))) :
    F = [] ∧ G = [] := by
  cases F with
  | cons f F =>
      obtain ⟨-, eq, -⟩ | ⟨eq, -⟩ := differOnlyIn_cons.mp h
      · exact absurd eq (outY f (by simp))
      · exact absurd eq.symm (outX f (by simp))
  | nil =>
      refine ⟨rfl, ?_⟩
      obtain ⟨-, -, rest⟩ | ⟨eq, -⟩ := differOnlyIn_cons.mp h
      · cases G with
        | nil => rfl
        | cons g G =>
            exact absurd (List.cons.inj (List.append_cancel_left rest)).1 (outS g (by simp))
      · exact absurd eq differ

theorem contains_mlineText_append {m pat : Str} {es : List Str}
    (h : contains (mlineText m es) pat = true) (fs : List Str) :
    contains (mlineText m (es ++ fs)) pat = true := by
  rw [contains_iff] at h ⊢
  refine h.trans (List.IsPrefix.isInfix ⟨appendIds (fs.map codecIdOf), ?_⟩)
  simp [mlineText, appendIds]

theorem ne_of_codec {allowed : List Str} {l k : Str} (coded : (sdpRules allowed).codec l = true)
    (pass : passThrough k = true) : l ≠ k := by
  rintro rfl
  rw [← sdpRules_passes allowed] at pass
  simp [not_codec_of_passes pass] at coded

/-- Behind a pending media line, the outputs differ in the line alone only if nothing is
kept around it. -/
theorem keptNone_of_differOnlyIn {allowed pre mid rest : List Str} {x y m s : Str}
    (free : markerFree x = true) (ssrc : isSsrc y = true)
    (hm : (run (sdpRules allowed) {} pre).pending = some m) (hs : isSsrc s = true)
    (inner : ∀ l ∈ mid, (sdpRules allowed).inner l = true)
    (h : DifferOnlyIn x y (outputLines allowed (pre ++ x :: (mid ++ s :: rest)))
      (outputLines allowed (pre ++ y :: (mid ++ s :: rest)))) :
    (run (sdpRules allowed) {} pre).filed = [] ∧
      filing (sdpRules allowed) (pre.filter (sdpRules allowed).admitted) mid = [] := by
  have passX : passThrough x = true := (Bool.and_eq_true_iff.mp free).1
  have passY : passThrough y = true := (Bool.and_eq_true_iff.mp ssrc).1
  have noSsrc : contains x aSsrc = false := by simpa [markerFree, passX] using free
  have hasSsrc : contains y aSsrc = true := (Bool.and_eq_true_iff.mp ssrc).2
  have differ : x ≠ y := by
    rintro rfl
    simp [noSsrc] at hasSsrc
  obtain ⟨tail, outX⟩ := output_plain_answered (lineRole_plain.mpr free) hm inner
    (lineRole_closer.mpr hs) rest
  obtain ⟨tail', outY⟩ := output_closed_answered (lineRole_closer.mpr ssrc) hm inner
    (lineRole_closer.mpr hs) rest
  have filed : ∀ l ∈ (run (sdpRules allowed) {} pre).filed, (sdpRules allowed).codec l = true :=
    fun l hl => ((traced_run _ pre).filed l hl).codec
  simp only [outputLines, outX, outY, List.map_append, List.map_cons, List.map_map,
    Function.comp_def, itemText, List.map_id_fun', id, List.append_assoc, List.cons_append] at h
  obtain ⟨eqX, eqY, -⟩ | ⟨-, h⟩ := differOnlyIn_cons.mp (differOnlyIn_append differ _ h)
  · -- the ids only make the media line longer, so `a=ssrc` would stand in both
    have late := contains_mlineText_append (eqY ▸ hasSsrc)
      (mid.filter (sdpRules allowed).admitted)
    rw [← List.filter_append, eqX, noSsrc] at late
    cases late
  · exact nil_of_differOnlyIn differ (fun l hl => ne_of_codec (filed l hl) passX)
      (fun l hl => ne_of_codec (filed l hl) passY)
      (fun l hl => ne_of_codec (codec_of_mem_filing hl) (Bool.and_eq_true_iff.mp hs).1)
      (differOnlyIn_append differ _ h)

theorem differOnlyIn_mixed_iff {x y : Str} (free : markerFree x = true)
    (ssrc : isSsrc y = true) (allowed pre post : List Str) :
    DifferOnlyIn x y (outputLines allowed (pre ++ x :: post))
      (outputLines allowed (pre ++ y :: post)) ↔ AnswerUnseen allowed pre post := by
  have plain := lineRole_plain.mpr free
  have closer := lineRole_closer.mpr ssrc
  have innerOf {mid : List Str} (h : ∀ l ∈ mid, contains l mVideo = false ∧ isSsrc l = false) :
      ∀ l ∈ mid, (sdpRules allowed).inner l = true :=
    fun l hl => inner_iff.mpr ((lineRole_inner l).mpr (h l hl))
  constructor
  · intro differ pending
    obtain ⟨m, hm⟩ := Option.isSome_iff_exists.mp ((mediaPending_iff allowed pre).mp pending)
    cases section_end : closing (sdpRules allowed) post with
    | none =>
        have lengths := differ.length_eq
        rw [outputLines, outputLines, List.length_map, List.length_map] at lengths
        exact absurd lengths (length_ne_of_open plain closer hm section_end)
    | some mid =>
        obtain ⟨s, rest, rfl, hs, inner⟩ := closing_sdpRules.mp section_end
        obtain ⟨a, c, split, answered, none⟩ := (keptNone_iff allowed pre mid).mp
          (keptNone_of_differOnlyIn free ssrc hm hs (innerOf inner) differ)
        exact ⟨a, c, mid, s, rest, split, answered, rfl, hs, inner, none⟩
  · intro unseen
    apply differOnlyIn_of_outputSwap
    by_cases pending : MediaPending pre
    · obtain ⟨a, c, mid, s, rest, split, answered, rfl, hs, inner, none⟩ := unseen pending
      refine outputSwap_early plain closer ?_ (innerOf inner) (lineRole_closer.mpr hs)
        ((keptNone_iff allowed pre mid).mpr ⟨a, c, split, answered, none⟩) rest
      exact Option.isSome_iff_ne_none.mp ((mediaPending_iff allowed pre).mp pending)
    · rw [mediaPending_iff allowed, Option.not_isSome_iff_eq_none] at pending
      apply outputSwap_quiet pending <;> rw [sdpRules_passes]
      · exact (Bool.and_eq_true_iff.mp free).1
      · exact (Bool.and_eq_true_iff.mp ssrc).1

section Context

variable {sdp sdp' x y : Str} {pre post : List Str}
  (first : getlines sdp = pre ++ x :: post) (second : getlines sdp' = pre ++ y :: post)
include first second

theorem noStop_iff (passX : passThrough x = true) (passY : passThrough y = true) :
    ((∀ l ∈ getlines sdp, l ≠ aRtpmap) ∧ (∀ l ∈ getlines sdp', l ≠ aRtpmap)) ↔
      ∀ l ∈ pre ++ post, l ≠ aRtpmap := by
  have hx := ne_aRtpmap_of_passThrough passX
  have hy := ne_aRtpmap_of_passThrough passY
  rw [first, second]
  simp only [List.mem_append, List.mem_cons]
  grind

theorem unsteered_iff_of_ssrc (allowed : List Str) (hx : isSsrc x = true)
    (hy : isSsrc y = true) :
    Unsteered allowed x y sdp sdp' ↔ ∀ l ∈ pre ++ post, l ≠ aRtpmap := by
  have passX : passThrough x = true := (Bool.and_eq_true_iff.mp hx).1
  have passY : passThrough y = true := (Bool.and_eq_true_iff.mp hy).1
  rw [unsteered_iff, noStop_iff first second passX passY]
  apply and_iff_left
  rw [first, second]
  exact differOnlyIn_of_outputSwap (outputSwap_closer (sdpRules allowed) pre post
    (lineRole_closer.mpr hx) (lineRole_closer.mpr hy))

theorem unsteered_of_markerFree (allowed : List Str) (hx : markerFree x = true)
    (hy : markerFree y = true) (through : LetThrough pre post) :
    Unsteered allowed x y sdp sdp' := by
  have passX : passThrough x = true := (Bool.and_eq_true_iff.mp hx).1
  have passY : passThrough y = true := (Bool.and_eq_true_iff.mp hy).1
  have returns := (noStop_iff first second passX passY).mpr through.1
  refine (unsteered_iff allowed x y sdp sdp').mpr ⟨returns, ?_⟩
  rw [first, second]
  apply differOnlyIn_of_outputSwap
  apply outputSwap_plain _ pre post (lineRole_plain.mpr hx) (lineRole_plain.mpr hy)
  intro pending
  obtain ⟨s, hs, closes⟩ := through.2 ((mediaPending_iff allowed pre).mpr pending)
  exact ⟨s, hs, lineRole_closer.mpr closes⟩

/-- Two different texts that are both held back leave no trace. -/
theorem letThrough_of_unsteered (allowed : List Str) (hx : markerFree x = true)
    (hy : markerFree y = true) (differ : x ≠ y) (h : Unsteered allowed x y sdp sdp') :
    LetThrough pre post := by
  have passX : passThrough x = true := (Bool.and_eq_true_iff.mp hx).1
  have passY : passThrough y = true := (Bool.and_eq_true_iff.mp hy).1
  obtain ⟨returns, A, B, outX, outY⟩ := (unsteered_iff allowed x y sdp sdp').mp h
  refine ⟨(noStop_iff first second passX passY).mp returns, fun pending => ?_⟩
  by_contra none
  have same := output_of_held (sdpRules allowed) pre post (lineRole_plain.mpr hx)
    (lineRole_plain.mpr hy) ((mediaPending_iff allowed pre).mp pending)
    (fun s hs closes => none ⟨s, hs, lineRole_closer.mp closes⟩)
  rw [first, outputLines, same, ← outputLines, ← second, outY] at outX
  exact differ (List.cons.inj (List.append_cancel_left outX)).1.symm

theorem unsteered_iff_of_mixed (allowed : List Str) (hx : markerFree x = true)
    (hy : isSsrc y = true) :
    Unsteered allowed x y sdp sdp' ↔
      (∀ l ∈ pre ++ post, l ≠ aRtpmap) ∧ AnswerUnseen allowed pre post := by
  have passX : passThrough x = true := (Bool.and_eq_true_iff.mp hx).1
  have passY : passThrough y = true := (Bool.and_eq_true_iff.mp hy).1
  rw [unsteered_iff, noStop_iff first second passX passY, first, second,
    differOnlyIn_mixed_iff hx hy]

end Context

theorem Unsteered.symm {allowed : List Str} {x y sdp sdp' : Str}
    (h : Unsteered allowed x y sdp sdp') : Unsteered allowed y x sdp' sdp := by
  obtain ⟨out, out', eq, eq', A, B, first, second⟩ := h
  exact ⟨out', out, eq', eq, A, B, second, first⟩

theorem passThrough_of_alone {x y : Str} (hx : '\n' ∉ x)
    (h : Unsteered [] x y (lfText [x]) (lfText [y])) : passThrough x = true := by
  obtain ⟨-, A, B, written, -⟩ := (unsteered_iff _ _ _ _ _).mp h
  rw [getlines_lfText [x] (by simpa using hx)] at written
  by_contra kind
  have nothing : NothingWritten [x] := by
    intro pre l post split pass
    have member : l ∈ [x] := by simp [split]
    exact absurd (List.mem_singleton.mp member ▸ pass) kind
  rw [(outputLines_eq_nil_iff [] [x]).mpr nothing] at written
  simp at written

def openSection : List Str := ["m=video 9 UDP 96".toList, "a=rtpmap:96 H264/90000".toList]

def insideSection (x : Str) : List Str := openSection ++ x :: ["a=ssrc:1".toList]

theorem getlines_insideSection {x : Str} (hx : '\n' ∉ x) :
    getlines (lfText (insideSection x)) = insideSection x := by
  apply getlines_lfText
  have fixed : ∀ l ∈ openSection ++ ["a=ssrc:1".toList], '\n' ∉ l := by decide
  intro l hl
  simp only [insideSection, List.mem_append, List.mem_cons] at hl fixed
  grind

theorem not_answerUnseen_insideSection :
    ¬ AnswerUnseen ["H264".toList] openSection ["a=ssrc:1".toList] := by
  intro unseen
  have pending : MediaPending openSection := ⟨[], _, _, rfl, by decide, by decide⟩
  obtain ⟨a, c, mid, s, rest, split, answered, -, -, -, none⟩ := unseen pending
  have start : a = [] := by
    obtain rfl | ⟨p, k, rfl, hk, -⟩ := answered
    · rfl
    · have quiet : ∀ l ∈ openSection, isSsrc l = false := by decide
      rw [quiet k (by simp [split])] at hk
      cases hk
  subst start
  have kept := none ["m=video 9 UDP 96".toList] "a=rtpmap:96 H264/90000".toList mid
    (congrArg (· ++ mid) split.symm)
  exact absurd kept (by decide +kernel)

theorem not_unsteered_insideSection {x y : Str} (hx : '\n' ∉ x) (hy : '\n' ∉ y)
    (free : markerFree x = true) (ssrc : isSsrc y = true) :
    ¬ Unsteered ["H264".toList] x y (lfText (insideSection x)) (lfText (insideSection y)) := by
  rw [unsteered_iff_of_mixed (getlines_insideSection hx) (getlines_insideSection hy) _ free ssrc]
  exact fun h => not_answerUnseen_insideSection h.2

theorem letThrough_nil : LetThrough [] [] := by
  refine ⟨by simp, ?_⟩
  rintro ⟨pre, m, mid, split, -⟩
  simp at split

theorem letThrough_insideSection : LetThrough openSection ["a=ssrc:1".toList] :=
  ⟨by decide, fun _ => ⟨_, List.mem_singleton_self _, by decide⟩⟩

/-- Two offers are enough to tell the kinds apart: one with nothing but the text, and one
with the text inside a section. -/
theorem sameKind_of_unsteered {x y : Str} (hx : '\n' ∉ x) (hy : '\n' ∉ y)
    (h : ∀ sdp sdp' allowed pre post, getlines sdp = pre ++ x :: post →
      getlines sdp' = pre ++ y :: post → LetThrough pre post →
      Unsteered allowed x y sdp sdp') :
    (markerFree x = true ∧ markerFree y = true) ∨ (isSsrc x = true ∧ isSsrc y = true) := by
  have alone := h (lfText [x]) (lfText [y]) [] [] [] (getlines_lfText [x] (by simpa using hx))
    (getlines_lfText [y] (by simpa using hy)) letThrough_nil
  have inside := h (lfText (insideSection x)) (lfText (insideSection y)) ["H264".toList]
    openSection ["a=ssrc:1".toList] (getlines_insideSection hx) (getlines_insideSection hy)
    letThrough_insideSection
  have passX := passThrough_of_alone hx alone
  have passY := passThrough_of_alone hy alone.symm
  cases ssrcX : contains x aSsrc <;> cases ssrcY : contains y aSsrc
  · exact Or.inl (by simp [markerFree, *])
  · exact absurd inside (not_unsteered_insideSection hx hy (by simp [markerFree, *])
      (by simp [isSsrc, *]))
  · exact absurd inside.symm (not_unsteered_insideSection hy hx (by simp [markerFree, *])
      (by simp [isSsrc, *]))
  · exact Or.inr (by simp [isSsrc, *])

/-- Two texts are treated alike in every offer that lets them through exactly when neither
contains a marker, or both contain `a=ssrc` and nothing else. The other parts say in which
offers each of these kinds is treated alike, and in which one text of each kind. -/
theorem freeText_unsteered_iff (x y : Str) (hx : '\n' ∉ x) (hy : '\n' ∉ y) :
    ((∀ sdp sdp' allowed pre post, getlines sdp = pre ++ x :: post →
        getlines sdp' = pre ++ y :: post → LetThrough pre post →
        Unsteered allowed x y sdp sdp') ↔
      (markerFree x = true ∧ markerFree y = true) ∨ (isSsrc x = true ∧ isSsrc y = true)) ∧
    (markerFree x = true → markerFree y = true → x ≠ y →
      ∀ sdp sdp' allowed pre post, getlines sdp = pre ++ x :: post →
        getlines sdp' = pre ++ y :: post →
        (Unsteered allowed x y sdp sdp' ↔ LetThrough pre post)) ∧
    (isSsrc x = true → isSsrc y = true →
      ∀ sdp sdp' allowed pre post, getlines sdp = pre ++ x :: post →
        getlines sdp' = pre ++ y :: post →
        (Unsteered allowed x y sdp sdp' ↔ ∀ l ∈ pre ++ post, l ≠ aRtpmap)) ∧
    ((markerFree x = true ∧ isSsrc y = true) ∨ (isSsrc x = true ∧ markerFree y = true) →
      ∀ sdp sdp' allowed pre post, getlines sdp = pre ++ x :: post →
        getlines sdp' = pre ++ y :: post →
        (Unsteered allowed x y sdp sdp' ↔
          (∀ l ∈ pre ++ post, l ≠ aRtpmap) ∧ AnswerUnseen allowed pre post)) := by
  refine ⟨⟨sameKind_of_unsteered hx hy, ?_⟩, ?_, ?_, ?_⟩
  · rintro (⟨freeX, freeY⟩ | ⟨ssrcX, ssrcY⟩) sdp sdp' allowed pre post first second through
    · exact unsteered_of_markerFree first second allowed freeX freeY through
    · exact (unsteered_iff_of_ssrc first second allowed ssrcX ssrcY).mpr through.1
  · intro freeX freeY differ sdp sdp' allowed pre post first second
    exact ⟨letThrough_of_unsteered first second allowed freeX freeY differ,
      unsteered_of_markerFree first second allowed freeX freeY⟩
  · intro ssrcX ssrcY sdp sdp' allowed pre post first second
    exact unsteered_iff_of_ssrc first second allowed ssrcX ssrcY
  · rintro (⟨freeX, ssrcY⟩ | ⟨ssrcX, freeY⟩) sdp sdp' allowed pre post first second
    · exact unsteered_iff_of_mixed first second allowed freeX ssrcY
    · rw [← unsteered_iff_of_mixed second first allowed freeY ssrcX]
      exact ⟨Unsteered.symm, Unsteered.symm⟩

def labelledCamera (x : Str) : Str := lfText
  ["v=0".toList, "m=video 9 UDP 96".toList, "a=rtpmap:96 H264/90000".toList, x,
    "a=fmtp:96 level=1".toList, "a=ssrc:1".toList]

def namedCamera (x : Str) : Str := lfText
  ["v=0".toList, x, "m=video 9 UDP 96".toList, "a=rtpmap:96 H264/90000".toList,
    "a=fmtp:96 level=1".toList, "a=ssrc:1".toList]

/-- Neither label contains a marker, and in front of the first media line a session name may
contain `a=ssrc`. -/
theorem cameraTexts_unsteered :
    Unsteered ["H264".toList] "a=msid:one".toList "a=msid:two".toList
        (labelledCamera "a=msid:one".toList) (labelledCamera "a=msid:two".toList) ∧
      Unsteered ["H264".toList] "s=one".toList "s=a=ssrc".toList
        (namedCamera "s=one".toList) (namedCamera "s=a=ssrc".toList) := by
  constructor
  · exact ((freeText_unsteered_iff "a=msid:one".toList "a=msid:two".toList (by decide)
      (by decide)).1.mpr (Or.inl (by decide))) _ _ _
      ["v=0".toList, "m=video 9 UDP 96".toList, "a=rtpmap:96 H264/90000".toList]
      ["a=fmtp:96 level=1".toList, "a=ssrc:1".toList] (by decide +kernel) (by decide +kernel)
      ⟨by decide, fun _ => ⟨_, List.mem_cons_of_mem _ (List.mem_singleton_self _), by decide⟩⟩
  · refine ((freeText_unsteered_iff "s=one".toList "s=a=ssrc".toList (by decide)
      (by decide)).2.2.2 (Or.inl (by decide)) _ _ _ ["v=0".toList]
      ["m=video 9 UDP 96".toList, "a=rtpmap:96 H264/90000".toList,
        "a=fmtp:96 level=1".toList, "a=ssrc:1".toList] (by decide +kernel)
      (by decide +kernel)).mpr ⟨by decide, ?_⟩
    rintro ⟨pre, m, mid, split, media, -⟩
    have member : m ∈ ["v=0".toList] := by
      rw [split]
      simp
    rw [List.mem_singleton.mp member] at media
    exact absurd media (by decide)

/-- A session name with `m=video` in it is taken for a media line, and all that follows is
held back. -/
theorem sessionName_steers :
    isStructural "s=one".toList = false ∧ isStructural "s=m=video".toList = false ∧
    ¬ Unsteered [] "s=one".toList "s=m=video".toList
      (lfText ["v=0".toList, "s=one".toList, "t=0 0".toList])
      (lfText ["v=0".toList, "s=m=video".toList, "t=0 0".toList]) := by
  refine ⟨by decide, by decide, ?_⟩
  rintro ⟨out, out', eq, eq', A, B, first, second⟩
  have full : sdpForceCodecs (lfText ["v=0".toList, "s=one".toList, "t=0 0".toList]) [] =
      .ok (crlfText ["v=0".toList, "s=one".toList, "t=0 0".toList]) := by decide
  have cut : sdpForceCodecs (lfText ["v=0".toList, "s=m=video".toList, "t=0 0".toList]) [] =
      .ok (crlfText ["v=0".toList]) := by decide
  have longer : (crlfLines out).length = 3 := by
    rw [← Except.ok.inj (full.symm.trans eq)]
    decide
  have shorter : (crlfLines out').length = 1 := by
    rw [← Except.ok.inj (cut.symm.trans eq')]
    decide
  rw [first, List.length_append, List.length_cons] at longer
  rw [second, List.length_append, List.length_cons] at shorter
  omega

end Wadi
