import Wadi.Library.SectionFilterHeaders
import Wadi.Library.SectionFilterSwap

/-!
Two runs that differ in one line, which is plain in the first and a closing line in the
second. Where no header is pending both lines are written at once. Behind a pending header
the closing line brings out what has been filed so far, while the plain line is held with
the rest. The outputs are then the same apart from the line only if nothing is filed around
it and the section is closed by a later line anyway.
-/

namespace SectionFilter
universe u
variable {L : Type u} {R : Rules L}

theorem filing_eq_nil_iff (pre ls : List L) :
    filing R (pre.filter R.admitted) ls = [] ↔ ∀ p l q, ls = p ++ l :: q →
      R.files ((pre ++ p).filter R.admitted) l = false := by
  induction ls generalizing pre with
  | nil => simp [filing]
  | cons l ls ih =>
      have rest := ih (pre ++ [l])
      rw [List.filter_append] at rest
      constructor
      · intro none p k q split
        rw [filing] at none
        split at none
        case isTrue => cases none
        case isFalse skipped =>
          cases p with
          | nil =>
              obtain ⟨rfl, rfl⟩ := List.cons.inj split
              simpa using skipped
          | cons k' p =>
              obtain ⟨rfl, rfl⟩ := List.cons.inj split
              simpa using rest.mp none p k q rfl
      · intro h
        have skipped := h [] l ls rfl
        rw [List.append_nil] at skipped
        rw [filing, skipped, rest.mpr]
        · rfl
        · rintro p k q rfl
          simpa using h (l :: p) k q rfl

/-- The last line answers a pending header, or there is none. Nothing waits then. -/
def Flushed (R : Rules L) (ls : List L) : Prop :=
  ls = [] ∨ ∃ pre s, ls = pre ++ [s] ∧ R.role s = .closer ∧ (run R {} pre).pending ≠ none

theorem filed_of_flushed {ls : List L} (h : Flushed R ls) : (run R {} ls).filed = [] := by
  obtain rfl | ⟨pre, s, rfl, role, pending⟩ := h
  · rfl
  · obtain ⟨m, hm⟩ := Option.ne_none_iff_exists'.mp pending
    rw [run_append, run_cons, step_answer role hm, run_nil]

/-- The lines that wait are those filed since the last answer. -/
theorem filed_since_flush (R : Rules L) (ls : List L) :
    ∃ a c, ls = a ++ c ∧ Flushed R a ∧
      (run R {} ls).filed = filing R (a.filter R.admitted) c := by
  apply run_induction R (fun pre b => ∃ a c, pre = a ++ c ∧ Flushed R a ∧
    b.filed = filing R (a.filter R.admitted) c)
  · exact ⟨[], [], rfl, Or.inl rfl, rfl⟩
  · rintro pre l ⟨a, c, split, flushed, filed⟩
    by_cases answers : R.role l = .closer → (run R {} pre).pending = none
    · refine ⟨a, c ++ [l], by simp [split], flushed, ?_⟩
      rw [(step_filed answers).1, filing_append, filed, run_admitted, split,
        List.filter_append]
    · have now : Flushed R (pre ++ [l]) := Or.inr ⟨pre, l, rfl, Classical.not_imp.mp answers⟩
      refine ⟨pre ++ [l], [], by simp, now, ?_⟩
      have empty := filed_of_flushed now
      rwa [run_append] at empty

theorem filed_nil_of_filing {b : Buffers L} (ls : List L) (empty : b.filed = [])
    (h : filing R b.admitted ls = []) : (run R b ls).filed = [] := by
  induction ls generalizing b with
  | nil => exact empty
  | cons l ls ih =>
      have parts := filing_append R b.admitted [l] ls
      rw [List.singleton_append, h, eq_comm, List.append_eq_nil_iff] at parts
      refine ih ?_ (by rw [step_admitted]; exact parts.2)
      by_cases answers : R.role l = .closer → b.pending = none
      · rw [(step_filed answers).1, empty, parts.1]
        rfl
      · obtain ⟨role, pending⟩ := Classical.not_imp.mp answers
        obtain ⟨m, hm⟩ := Option.ne_none_iff_exists'.mp pending
        rw [step_answer role hm]

/-- Nothing waits, and nothing more is filed, when no line is filed since the last answer. -/
theorem nothing_filed_iff (pre mid : List L) :
    (run R {} pre).filed = [] ∧ filing R (pre.filter R.admitted) mid = [] ↔
      ∃ a c, pre = a ++ c ∧ Flushed R a ∧ ∀ p l q, c ++ mid = p ++ l :: q →
        R.files ((a ++ p).filter R.admitted) l = false := by
  simp only [← filing_eq_nil_iff]
  constructor
  · rintro ⟨empty, none⟩
    obtain ⟨a, c, rfl, flushed, filed⟩ := filed_since_flush R pre
    refine ⟨a, c, rfl, flushed, ?_⟩
    rw [filing_append, ← filed, empty, ← List.filter_append, none]
    rfl
  · rintro ⟨a, c, rfl, flushed, none⟩
    rw [filing_append, ← List.filter_append, List.append_eq_nil_iff] at none
    refine ⟨?_, none.2⟩
    rw [run_append]
    apply filed_nil_of_filing c (filed_of_flushed flushed)
    rw [run_admitted]
    exact none.1

section Section

variable {x y m s : L} {b : Buffers L} {mid : List L}

theorem run_plain_section (hx : R.role x = .plain) (hm : b.pending = some m)
    (inner : ∀ l ∈ mid, R.inner l = true) :
    run R b (x :: mid) =
      { b with
        held := b.held ++ x :: mid.filter (fun l => R.role l == .plain)
        filed := b.filed ++ filing R b.admitted mid
        admitted := b.admitted ++ mid.filter R.admitted } := by
  have held : step R b x = { b with held := b.held ++ [x] } := by
    simp [step, hx, Buffers.pass, hm]
  rw [run_cons, held, run_inner R { b with held := b.held ++ [x] } m hm mid inner]
  simp

theorem run_closed_section (hy : R.role y = .closer) (hm : b.pending = some m)
    (inner : ∀ l ∈ mid, R.inner l = true) :
    run R b (y :: mid) =
      { emitted := b.emitted ++ b.block m ++
          .line y :: (mid.filter (fun l => R.role l == .plain)).map .line
        filed := filing R b.admitted mid
        admitted := b.admitted ++ mid.filter R.admitted } := by
  rw [run_cons, step_answer hy hm, run_inner_quiet R _ rfl mid inner]
  simp

theorem run_plain_answered (hx : R.role x = .plain) (hm : b.pending = some m)
    (inner : ∀ l ∈ mid, R.inner l = true) (hs : R.role s = .closer) :
    run R b (x :: (mid ++ [s])) =
      { emitted := b.emitted ++ .header m (b.admitted ++ mid.filter R.admitted) ::
          (b.held ++ x :: (mid.filter (fun l => R.role l == .plain) ++
            (b.filed ++ filing R b.admitted mid))).map .line ++ [.line s]
        admitted := b.admitted ++ mid.filter R.admitted } := by
  rw [← List.cons_append, run_append, run_plain_section hx hm inner]
  simp [step, hs, hm, Buffers.close, Buffers.pass, Buffers.block]

theorem run_closed_answered (hy : R.role y = .closer) (hm : b.pending = some m)
    (inner : ∀ l ∈ mid, R.inner l = true) (hs : R.role s = .closer) :
    run R b (y :: (mid ++ [s])) =
      { emitted := b.emitted ++ .header m b.admitted ::
          (b.held ++ (b.filed ++ y :: mid.filter (fun l => R.role l == .plain))).map .line ++
            [.line s]
        filed := filing R b.admitted mid
        admitted := b.admitted ++ mid.filter R.admitted } := by
  rw [← List.cons_append, run_append, run_closed_section hy hm inner]
  simp [step, hs, Buffers.close, Buffers.pass, Buffers.block]

theorem admitted_nil_of_filing {adm ls : List L} (h : filing R adm ls = []) :
    ls.filter R.admitted = [] := by
  induction ls generalizing adm with
  | nil => rfl
  | cons l ls ih =>
      rw [filing] at h
      split at h
      case isTrue => cases h
      case isFalse skipped =>
        have out : R.admitted l = false := by
          rw [← Bool.not_eq_true]
          intro admitted
          simp [Rules.files, admitted] at skipped
        rw [List.filter_cons_of_neg (by simp [out]), ih h]

/-- Where nothing is filed and the section is closed anyway, only the line is different. -/
theorem swapWritten_early (hx : R.role x = .plain) (hy : R.role y = .closer)
    (hm : b.pending = some m) (inner : ∀ l ∈ mid, R.inner l = true) (hs : R.role s = .closer)
    (empty : b.filed = []) (none : filing R b.admitted mid = []) :
    SwapWritten x y (run R b (x :: (mid ++ [s]))) (run R b (y :: (mid ++ [s]))) := by
  rw [run_plain_answered hx hm inner hs, run_closed_answered hy hm inner hs]
  refine ⟨b.emitted ++ .header m b.admitted :: b.held.map .line,
    (mid.filter (fun l => R.role l == .plain)).map .line ++ [.line s], ?_⟩
  simp [empty, none, admitted_nil_of_filing none]

/-- The second run has written or kept back one item more. -/
structure Ahead (b c : Buffers L) : Prop where
  pending : c.pending = b.pending
  admitted : c.admitted = b.admitted
  total : c.emitted.length + c.held.length + c.filed.length =
    b.emitted.length + b.held.length + b.filed.length + 1

theorem Ahead.step {c : Buffers L} (h : Ahead b c) (R : Rules L) (l : L) :
    Ahead (step R b l) (step R c l) := by
  obtain ⟨pending, admitted, total⟩ := h
  cases role : R.role l with
  | header => exact ⟨by simp [SectionFilter.step, role], by simpa [SectionFilter.step, role],
      by simpa [SectionFilter.step, role]⟩
  | entry =>
      cases admits : R.admits l <;>
        refine ⟨?_, ?_, ?_⟩ <;> simp [SectionFilter.step, role, admits, pending, admitted] <;>
        omega
  | detail =>
      cases covered : b.admitted.any (R.covers · l) <;>
        refine ⟨?_, ?_, ?_⟩ <;>
        simp only [SectionFilter.step, role, covered, pending, admitted] <;> simp <;> omega
  | closer | plain =>
      cases hp : b.pending <;> rw [hp] at pending <;> refine ⟨?_, ?_, ?_⟩ <;>
        simp [SectionFilter.step, role, Buffers.close, Buffers.pass, Buffers.block, hp,
          pending, admitted] <;> omega

theorem Ahead.waiting_step {c : Buffers L} (h : Ahead b c)
    (same : c.held = b.held ∧ c.filed = b.filed) (R : Rules L) (l : L) :
    (SectionFilter.step R c l).held = (SectionFilter.step R b l).held ∧
      (SectionFilter.step R c l).filed = (SectionFilter.step R b l).filed := by
  obtain ⟨pending, admitted, -⟩ := h
  cases role : R.role l with
  | header => simpa [SectionFilter.step, role]
  | entry => cases admits : R.admits l <;> simpa [SectionFilter.step, role, admits]
  | detail =>
      cases covered : b.admitted.any (R.covers · l) <;>
        simpa only [SectionFilter.step, role, covered, admitted, Bool.false_eq_true, if_false,
          if_true, List.append_cancel_right_eq]
  | closer | plain =>
      cases hp : b.pending <;> rw [hp] at pending <;>
        simp [SectionFilter.step, role, Buffers.close, Buffers.pass, hp, pending, same]

theorem Ahead.length_of_same {c : Buffers L} (h : Ahead b c)
    (same : c.held = b.held ∧ c.filed = b.filed) (R : Rules L) (ls : List L) :
    (run R c ls).emitted.length = (run R b ls).emitted.length + 1 := by
  induction ls generalizing b c with
  | nil =>
      have total := h.total
      rw [same.1, same.2] at total
      simp only [run_nil]
      omega
  | cons l ls ih => exact ih (h.step R l) (h.waiting_step same R l)

/-- Without a closing line a header stays pending and nothing is written. -/
theorem step_open (pending : b.pending.isSome = true) {l : L} (role : R.role l ≠ .closer) :
    (step R b l).pending.isSome = true ∧ (step R b l).emitted = b.emitted := by
  obtain ⟨-, eq⟩ | ⟨-, -, eq⟩ | ⟨-, -, eq⟩ | ⟨-, eq⟩ |
    ⟨m, closer, -, -⟩ | ⟨-, -, eq⟩ | ⟨-, none, -⟩ := step_cases R b l
  · simp [eq]
  · simp [eq, pending]
  · simp [eq, pending]
  · simp [eq, pending]
  · exact absurd closer role
  · simp [eq, pending]
  · simp [none] at pending

theorem run_open (pending : b.pending.isSome = true) {ls : List L}
    (h : ∀ l ∈ ls, R.role l ≠ .closer) : (run R b ls).emitted = b.emitted := by
  induction ls generalizing b with
  | nil => rfl
  | cons l ls ih =>
      obtain ⟨still, same⟩ := step_open pending (h l (by simp))
      exact (ih still (fun k hk => h k (by simp [hk]))).trans same

/-- Once the pending header is answered, the second output is one item longer. -/
theorem Ahead.length_of_closer {c : Buffers L} (h : Ahead b c)
    (pending : b.pending.isSome = true) {ls : List L}
    (closer : ∃ s ∈ ls, R.role s = .closer) :
    (run R c ls).emitted.length = (run R b ls).emitted.length + 1 := by
  induction ls generalizing b c with
  | nil => simp at closer
  | cons l ls ih =>
      obtain ⟨m, hm⟩ := Option.isSome_iff_exists.mp pending
      by_cases role : R.role l = .closer
      · refine (h.step R l).length_of_same ?_ R ls
        rw [step_answer role hm, step_answer role (h.pending.trans hm)]
        exact ⟨rfl, rfl⟩
      · exact ih (h.step R l) (step_open pending role).1 (by simpa [role] using closer)

theorem closing_eq_none {ls : List L} (h : closing R ls = none) :
    (∀ s ∈ ls, R.role s ≠ .closer) ∨
      ∃ u k v, ls = u ++ k :: v ∧ R.role k = .header ∧ ∀ l ∈ u, R.inner l = true := by
  induction ls with
  | nil => exact Or.inl (by simp)
  | cons l ls ih =>
      cases role : R.role l with
      | header => exact Or.inr ⟨[], l, ls, rfl, role, by simp⟩
      | closer => simp [closing, role] at h
      | entry | detail | plain =>
          obtain none | ⟨u, k, v, rfl, header, inner⟩ := ih (by simpa [closing, role] using h)
          · exact Or.inl (by simpa [role] using none)
          · exact Or.inr ⟨l :: u, k, v, rfl, header, by simpa [Rules.inner, role] using inner⟩

/-- The closing line writes a header that the plain line leaves unwritten. -/
theorem ahead_of_header (hx : R.role x = .plain) (hy : R.role y = .closer)
    (hm : b.pending = some m) {u : List L} (inner : ∀ l ∈ u, R.inner l = true) {k : L}
    (header : R.role k = .header) :
    Ahead (step R (run R b (x :: u)) k) (step R (run R b (y :: u)) k) := by
  rw [run_plain_section hx hm inner, run_closed_section hy hm inner]
  refine ⟨?_, ?_, ?_⟩ <;> simp [step, header, Buffers.block]
  omega

/-- In a section that is not closed anyway the outputs differ in length. -/
theorem length_ne_of_open (hx : R.role x = .plain) (hy : R.role y = .closer)
    {pre post : List L} (hm : (run R {} pre).pending = some m) (h : closing R post = none) :
    (output R (pre ++ x :: post)).length ≠ (output R (pre ++ y :: post)).length := by
  rw [output, output, run_append, run_append]
  generalize run R {} pre = b at hm
  by_cases unanswered : ∀ s ∈ post, R.role s ≠ .closer
  · have waits : (run R b (x :: post)).emitted = b.emitted :=
      run_open (by simp [hm]) (List.forall_mem_cons.mpr ⟨by simp [hx], unanswered⟩)
    obtain ⟨rest, grown⟩ := emitted_grows R (step R b y) post
    rw [waits, run_cons, ← grown, step_answer hy hm]
    simp [Buffers.block]
  · obtain ⟨u, k, v, rfl, header, inner⟩ := (closing_eq_none h).resolve_left unanswered
    have closer : ∃ s ∈ v, R.role s = .closer := by
      by_contra none
      refine unanswered (List.forall_mem_append.mpr ⟨fun l hl => (inner_iff.mp (inner l hl)).2,
        List.forall_mem_cons.mpr ⟨by simp [header], fun s hs role => none ⟨s, hs, role⟩⟩⟩)
    have longer := (ahead_of_header hx hy hm inner header).length_of_closer
      (by simp [step, header]) closer
    rw [← run_cons, ← run_cons, ← run_append, ← run_append, List.cons_append,
      List.cons_append] at longer
    omega

end Section

theorem outputSwap_quiet {x y : L} {pre : List L} (quiet : (run R {} pre).pending = none)
    (hx : R.passes x = true) (hy : R.passes y = true) (post : List L) :
    OutputSwap R x y (pre ++ x :: post) (pre ++ y :: post) := by
  have written {z : L} (hz : R.passes z = true) : run R (run R {} pre) [z] =
      { run R {} pre with emitted := (run R {} pre).emitted ++ [.line z] } :=
    run_passes R _ quiet [z] (by simpa using hz)
  apply outputSwap_of_written
  rw [run_append, run_append]
  refine swapWritten_run ?_ R post
  rw [← run_nil R (step R _ x), ← run_nil R (step R _ y), ← run_cons, ← run_cons, written hx,
    written hy]
  exact ⟨_, [], rfl, rfl⟩

theorem outputSwap_early {x y s : L} {pre mid : List L} (hx : R.role x = .plain)
    (hy : R.role y = .closer) (pending : (run R {} pre).pending ≠ none)
    (inner : ∀ l ∈ mid, R.inner l = true) (hs : R.role s = .closer)
    (none : (run R {} pre).filed = [] ∧ filing R (pre.filter R.admitted) mid = [])
    (rest : List L) :
    OutputSwap R x y (pre ++ x :: (mid ++ s :: rest)) (pre ++ y :: (mid ++ s :: rest)) := by
  obtain ⟨m, hm⟩ := Option.ne_none_iff_exists'.mp pending
  rw [← run_admitted] at none
  have swapped := swapWritten_early hx hy hm inner hs none.1 none.2
  have shape (z : L) : pre ++ z :: (mid ++ s :: rest) = pre ++ z :: (mid ++ [s]) ++ rest := by
    simp
  apply outputSwap_of_written
  rw [shape, shape, run_append, run_append, run_append, run_append R _ pre]
  exact swapWritten_run swapped R rest

section Outputs

variable {x y s m : L} {pre mid : List L}

theorem output_plain_answered (hx : R.role x = .plain) (hm : (run R {} pre).pending = some m)
    (inner : ∀ l ∈ mid, R.inner l = true) (hs : R.role s = .closer) (rest : List L) :
    ∃ tail, output R (pre ++ x :: (mid ++ s :: rest)) =
      (run R {} pre).emitted ++ .header m ((pre ++ mid).filter R.admitted) ::
        (((run R {} pre).held ++ x :: (mid.filter (fun l => R.role l == .plain) ++
          ((run R {} pre).filed ++ filing R (pre.filter R.admitted) mid))).map .line ++
            .line s :: tail) := by
  have shape : pre ++ x :: (mid ++ s :: rest) = pre ++ x :: (mid ++ [s]) ++ rest := by simp
  have answered := run_plain_answered hx hm inner hs
  obtain ⟨tail, grown⟩ := emitted_grows R (run R {} (pre ++ x :: (mid ++ [s]))) rest
  refine ⟨tail, ?_⟩
  rw [output, shape, run_append, ← grown, run_append, answered, run_admitted]
  simp

theorem output_closed_answered (hy : R.role y = .closer)
    (hm : (run R {} pre).pending = some m) (inner : ∀ l ∈ mid, R.inner l = true)
    (hs : R.role s = .closer) (rest : List L) :
    ∃ tail, output R (pre ++ y :: (mid ++ s :: rest)) =
      (run R {} pre).emitted ++ .header m (pre.filter R.admitted) ::
        (((run R {} pre).held ++ ((run R {} pre).filed ++
          y :: mid.filter (fun l => R.role l == .plain))).map .line ++ .line s :: tail) := by
  have shape : pre ++ y :: (mid ++ s :: rest) = pre ++ y :: (mid ++ [s]) ++ rest := by simp
  have answered := run_closed_answered hy hm inner hs
  obtain ⟨tail, grown⟩ := emitted_grows R (run R {} (pre ++ y :: (mid ++ [s]))) rest
  refine ⟨tail, ?_⟩
  rw [output, shape, run_append, ← grown, run_append, answered, run_admitted]
  simp

end Outputs

theorem codec_of_mem_filing {adm ls : List L} {l : L} (h : l ∈ filing R adm ls) :
    R.codec l = true := by
  rw [filing_eq] at h
  obtain ⟨p, hp, rfl⟩ := List.mem_map.mp h
  exact codec_of_files (List.mem_filter.mp hp).2

end SectionFilter
