import Wadi.Library.SectionFilterOrder

/-!
Two runs that differ in one line. As long as the line is of the same kind in both, and a
kind that is passed on, the two runs differ in nothing but that line: where it is held
back it is held back in both, and where it is written it is written in both, in the same
place.
-/

namespace SectionFilter
universe u
variable {L : Type u}

/-- The line has been written, and nothing else is different. -/
def SwapWritten (x y : L) (b c : Buffers L) : Prop :=
  ∃ A B, b.emitted = A ++ .line x :: B ∧ c = { b with emitted := A ++ .line y :: B }

/-- The line is held back for a pending header, and nothing else is different. -/
def SwapHeld (x y : L) (b c : Buffers L) : Prop :=
  b.pending.isSome = true ∧ ∃ H K, b.held = H ++ x :: K ∧ c = { b with held := H ++ y :: K }

variable {x y : L} {b c : Buffers L}

theorem swapWritten_step (h : SwapWritten x y b c) (R : Rules L) (l : L) :
    SwapWritten x y (step R b l) (step R c l) := by
  obtain ⟨A, B, written, rfl⟩ := h
  cases role : R.role l with
  | header => exact ⟨A, B, by simp [step, role, written]⟩
  | entry =>
      cases admits : R.admits l <;>
        exact ⟨A, B, by simp [step, role, admits, written]⟩
  | detail =>
      cases covered : b.admitted.any (R.covers · l) <;>
        exact ⟨A, B, by simp [step, role, covered, written]⟩
  | plain =>
      cases pending : b.pending with
      | none =>
          exact ⟨A, B ++ [.line l], by
            simp [step, role, Buffers.pass, pending, written]⟩
      | some m =>
          exact ⟨A, B, by simp [step, role, Buffers.pass, pending, written]⟩
  | closer =>
      cases pending : b.pending with
      | none =>
          exact ⟨A, B ++ [.line l], by
            simp [step, role, Buffers.close, Buffers.pass, pending, written]⟩
      | some m =>
          exact ⟨A, B ++ b.block m ++ [.line l], by
            simp [step, role, Buffers.close, Buffers.pass, Buffers.block,
              pending, written]⟩

theorem swapHeld_step (h : SwapHeld x y b c) (R : Rules L) {l : L}
    (role : R.role l ≠ .closer) : SwapHeld x y (step R b l) (step R c l) := by
  obtain ⟨pending, H, K, held, rfl⟩ := h
  obtain ⟨m, hm⟩ := Option.isSome_iff_exists.mp pending
  cases hr : R.role l with
  | header => exact ⟨by simp [step, hr], H, K, by simp [step, hr, held]⟩
  | entry =>
      cases admits : R.admits l <;>
        exact ⟨by simp [step, hr, admits, hm], H, K,
          by simp [step, hr, admits, held]⟩
  | detail =>
      cases covered : b.admitted.any (R.covers · l) <;>
        exact ⟨by simp [step, hr, covered, hm], H, K,
          by simp [step, hr, covered, held]⟩
  | plain =>
      exact ⟨by simp [step, hr, Buffers.pass, hm], H, K ++ [l],
        by simp [step, hr, Buffers.pass, hm, held]⟩
  | closer => exact absurd hr role

theorem swapHeld_close (h : SwapHeld x y b c) (R : Rules L) {l : L}
    (role : R.role l = .closer) : SwapWritten x y (step R b l) (step R c l) := by
  obtain ⟨pending, H, K, held, rfl⟩ := h
  obtain ⟨m, hm⟩ := Option.isSome_iff_exists.mp pending
  refine ⟨b.emitted ++ .header m b.admitted :: H.map .line,
    K.map .line ++ b.filed.map .line ++ [.line l], ?_⟩
  simp [step, role, Buffers.close, Buffers.pass, Buffers.block, hm, held]

theorem swapWritten_run (h : SwapWritten x y b c) (R : Rules L) (ls : List L) :
    SwapWritten x y (run R b ls) (run R c ls) := by
  induction ls generalizing b c with
  | nil => exact h
  | cons l ls ih => exact ih (swapWritten_step h R l)

/-- A held line is written as soon as there is a closing line, and never otherwise. -/
theorem swapHeld_run (h : SwapHeld x y b c) (R : Rules L) (ls : List L) :
    ((∃ s ∈ ls, R.role s = .closer) → SwapWritten x y (run R b ls) (run R c ls)) ∧
      ((∀ s ∈ ls, R.role s ≠ .closer) → SwapHeld x y (run R b ls) (run R c ls)) := by
  induction ls generalizing b c with
  | nil => exact ⟨by simp, fun _ => h⟩
  | cons l ls ih =>
      by_cases role : R.role l = .closer
      · exact ⟨fun _ => swapWritten_run (swapHeld_close h R role) R ls,
          fun none => absurd role (none l (by simp))⟩
      · obtain ⟨written, held⟩ := ih (swapHeld_step h R role)
        refine ⟨?_, fun none => held (fun s hs => none s (by simp [hs]))⟩
        rintro ⟨s, hs, closes⟩
        obtain rfl | hs := List.mem_cons.mp hs
        · exact absurd closes role
        · exact written ⟨s, hs, closes⟩

theorem swap_plain (R : Rules L) (b : Buffers L) (hx : R.role x = .plain)
    (hy : R.role y = .plain) :
    (b.pending = none ∧ SwapWritten x y (step R b x) (step R b y)) ∨
      (b.pending.isSome = true ∧ SwapHeld x y (step R b x) (step R b y)) := by
  cases pending : b.pending with
  | none =>
      refine Or.inl ⟨rfl, b.emitted, [], ?_⟩
      simp [step, hx, hy, Buffers.pass, pending]
  | some m =>
      refine Or.inr ⟨rfl, by simp [step, hx, Buffers.pass, pending], b.held, [], ?_⟩
      simp [step, hx, hy, Buffers.pass, pending]

theorem swap_closer (R : Rules L) (b : Buffers L) (hx : R.role x = .closer)
    (hy : R.role y = .closer) : SwapWritten x y (step R b x) (step R b y) := by
  refine ⟨b.close.emitted, [], ?_⟩
  cases pending : b.pending <;> simp [step, hx, hy, Buffers.close, Buffers.pass, pending]

/-- The two outputs contain the line and are the same apart from it. -/
def OutputSwap (R : Rules L) (x y : L) (ls ks : List L) : Prop :=
  ∃ A B, output R ls = A ++ .line x :: B ∧ output R ks = A ++ .line y :: B

theorem outputSwap_of_written {R : Rules L} {ls ks : List L}
    (h : SwapWritten x y (run R {} ls) (run R {} ks)) : OutputSwap R x y ls ks := by
  obtain ⟨A, B, written, other⟩ := h
  exact ⟨A, B, written, by rw [output, other]⟩

theorem outputSwap_closer (R : Rules L) (pre post : List L) (hx : R.role x = .closer)
    (hy : R.role y = .closer) : OutputSwap R x y (pre ++ x :: post) (pre ++ y :: post) := by
  apply outputSwap_of_written
  rw [run_append, run_append]
  exact swapWritten_run (swap_closer R _ hx hy) R post

theorem outputSwap_plain (R : Rules L) (pre post : List L) (hx : R.role x = .plain)
    (hy : R.role y = .plain)
    (h : (run R {} pre).pending.isSome = true → ∃ s ∈ post, R.role s = .closer) :
    OutputSwap R x y (pre ++ x :: post) (pre ++ y :: post) := by
  apply outputSwap_of_written
  rw [run_append, run_append]
  obtain ⟨-, written⟩ | ⟨pending, held⟩ := swap_plain R (run R {} pre) hx hy
  · exact swapWritten_run written R post
  · exact (swapHeld_run held R post).1 (h pending)

theorem output_of_held (R : Rules L) (pre post : List L) (hx : R.role x = .plain)
    (hy : R.role y = .plain) (pending : (run R {} pre).pending.isSome = true)
    (h : ∀ s ∈ post, R.role s ≠ .closer) :
    output R (pre ++ x :: post) = output R (pre ++ y :: post) := by
  rw [output, output, run_append, run_append]
  obtain ⟨none, -⟩ | ⟨-, held⟩ := swap_plain R (run R {} pre) hx hy
  · simp [none] at pending
  · obtain ⟨-, H, K, -, other⟩ := (swapHeld_run held R post).2 h
    rw [run_cons, run_cons, other]

end SectionFilter
