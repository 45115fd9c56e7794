import Wadi.Library.SectionFilter

/-!
Where the output of a section filter comes from. Every written line is an
input line the rules let through, and every written header carries the entries
admitted in front of the line that closed it. The invariant covers all four
buffers at once, because lines reach the output through each of them.
-/

namespace SectionFilter
universe u
variable {L : Type u}

/-- A filed line: an admitted entry, or a detail of an entry admitted earlier. -/
def Accepted (R : Rules L) (ls : List L) (l : L) : Prop :=
  (l ∈ ls ∧ R.admitted l = true) ∨
  (R.role l = .detail ∧ ∃ pre post, ls = pre ++ l :: post ∧
    ∃ e ∈ pre, R.admitted e = true ∧ R.covers e l = true)

/-- A header is written at a closing line, with the entries admitted so far. -/
def WrittenAt (R : Rules L) (ls : List L) (m : L) (adm : List L) : Prop :=
  ∃ pre s post, ls = pre ++ s :: post ∧ R.role s = .closer ∧
    (run R {} pre).pending = some m ∧ adm = pre.filter R.admitted

def Accounted (R : Rules L) (ls : List L) : Item L → Prop
  | .line l => (l ∈ ls ∧ R.passes l = true) ∨ Accepted R ls l
  | .header m adm => WrittenAt R ls m adm

structure Traced (R : Rules L) (ls : List L) (b : Buffers L) : Prop where
  pending : ∀ m, b.pending = some m → m ∈ ls ∧ R.role m = .header
  held : ∀ l ∈ b.held, l ∈ ls ∧ R.role l = .plain
  quiet : b.pending = none → b.held = []
  filed : ∀ l ∈ b.filed, Accepted R ls l
  emitted : ∀ i ∈ b.emitted, Accounted R ls i

theorem Accepted.append {R : Rules L} {ls : List L} {l : L} (h : Accepted R ls l)
    (ks : List L) : Accepted R (ls ++ ks) l := by
  obtain ⟨mem, adm⟩ | ⟨role, pre, post, rfl, covered⟩ := h
  · exact Or.inl ⟨List.mem_append_left _ mem, adm⟩
  · exact Or.inr ⟨role, pre, post ++ ks, by simp, covered⟩

theorem Accounted.append {R : Rules L} {ls : List L} {i : Item L} (h : Accounted R ls i)
    (ks : List L) : Accounted R (ls ++ ks) i := by
  cases i with
  | line l =>
      obtain ⟨mem, pass⟩ | acc := h
      · exact Or.inl ⟨List.mem_append_left _ mem, pass⟩
      · exact Or.inr (acc.append ks)
  | header m adm =>
      obtain ⟨pre, s, post, rfl, rest⟩ := h
      exact ⟨pre, s, post ++ ks, by simp, rest⟩

theorem Accepted.mem {R : Rules L} {ls : List L} {l : L} (h : Accepted R ls l) : l ∈ ls := by
  obtain ⟨mem, -⟩ | ⟨-, pre, post, rfl, -⟩ := h
  · exact mem
  · simp

theorem Accepted.role {R : Rules L} {ls : List L} {l : L} (h : Accepted R ls l) :
    R.role l = .entry ∨ R.role l = .detail := by
  obtain ⟨-, adm⟩ | ⟨role, -⟩ := h
  · exact Or.inl (by simp_all [Rules.admitted])
  · exact Or.inr role

theorem Accepted.not_passes {R : Rules L} {ls : List L} {l : L} (h : Accepted R ls l) :
    R.passes l = false := by
  obtain role | role := h.role <;> simp [Rules.passes, role]

/-- The items of a closed block are accounted for by what the buffers held. -/
theorem Traced.block {R : Rules L} {pre : List L} {b : Buffers L} (h : Traced R pre b)
    (hb : b = run R {} pre) {m s : L} (hm : b.pending = some m) (hs : R.role s = .closer) :
    ∀ i ∈ b.block m, Accounted R (pre ++ [s]) i := by
  intro i hi
  simp only [Buffers.block, List.mem_cons, List.mem_map, List.mem_append] at hi
  obtain rfl | ⟨l, hl | hl, rfl⟩ := hi
  · exact ⟨pre, s, [], rfl, hs, hb ▸ hm, hb ▸ run_admitted R pre⟩
  · have held := h.held l hl
    exact Or.inl ⟨List.mem_append_left _ held.1, by simp [Rules.passes, held.2]⟩
  · exact Or.inr ((h.filed l hl).append [s])

theorem traced_step (R : Rules L) (pre : List L) (l : L)
    (h : Traced R pre (run R {} pre)) :
    Traced R (pre ++ [l]) (step R (run R {} pre) l) := by
  generalize hb : run R {} pre = b at h
  have old : ∀ i ∈ b.emitted, Accounted R (pre ++ [l]) i :=
    fun i hi => (h.emitted i hi).append [l]
  have oldFiled : ∀ k ∈ b.filed, Accepted R (pre ++ [l]) k :=
    fun k hk => (h.filed k hk).append [l]
  have oldHeld : ∀ k ∈ b.held, k ∈ pre ++ [l] ∧ R.role k = .plain :=
    fun k hk => ⟨List.mem_append_left _ (h.held k hk).1, (h.held k hk).2⟩
  have oldPending : ∀ m, b.pending = some m → m ∈ pre ++ [l] ∧ R.role m = .header :=
    fun m hm => ⟨List.mem_append_left _ (h.pending m hm).1, (h.pending m hm).2⟩
  obtain ⟨role, eq⟩ | ⟨role, adm, eq⟩ | ⟨role, cov, eq⟩ | ⟨-, eq⟩ |
    ⟨m, role, pend, eq⟩ | ⟨role, pend, eq⟩ | ⟨pass, pend, eq⟩ := step_cases R b l <;> rw [eq]
  · refine ⟨?_, oldHeld, by simp, oldFiled, old⟩
    rintro m ⟨rfl⟩
    exact ⟨by simp, role⟩
  · refine ⟨oldPending, oldHeld, h.quiet, ?_, old⟩
    intro k hk
    obtain hk | rfl := List.mem_append.mp hk |>.imp_right List.mem_singleton.mp
    · exact oldFiled k hk
    · exact Or.inl ⟨by simp, by simp [Rules.admitted, role, adm]⟩
  · refine ⟨oldPending, oldHeld, h.quiet, ?_, old⟩
    intro k hk
    obtain hk | rfl := List.mem_append.mp hk |>.imp_right List.mem_singleton.mp
    · exact oldFiled k hk
    · obtain ⟨e, he, hcov⟩ := List.any_eq_true.mp cov
      rw [← hb, run_admitted, List.mem_filter] at he
      exact Or.inr ⟨role, pre, [], rfl, e, he.1, he.2, hcov⟩
  · exact ⟨oldPending, oldHeld, h.quiet, oldFiled, old⟩
  · refine ⟨by simp, by simp, by simp, by simp, ?_⟩
    intro i hi
    simp only [List.mem_append, List.mem_singleton] at hi
    obtain (hi | hi) | rfl := hi
    · exact old i hi
    · exact h.block hb.symm pend role i hi
    · exact Or.inl ⟨by simp, by simp [Rules.passes, role]⟩
  · refine ⟨oldPending, ?_, ?_, oldFiled, old⟩
    · intro k hk
      obtain hk | rfl := List.mem_append.mp hk |>.imp_right List.mem_singleton.mp
      · exact oldHeld k hk
      · exact ⟨by simp, role⟩
    · intro (quiet : b.pending = none)
      simp [quiet] at pend
  · refine ⟨oldPending, oldHeld, h.quiet, oldFiled, ?_⟩
    intro i hi
    obtain hi | rfl := List.mem_append.mp hi |>.imp_right List.mem_singleton.mp
    · exact old i hi
    · exact Or.inl ⟨by simp, pass⟩

theorem traced_run (R : Rules L) (ls : List L) : Traced R ls (run R {} ls) := by
  apply run_induction R (Traced R)
  · exact ⟨by simp, by simp, by simp, by simp, by simp⟩
  · exact traced_step R

theorem accounted_of_mem_output {R : Rules L} {ls : List L} {i : Item L}
    (h : i ∈ output R ls) : Accounted R ls i :=
  (traced_run R ls).emitted i h

theorem mem_of_mem_output {R : Rules L} {ls : List L} {i : Item L} (h : i ∈ output R ls) :
    match i with
    | .line l => l ∈ ls
    | .header m adm => m ∈ ls ∧ R.role m = .header ∧ ∀ e ∈ adm, e ∈ ls := by
  have acc := accounted_of_mem_output h
  cases i with
  | line l =>
      obtain ⟨mem, -⟩ | acc := acc
      · exact mem
      · exact acc.mem
  | header m adm =>
      obtain ⟨pre, s, post, rfl, -, pend, rfl⟩ := acc
      have hm := (traced_run R pre).pending m pend
      refine ⟨List.mem_append_left _ hm.1, hm.2, ?_⟩
      intro e he
      exact List.mem_append_left _ (List.mem_filter.mp he).1

end SectionFilter
