import Mathlib.Data.List.Basic
import Wadi.Library.SectionFilterBody

/-!
The order of the output. Passed lines come out in input order, those held back
for a pending header included, as long as nothing is pending at the end. What has
been filed comes out in input order as well, up to what still waits. A header
is pending from its line on until the next header or closing line. Nothing at all
is written exactly when every passed line finds a header in front of it and none
of them closes it.
-/

namespace SectionFilter
universe u v
variable {L : Type u} {M : Type v}

def Rules.passed (R : Rules L) : Item L → Option L
  | .line l => if R.passes l then some l else none
  | .header _ _ => none

private theorem passed_filed {R : Rules L} {ls : List L} {b : Buffers L} (h : Traced R ls b) :
    (b.filed.map Item.line).filterMap R.passed = [] := by
  rw [List.filterMap_eq_nil_iff]
  intro i hi
  obtain ⟨l, hl, rfl⟩ := List.mem_map.mp hi
  simp [Rules.passed, (h.filed l hl).not_passes]

private theorem passed_held {R : Rules L} {ls : List L} {b : Buffers L} (h : Traced R ls b) :
    (b.held.map Item.line).filterMap R.passed = b.held := by
  rw [List.filterMap_map]
  have all : ∀ l ∈ b.held, (R.passed ∘ Item.line) l = some l := by
    intro l hl
    simp [Rules.passed, Rules.passes, (h.held l hl).2]
  rw [List.filterMap_congr all, List.filterMap_some]

/-- What has passed so far is the output together with the held lines. -/
theorem run_passed (R : Rules L) (ls : List L) :
    (run R {} ls).emitted.filterMap R.passed ++ (run R {} ls).held = ls.filter R.passes := by
  apply run_induction R
    (fun pre b => b.emitted.filterMap R.passed ++ b.held = pre.filter R.passes)
  · rfl
  · intro pre l ih
    have traced := traced_run R pre
    generalize run R {} pre = b at ih traced
    rw [List.filter_append, ← ih]
    obtain ⟨role, eq⟩ | ⟨role, -, eq⟩ | ⟨role, -, eq⟩ | ⟨skip, eq⟩ |
      ⟨m, role, -, eq⟩ | ⟨role, -, eq⟩ | ⟨pass, none, eq⟩ := step_cases R b l <;> rw [eq]
    · simp [Rules.passes, role]
    · simp [Rules.passes, role]
    · simp [Rules.passes, role]
    · obtain ⟨role, -⟩ | ⟨role, -⟩ := skip <;> simp [Rules.passes, role]
    · have block : (b.block m).filterMap R.passed = b.held := by
        rw [Buffers.block, List.map_append, List.filterMap_cons, List.filterMap_append,
          passed_held traced, passed_filed traced]
        simp [Rules.passed]
      have pass : R.passes l = true := by simp [Rules.passes, role]
      simp [List.filterMap_append, block, Rules.passed, pass]
    · simp [Rules.passes, role]
    · simp [List.filterMap_append, Rules.passed, pass, traced.quiet none]

/-- Entries and details, the lines that can be filed. -/
def Rules.codec (R : Rules L) (l : L) : Bool := R.role l == .entry || R.role l == .detail

def Rules.codecLine (R : Rules L) : Item L → Option L
  | .line l => if R.codec l then some l else none
  | .header _ _ => none

theorem Accepted.codec {R : Rules L} {ls : List L} {l : L} (h : Accepted R ls l) :
    R.codec l = true := by
  obtain role | role := h.role <;> simp [Rules.codec, role]

theorem codec_of_files {R : Rules L} {adm : List L} {l : L} (h : R.files adm l = true) :
    R.codec l = true := by
  simp only [Rules.files, Rules.admitted, Bool.or_eq_true, Bool.and_eq_true] at h
  obtain ⟨role, -⟩ | ⟨role, -⟩ := h <;> simp [Rules.codec, role]

theorem not_codec_of_passes {R : Rules L} {l : L} (h : R.passes l = true) :
    R.codec l = false := by
  cases role : R.role l <;> simp_all [Rules.codec, Rules.passes]

theorem not_files_of_not_codec {R : Rules L} {l : L} (h : R.codec l = false) (adm : List L) :
    R.files adm l = false := by
  rw [← Bool.not_eq_true]
  intro files
  simp [codec_of_files files] at h

private theorem codec_block {R : Rules L} {ls : List L} {b : Buffers L} (h : Traced R ls b)
    (m : L) : (b.block m).filterMap R.codecLine = b.filed := by
  have held : (b.held.map Item.line).filterMap R.codecLine = [] := by
    rw [List.filterMap_eq_nil_iff]
    intro i hi
    obtain ⟨l, hl, rfl⟩ := List.mem_map.mp hi
    simp [Rules.codecLine, Rules.codec, (h.held l hl).2]
  have filed : ∀ l ∈ b.filed, (R.codecLine ∘ Item.line) l = some l := by
    intro l hl
    simp [Rules.codecLine, (h.filed l hl).codec]
  rw [Buffers.block, List.map_append, List.filterMap_cons, List.filterMap_append, held,
    List.filterMap_map, List.filterMap_congr filed, List.filterMap_some]
  rfl

/-- A line that answers no pending header files at most itself. -/
theorem step_filed {R : Rules L} {b : Buffers L} {l : L}
    (h : R.role l = .closer → b.pending = none) :
    (step R b l).filed = b.filed ++ filing R b.admitted [l] ∧
      (step R b l).emitted.filterMap R.codecLine = b.emitted.filterMap R.codecLine := by
  obtain ⟨role, eq⟩ | ⟨role, adm, eq⟩ | ⟨role, cov, eq⟩ | ⟨skip, eq⟩ |
    ⟨m, role, pend, -⟩ | ⟨role, -, eq⟩ | ⟨pass, -, eq⟩ := step_cases R b l
  · simp [eq, filing, Rules.files, Rules.admitted, role]
  · simp [eq, filing, Rules.files, Rules.admitted, role, adm]
  · simp [eq, filing, Rules.files, role, cov]
  · have skipped : R.files b.admitted l = false := by
      obtain ⟨role, adm⟩ | ⟨role, cov⟩ := skip
      · simp [Rules.files, Rules.admitted, role, adm]
      · simp [Rules.files, Rules.admitted, role, cov]
    simp [eq, filing, skipped]
  · simp [h role] at pend
  · simp [eq, filing, Rules.files, Rules.admitted, role]
  · have coded := not_codec_of_passes pass
    simp [eq, List.filterMap_append, filing, Rules.codecLine, coded,
      not_files_of_not_codec coded]

theorem step_answer {R : Rules L} {b : Buffers L} {m s : L} (hs : R.role s = .closer)
    (hm : b.pending = some m) : step R b s =
      { emitted := b.emitted ++ b.block m ++ [.line s], admitted := b.admitted } := by
  simp [step, hs, hm, Buffers.close, Buffers.pass]

/-- What has been filed so far is written, or waits to be. -/
theorem run_filed (R : Rules L) (ls : List L) :
    (run R {} ls).emitted.filterMap R.codecLine ++ (run R {} ls).filed = filing R [] ls := by
  apply run_induction R
    (fun pre b => b.emitted.filterMap R.codecLine ++ b.filed = filing R [] pre)
  · rfl
  · intro pre l ih
    have traced := traced_run R pre
    have admitted := run_admitted R pre
    generalize run R {} pre = b at ih traced admitted
    rw [filing_append, List.nil_append, ← admitted, ← ih]
    by_cases answers : R.role l = .closer → b.pending = none
    · obtain ⟨filed, emitted⟩ := step_filed answers
      rw [filed, emitted, List.append_assoc]
    · obtain ⟨role, pending⟩ := Classical.not_imp.mp answers
      obtain ⟨m, hm⟩ := Option.ne_none_iff_exists'.mp pending
      have coded : R.codec l = false := by simp [Rules.codec, role]
      simp [step_answer role hm, List.filterMap_append, codec_block traced, filing,
        Rules.codecLine, coded, not_files_of_not_codec coded]

theorem pending_of_no_header (R : Rules L) (b : Buffers L) (hb : b.pending = none)
    (ls : List L) (h : ∀ l ∈ ls, R.role l ≠ .header) : (run R b ls).pending = none := by
  induction ls generalizing b with
  | nil => exact hb
  | cons l ls ih =>
      apply ih _ _ (fun k hk => h k (by simp [hk]))
      obtain ⟨role, -⟩ | ⟨-, -, eq⟩ | ⟨-, -, eq⟩ | ⟨-, eq⟩ |
        ⟨m, -, -, eq⟩ | ⟨-, -, eq⟩ | ⟨-, -, eq⟩ := step_cases R b l
      · exact absurd role (h l (by simp))
      all_goals simp [eq, hb]

theorem pending_after_closer (R : Rules L) (b : Buffers L) {s : L}
    (hs : R.role s = .closer) : (step R b s).pending = none := by
  cases hp : b.pending <;> simp [step, hs, Buffers.close, Buffers.pass, hp]

theorem pending_of_closed (R : Rules L) (pre post : List L) (s : L)
    (hs : R.role s = .closer) (h : ∀ l ∈ post, R.role l ≠ .header) :
    (run R {} (pre ++ s :: post)).pending = none := by
  rw [run_append, run_cons]
  exact pending_of_no_header R _ (pending_after_closer R _ hs) post h

/-- A header is pending when it is the last one and nothing has closed it. -/
theorem pending_eq_some_iff {R : Rules L} {ls : List L} {m : L} :
    (run R {} ls).pending = some m ↔ ∃ a c, ls = a ++ m :: c ∧ R.role m = .header ∧
      ∀ l ∈ c, R.role l ≠ .header ∧ R.role l ≠ .closer := by
  constructor
  · apply run_induction R (fun pre b => b.pending = some m → ∃ a c, pre = a ++ m :: c ∧
      R.role m = .header ∧ ∀ l ∈ c, R.role l ≠ .header ∧ R.role l ≠ .closer)
    · intro h
      cases h
    · intro pre l ih
      generalize run R {} pre = b at ih
      have extend (role : R.role l ≠ .header ∧ R.role l ≠ .closer) (h : b.pending = some m) :
          ∃ a c, pre ++ [l] = a ++ m :: c ∧ R.role m = .header ∧
            ∀ k ∈ c, R.role k ≠ .header ∧ R.role k ≠ .closer := by
        obtain ⟨a, c, rfl, hm, hc⟩ := ih h
        refine ⟨a, c ++ [l], by simp, hm, ?_⟩
        intro k hk
        obtain hk | rfl := List.mem_append.mp hk |>.imp_right List.mem_singleton.mp
        · exact hc k hk
        · exact role
      obtain ⟨role, eq⟩ | ⟨role, -, eq⟩ | ⟨role, -, eq⟩ | ⟨skip, eq⟩ |
        ⟨k, -, -, eq⟩ | ⟨role, -, eq⟩ | ⟨-, none, eq⟩ := step_cases R b l <;> rw [eq]
      · rintro ⟨rfl⟩
        exact ⟨pre, [], rfl, role, by simp⟩
      · exact extend (by simp [role])
      · exact extend (by simp [role])
      · exact extend (by obtain ⟨role, -⟩ | ⟨role, -⟩ := skip <;> simp [role])
      · intro h
        cases h
      · exact extend (by simp [role])
      · intro (h : b.pending = some m)
        rw [none] at h
        cases h
  · rintro ⟨a, c, rfl, hm, hc⟩
    have opened : (step R (run R {} a) m).pending = some m := by simp [step, hm]
    have inner : ∀ l ∈ c, R.inner l = true := fun l hl => inner_iff.mpr (hc l hl)
    rw [run_append, run_cons, run_inner R _ m opened c inner]
    exact opened

/-- All passed lines are written when nothing is pending at the end. -/
theorem output_passed (R : Rules L) (ls : List L) (h : (run R {} ls).pending = none) :
    (output R ls).filterMap R.passed = ls.filter R.passes := by
  have all := run_passed R ls
  rwa [(traced_run R ls).quiet h, List.append_nil] at all

/-- Output is only ever added to. -/
theorem emitted_grows (R : Rules L) (b : Buffers L) (ls : List L) :
    b.emitted <+: (run R b ls).emitted := by
  induction ls generalizing b with
  | nil => exact List.prefix_rfl
  | cons l ls ih =>
      have one : b.emitted <+: (step R b l).emitted := by
        obtain ⟨-, eq⟩ | ⟨-, -, eq⟩ | ⟨-, -, eq⟩ | ⟨-, eq⟩ |
          ⟨m, -, -, eq⟩ | ⟨-, -, eq⟩ | ⟨-, -, eq⟩ := step_cases R b l <;> simp [eq]
      exact one.trans (ih (step R b l))

/-- Every passed line finds a header in front of it and none of them closes it. -/
def Silent (R : Rules L) (ls : List L) : Prop :=
  ∀ pre l post, ls = pre ++ l :: post → R.passes l = true →
    (∃ k ∈ pre, R.role k = .header) ∧ R.role l ≠ .closer

theorem silent_of_output_nil (R : Rules L) (ls : List L) (h : output R ls = []) :
    Silent R ls := by
  intro pre l post split pass
  have traced := traced_run R pre
  have early : (step R (run R {} pre) l).emitted = [] := by
    have grows := emitted_grows R (step R (run R {} pre) l) post
    have whole : (run R {} ls).emitted = [] := h
    rw [← run_cons, ← run_append, ← split, whole] at grows
    exact List.prefix_nil.mp grows
  generalize run R {} pre = b at traced early
  obtain ⟨role, -⟩ | ⟨role, -⟩ | ⟨role, -⟩ | ⟨skip, -⟩ |
    ⟨m, -, -, eq⟩ | ⟨role, pend, -⟩ | ⟨-, -, eq⟩ := step_cases R b l
  · simp [Rules.passes, role] at pass
  · simp [Rules.passes, role] at pass
  · simp [Rules.passes, role] at pass
  · obtain ⟨role, -⟩ | ⟨role, -⟩ := skip <;> simp [Rules.passes, role] at pass
  · simp [eq] at early
  · obtain ⟨m, hm⟩ := Option.isSome_iff_exists.mp pend
    exact ⟨⟨m, traced.pending m hm⟩, by simp [role]⟩
  · simp [eq] at early

theorem output_nil_of_silent (R : Rules L) (ls : List L) (h : Silent R ls) :
    output R ls = [] := by
  have all := run_induction R (fun pre b => Silent R pre →
    b.emitted = [] ∧ (b.pending = none → ∀ k ∈ pre, R.role k ≠ .header))
    (by simp) ?_ ls
  · exact (all h).1
  · intro pre l ih silent
    have before : Silent R pre := by
      rintro a k c rfl pass
      exact silent a k (c ++ [l]) (by simp) pass
    obtain ⟨empty, quiet⟩ := ih before
    have here := silent pre l [] rfl
    generalize run R {} pre = b at empty quiet
    have keep (role : R.role l ≠ .header) :
        b.pending = none → ∀ k ∈ pre ++ [l], R.role k ≠ .header := by
      intro none k hk
      obtain hk | rfl := List.mem_append.mp hk |>.imp_right List.mem_singleton.mp
      · exact quiet none k hk
      · exact role
    obtain ⟨-, eq⟩ | ⟨role, -, eq⟩ | ⟨role, -, eq⟩ | ⟨skip, eq⟩ |
      ⟨m, role, -, -⟩ | ⟨role, -, eq⟩ | ⟨pass, none, -⟩ := step_cases R b l
    · simp [eq, empty]
    · rw [eq]
      exact ⟨empty, keep (by simp [role])⟩
    · rw [eq]
      exact ⟨empty, keep (by simp [role])⟩
    · rw [eq]
      exact ⟨empty, keep (by obtain ⟨role, -⟩ | ⟨role, -⟩ := skip <;> simp [role])⟩
    · exact absurd role (here (by simp [Rules.passes, role])).2
    · rw [eq]
      exact ⟨empty, keep (by simp [role])⟩
    · obtain ⟨⟨k, hk, role⟩, -⟩ := here pass
      exact absurd role (quiet none k hk)

theorem exists_line_of_output (R : Rules L) (ls : List L) :
    output R ls = [] ∨ ∃ l, .line l ∈ output R ls := by
  apply run_induction R (fun _ b => b.emitted = [] ∨ ∃ l, Item.line l ∈ b.emitted)
  · exact Or.inl rfl
  · intro pre l ih
    generalize run R {} pre = b at ih
    obtain ⟨-, eq⟩ | ⟨-, -, eq⟩ | ⟨-, -, eq⟩ | ⟨-, eq⟩ |
      ⟨m, -, -, eq⟩ | ⟨-, -, eq⟩ | ⟨-, -, eq⟩ := step_cases R b l <;> rw [eq]
    · exact ih
    · exact ih
    · exact ih
    · exact ih
    · exact Or.inr ⟨l, by simp⟩
    · exact ih
    · exact Or.inr ⟨l, by simp⟩

end SectionFilter
