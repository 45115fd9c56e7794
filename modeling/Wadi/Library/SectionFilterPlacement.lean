import Wadi.Library.SectionFilterOrder

/-!
Where filed lines are written. An input is divided into sections that begin at
media lines; headers are media lines, and so may be passed lines. A filed line is
in place when the last media line in front of it in the output belongs to its
own section.

If every header finds a closing line in its section, all filed lines are written
and in place exactly when each was filed with a header pending. One that was not is
taken along by a later header, or lost if there is none.
-/

namespace SectionFilter
universe u v
variable {L : Type u} {S : Type v}

section
variable (R : Rules L) (media : L → Bool) (sec : L → S)

/-- A media line starts a section of its own, any other line belongs to the
section of the line in front of it. -/
structure Sectioned (ls : List L) : Prop where
  header : ∀ l ∈ ls, R.role l = .header → media l = true
  codec : ∀ l ∈ ls, R.codec l = true → media l = false
  fresh : ∀ p y q, ls = p ++ y :: q → media y = true → ∀ x ∈ p, sec x ≠ sec y
  same : ∀ p x y q, ls = p ++ x :: y :: q → media y = false → sec y = sec x

/-- Every header is closed inside its section. -/
def ClosedSections (ls : List L) : Prop :=
  ∀ p m q, ls = p ++ m :: q → R.role m = .header → ∃ c s d, q = c ++ s :: d ∧
    R.role s = .closer ∧ media s = false ∧ ∀ l ∈ c, media l = false ∧ R.role l ≠ .closer

/-- A line that will be filed has a header pending. -/
def FiledInside (ls : List L) : Prop :=
  ∀ p l q, ls = p ++ l :: q → R.files (p.filter R.admitted) l = true →
    (run R {} p).pending ≠ none

/-- Codec lines stand in their section, when the section before is `cur`. -/
def Placed : Option S → List (Item L) → Prop
  | _, [] => True
  | _, .header m _ :: items => Placed (some (sec m)) items
  | cur, .line l :: items =>
      (R.codec l = true → cur = some (sec l)) ∧
        Placed (if media l then some (sec l) else cur) items

def sectionAfter : Option S → List (Item L) → Option S
  | cur, [] => cur
  | _, .header m _ :: items => sectionAfter (some (sec m)) items
  | cur, .line l :: items => sectionAfter (if media l then some (sec l) else cur) items

variable {R media sec}

theorem placed_append (cur : Option S) (xs ys : List (Item L)) :
    Placed R media sec cur (xs ++ ys) ↔
      Placed R media sec cur xs ∧ Placed R media sec (sectionAfter media sec cur xs) ys := by
  induction xs generalizing cur with
  | nil => simp [Placed, sectionAfter]
  | cons x xs ih =>
      cases x with
      | header m adm => exact ih (some (sec m))
      | line l => simp only [List.cons_append, Placed, sectionAfter, ih, and_assoc]

theorem placed_lines (cur : S) (ls : List L) (h : ∀ l ∈ ls, media l = false) :
    Placed R media sec (some cur) (ls.map .line) ↔
      ∀ l ∈ ls, R.codec l = true → sec l = cur := by
  induction ls with
  | nil => simp [Placed]
  | cons l ls ih =>
      have hl := h l (by simp)
      have rest := ih (fun k hk => h k (by simp [hk]))
      simp only [List.map_cons, Placed, hl, rest, List.forall_mem_cons, Bool.false_eq_true,
        if_false, Option.some.injEq, eq_comm]

/-- Nothing is pending when a new section starts. -/
theorem ClosedSections.quiet {ls : List L} (h : ClosedSections R media ls) {p q : List L} {x : L}
    (split : ls = p ++ x :: q) (hx : media x = true) : (run R {} p).pending = none := by
  rw [Option.eq_none_iff_forall_not_mem]
  intro m hm
  obtain ⟨a, c, rfl, role, inner⟩ := pending_eq_some_iff.mp hm
  obtain ⟨c', s, d, same, hs, ms, hc⟩ := h a m (c ++ x :: q) (by simpa using split) role
  obtain ⟨e, rfl, tail⟩ | ⟨e, rfl, tail⟩ := List.append_eq_append_iff.mp same
  · cases e with
    | nil =>
        obtain ⟨rfl, -⟩ := List.cons.inj tail
        simp [hx] at ms
    | cons y e =>
        obtain ⟨rfl, -⟩ := List.cons.inj tail
        have := (hc x (by simp)).1
        simp [hx] at this
  · cases e with
    | nil =>
        obtain ⟨rfl, -⟩ := List.cons.inj tail
        simp [hx] at ms
    | cons y e =>
        obtain ⟨rfl, -⟩ := List.cons.inj tail
        exact (inner s (by simp)).2 hs

theorem ClosedSections.quiet_end {ls : List L} (h : ClosedSections R media ls) :
    (run R {} ls).pending = none := by
  rw [Option.eq_none_iff_forall_not_mem]
  intro m hm
  obtain ⟨a, c, rfl, role, inner⟩ := pending_eq_some_iff.mp hm
  obtain ⟨c', s, d, rfl, hs, -, -⟩ := h a m c rfl role
  exact (inner s (by simp)).2 hs

variable (R media sec)

/-- Filed lines belong to the section of the pending header. Those filed with
nothing pending are remembered with the place they stood at. -/
structure Settled (pre : List L) (b : Buffers L) : Prop where
  placed : Placed R media sec none b.emitted
  held : ∀ l ∈ b.held, media l = false
  current : ∀ m, b.pending = some m → ∃ p x, pre = p ++ [x] ∧ sec x = sec m
  inside : ∀ m, b.pending = some m → ∀ l ∈ b.filed, sec l = sec m
  outside : b.pending = none → ∀ l ∈ b.filed, ∃ p q, pre = p ++ l :: q ∧
    R.files (p.filter R.admitted) l = true ∧ (run R {} p).pending = none

variable {R media sec}

theorem Settled.current_next {ls pre post : List L} {l : L} {b : Buffers L}
    (h : Settled R media sec pre b) (sections : Sectioned R media sec ls)
    (split : ls = pre ++ l :: post) (hl : media l = false) {m : L} (hm : b.pending = some m) :
    sec l = sec m := by
  obtain ⟨p, x, rfl, hx⟩ := h.current m hm
  rw [sections.same p x l post (by simpa using split) hl, hx]

theorem Settled.outside_next {pre : List L} {b : Buffers L} (h : Settled R media sec pre b)
    (none : b.pending = none) (l : L) : ∀ k ∈ b.filed, ∃ p q, pre ++ [l] = p ++ k :: q ∧
      R.files (p.filter R.admitted) k = true ∧ (run R {} p).pending = Option.none := by
  intro k hk
  obtain ⟨p, q, rfl, rest⟩ := h.outside none k hk
  exact ⟨p, q ++ [l], by simp, rest⟩

theorem Settled.file {ls pre post : List L} {l : L} (h : Settled R media sec pre (run R {} pre))
    (sections : Sectioned R media sec ls) (split : ls = pre ++ l :: post)
    (files : R.files (pre.filter R.admitted) l = true) (adm : List L) :
    Settled R media sec (pre ++ [l])
      { run R {} pre with filed := (run R {} pre).filed ++ [l], admitted := adm } := by
  have hl := sections.codec l (by simp [split]) (codec_of_files files)
  refine ⟨h.placed, h.held, ?_, ?_, ?_⟩
  · intro m hm
    exact ⟨pre, l, rfl, h.current_next sections split hl hm⟩
  · intro m hm k hk
    obtain hk | rfl := List.mem_append.mp hk |>.imp_right List.mem_singleton.mp
    · exact h.inside m hm k hk
    · exact h.current_next sections split hl hm
  · intro none k hk
    obtain hk | rfl := List.mem_append.mp hk |>.imp_right List.mem_singleton.mp
    · exact h.outside_next none l k hk
    · exact ⟨pre, [], rfl, files, none⟩

theorem Settled.block {pre : List L} {b : Buffers L} {m : L} (h : Settled R media sec pre b)
    (traced : Traced R pre b) (codec : ∀ l ∈ pre, R.codec l = true → media l = false)
    (hm : b.pending = some m) : Placed R media sec none (b.emitted ++ b.block m) := by
  rw [placed_append]
  refine ⟨h.placed, ?_⟩
  rw [Buffers.block, Placed, placed_lines]
  · intro l hl coded
    obtain hl | hl := List.mem_append.mp hl
    · simp [Rules.codec, (traced.held l hl).2] at coded
    · exact h.inside m hm l hl
  · intro l hl
    obtain hl | hl := List.mem_append.mp hl
    · exact h.held l hl
    · have acc := traced.filed l hl
      exact codec l acc.mem acc.codec

theorem placed_concat {items : List (Item L)} {l : L} (h : Placed R media sec none items)
    (hl : R.passes l = true) : Placed R media sec none (items ++ [.line l]) := by
  rw [placed_append]
  refine ⟨h, ?_, trivial⟩
  intro coded
  simp [not_codec_of_passes hl] at coded

theorem Settled.filed_nil {ls pre : List L} (h : Settled R media sec pre (run R {} pre))
    (filed : FiledInside R ls) (front : pre <+: ls)
    (none : (run R {} pre).pending = none) : (run R {} pre).filed = [] := by
  rw [List.eq_nil_iff_forall_not_mem]
  intro k hk
  obtain ⟨p, q, rfl, files, quiet⟩ := h.outside none k hk
  obtain ⟨post, split⟩ := front
  exact filed p k (q ++ post) (by simp [← split]) files quiet

theorem settled_step {ls pre post : List L} {l : L} (sections : Sectioned R media sec ls)
    (closed : ClosedSections R media ls) (filed : FiledInside R ls)
    (split : ls = pre ++ l :: post) (h : Settled R media sec pre (run R {} pre)) :
    Settled R media sec (pre ++ [l]) (step R (run R {} pre) l) := by
  have traced := traced_run R pre
  have admitted := run_admitted R pre
  have codec : ∀ k ∈ pre, R.codec k = true → media k = false :=
    fun k hk => sections.codec k (by simp [split, hk])
  obtain ⟨role, eq⟩ | ⟨role, adm, eq⟩ | ⟨role, cov, eq⟩ | ⟨skip, eq⟩ |
    ⟨m, role, pend, eq⟩ | ⟨role, pend, eq⟩ | ⟨pass, none, eq⟩ :=
    step_cases R (run R {} pre) l <;> rw [eq]
  · have hl := sections.header l (by simp [split]) role
    have none := closed.quiet split hl
    have empty := h.filed_nil filed ⟨_, split.symm⟩ none
    refine ⟨h.placed, h.held, ?_, by simp [empty], by simp⟩
    intro m hm
    exact ⟨pre, l, rfl, congrArg sec (Option.some.inj hm)⟩
  · exact h.file sections split (by simp [Rules.files, Rules.admitted, role, adm]) _
  · refine h.file sections split ?_ (run R {} pre).admitted
    rw [admitted] at cov
    simp [Rules.files, role, cov]
  · have coded : R.codec l = true := by
      obtain ⟨role, -⟩ | ⟨role, -⟩ := skip <;> simp [Rules.codec, role]
    have hl := sections.codec l (by simp [split]) coded
    exact ⟨h.placed, h.held, fun m hm => ⟨pre, l, rfl, h.current_next sections split hl hm⟩,
      h.inside, fun none => h.outside_next none l⟩
  · refine ⟨?_, by simp, by simp, by simp, by simp⟩
    exact placed_concat (h.block traced codec pend) (by simp [Rules.passes, role])
  · have hl : media l = false := by
      rw [← Bool.not_eq_true]
      intro hl
      simp [closed.quiet split hl] at pend
    refine ⟨h.placed, ?_, fun m hm => ⟨pre, l, rfl, h.current_next sections split hl hm⟩,
      h.inside, fun none => h.outside_next none l⟩
    intro k hk
    obtain hk | rfl := List.mem_append.mp hk |>.imp_right List.mem_singleton.mp
    · exact h.held k hk
    · exact hl
  · refine ⟨placed_concat h.placed pass, h.held, ?_, ?_, fun _ => h.outside_next none l⟩
    · intro m (hm : (run R {} pre).pending = some m)
      rw [none] at hm
      cases hm
    · intro m (hm : (run R {} pre).pending = some m)
      rw [none] at hm
      cases hm

theorem settled_run {ls : List L} (sections : Sectioned R media sec ls)
    (closed : ClosedSections R media ls) (filed : FiledInside R ls) :
    Settled R media sec ls (run R {} ls) := by
  have all := run_induction R
    (fun pre b => ∀ post, ls = pre ++ post → Settled R media sec pre b) ?_ ?_ ls
  · exact all [] (by simp)
  · intro _ _
    exact ⟨trivial, by simp, by simp, by simp, by simp⟩
  · intro pre l ih post split
    rw [List.append_assoc] at split
    exact settled_step sections closed filed split (ih _ split)

/-- With nothing pending, filed lines wait for the next header. -/
theorem filed_stays {b : Buffers L} (quiet : b.pending = none) (ls : List L)
    (h : ∀ l ∈ ls, R.role l ≠ .header) : b.filed ⊆ (run R b ls).filed := by
  induction ls generalizing b with
  | nil => exact List.Subset.refl _
  | cons l ls ih =>
      have role := h l (by simp)
      have rest : ∀ k ∈ ls, R.role k ≠ .header := fun k hk => h k (by simp [hk])
      have still : (step R b l).pending = none :=
        pending_of_no_header R b quiet [l] (by simpa using role)
      have kept : b.filed ⊆ (step R b l).filed := by
        obtain ⟨-, eq⟩ | ⟨-, -, eq⟩ | ⟨-, -, eq⟩ | ⟨-, eq⟩ |
          ⟨m, -, pend, -⟩ | ⟨-, -, eq⟩ | ⟨-, -, eq⟩ := step_cases R b l
        case inr.inr.inr.inr.inl => simp [quiet] at pend
        all_goals simp [eq]
      exact List.Subset.trans kept (ih still rest)

theorem mem_filed_of_files {pre : List L} {l : L}
    (files : R.files (pre.filter R.admitted) l = true) :
    l ∈ (step R (run R {} pre) l).filed := by
  have admitted := run_admitted R pre
  obtain ⟨role, -⟩ | ⟨-, -, eq⟩ | ⟨-, -, eq⟩ | ⟨skip, -⟩ |
    ⟨m, role, -, -⟩ | ⟨role, -, -⟩ | ⟨pass, -, -⟩ := step_cases R (run R {} pre) l
  · simp [Rules.files, Rules.admitted, role] at files
  · simp [eq]
  · simp [eq]
  · rw [admitted] at skip
    obtain ⟨role, adm⟩ | ⟨role, cov⟩ := skip
    · simp [Rules.files, Rules.admitted, role, adm] at files
    · simp [Rules.files, Rules.admitted, role, cov] at files
  · simp [Rules.files, Rules.admitted, role] at files
  · simp [Rules.files, Rules.admitted, role] at files
  · have coded := codec_of_files files
    cases role : R.role l <;> simp_all [Rules.codec, Rules.passes]

theorem mem_filed_of_outside {p q : List L} {l : L}
    (files : R.files (p.filter R.admitted) l = true) (quiet : (run R {} p).pending = none)
    (noHeader : ∀ k ∈ q, R.role k ≠ .header) : l ∈ (run R {} (p ++ l :: q)).filed := by
  have role : R.role l ≠ .header := by
    intro role
    have coded := codec_of_files files
    simp [Rules.codec, role] at coded
  have after : (step R (run R {} p) l).pending = none :=
    pending_of_no_header R _ quiet [l] (by simpa using role)
  rw [run_append, run_cons]
  exact filed_stays after q noHeader (mem_filed_of_files files)

theorem run_section {p c : List L} {m : L} (header : R.role m = .header)
    (inner : ∀ k ∈ c, R.role k ≠ .header ∧ R.role k ≠ .closer)
    (quiet : (run R {} p).pending = none) :
    (run R {} (p ++ m :: c)).pending = some m ∧
      (run R {} (p ++ m :: c)).held = c.filter (fun l => R.role l == .plain) ∧
      (run R {} p).filed ⊆ (run R {} (p ++ m :: c)).filed := by
  have lines : ∀ k ∈ c, R.inner k = true := fun k hk => inner_iff.mpr (inner k hk)
  have opened : step R (run R {} p) m = { run R {} p with pending := some m } := by
    simp [step, header]
  rw [run_append, run_cons, opened, run_inner R _ m rfl c lines]
  exact ⟨rfl, by simp [(traced_run R p).quiet quiet], List.subset_append_left _ _⟩

theorem placed_block_of_output {ls p d : List L} {m s : L}
    (h : Placed R media sec none (output R ls)) (split : ls = p ++ s :: d)
    (role : R.role s = .closer) (pend : (run R {} p).pending = some m)
    (quiet : ∀ l ∈ (run R {} p).held ++ (run R {} p).filed, media l = false) :
    ∀ l ∈ (run R {} p).filed, R.codec l = true → sec l = sec m := by
  have written : (step R (run R {} p) s).emitted =
      (run R {} p).emitted ++ ((run R {} p).block m ++ [.line s]) := by
    simp [step, role, Buffers.close, Buffers.pass, pend]
  obtain ⟨rest, grown⟩ := emitted_grows R (step R (run R {} p) s) d
  rw [output, split, run_append, run_cons, ← grown, written] at h
  have block := ((placed_append _ _ _).mp ((placed_append _ _ _).mp h).1).2
  have lines := ((placed_append _ _ _).mp block).1
  rw [Buffers.block, Placed, placed_lines _ _ quiet] at lines
  exact fun l hl => lines l (List.mem_append_right _ hl)

/-- A line filed with nothing pending is written in the section of a later header. -/
theorem not_placed_of_outside {ls p q : List L} {l : L} (sections : Sectioned R media sec ls)
    (closed : ClosedSections R media ls) (split : ls = p ++ l :: q)
    (files : R.files (p.filter R.admitted) l = true) (quiet : (run R {} p).pending = none)
    (behind : ∃ m ∈ q, R.role m = .header) : ¬ Placed R media sec none (output R ls) := by
  intro h
  obtain ⟨m, found⟩ := Option.isSome_iff_exists.mp
    (List.find?_isSome (p := fun k => R.role k == .header).mpr (by simpa using behind))
  obtain ⟨role, q₁, q₂, rfl, before⟩ := List.find?_eq_some_iff_append.mp found
  have header : R.role m = .header := by simpa using role
  have noHeader : ∀ k ∈ l :: q₁, R.role k ≠ .header := by
    have coded := codec_of_files files
    refine List.forall_mem_cons.mpr ⟨?_, by simpa using before⟩
    intro role
    simp [Rules.codec, role] at coded
  obtain ⟨c, s, d, rfl, hs, -, hc⟩ := closed (p ++ l :: q₁) m q₂ (by simpa using split) header
  have inner : ∀ k ∈ c, R.role k ≠ .header ∧ R.role k ≠ .closer := by
    intro k hk
    refine ⟨fun role => ?_, (hc k hk).2⟩
    have := sections.header k (by simp [split, hk]) role
    simp [(hc k hk).1] at this
  have still : (run R {} (p ++ l :: q₁)).pending = none := by
    rw [run_append]
    exact pending_of_no_header R _ quiet _ noHeader
  have filed : l ∈ (run R {} (p ++ l :: q₁)).filed :=
    mem_filed_of_outside files quiet (fun k hk => noHeader k (by simp [hk]))
  have shape := run_section header inner still
  have closing : ls = (p ++ l :: q₁ ++ m :: c) ++ s :: d := by simpa using split
  have traced := traced_run R (p ++ l :: q₁ ++ m :: c)
  have out := placed_block_of_output h closing hs shape.1 ?_ l (shape.2.2 filed)
    (codec_of_files files)
  · refine sections.fresh (p ++ l :: q₁) m (c ++ s :: d) (by simpa using split) ?_ l (by simp) out
    exact sections.header m (by simp [split]) header
  · intro k hk
    obtain hk | hk := List.mem_append.mp hk
    · rw [shape.2.1] at hk
      exact (hc k (List.mem_filter.mp hk).1).1
    · have acc := traced.filed k hk
      exact sections.codec k (by rw [closing]; exact List.mem_append_left _ acc.mem) acc.codec

theorem filedInside_of_written {ls : List L} (sections : Sectioned R media sec ls)
    (closed : ClosedSections R media ls) (h : Placed R media sec none (output R ls))
    (all : (output R ls).filterMap R.codecLine = filing R [] ls) : FiledInside R ls := by
  rintro p l q rfl files quiet
  by_cases behind : ∃ m ∈ q, R.role m = .header
  · exact not_placed_of_outside sections closed rfl files quiet behind h
  · have waits := mem_filed_of_outside files quiet
      (fun k hk role => behind ⟨k, hk, role⟩)
    have none : (run R {} (p ++ l :: q)).filed = [] := by
      have filed := run_filed R (p ++ l :: q)
      rw [← all] at filed
      exact List.append_right_eq_self.mp filed
    simp [none] at waits

/-- Filed lines are all written, and in their own section, exactly when each was
filed with a header pending. -/
theorem placed_iff {ls : List L} (sections : Sectioned R media sec ls)
    (closed : ClosedSections R media ls) :
    Placed R media sec none (output R ls) ∧
        (output R ls).filterMap R.codecLine = filing R [] ls ↔ FiledInside R ls := by
  constructor
  · rintro ⟨placed, all⟩
    exact filedInside_of_written sections closed placed all
  · intro filed
    have settled := settled_run sections closed filed
    have none := settled.filed_nil filed List.prefix_rfl closed.quiet_end
    refine ⟨settled.placed, ?_⟩
    rw [← run_filed, none, List.append_nil]
    rfl

end

end SectionFilter
