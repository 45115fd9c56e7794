import Wadi.Library.SectionFilterBody

/-!
Two section filters in a row. The second one reads the lines the first one
wrote, so it must recognise a rewritten header as a header, and rewriting must
not depend on an earlier rewriting. Then filtering with one test of entries and
again with another is filtering once with both.

The second filter sees nothing while the first one holds a section back. The
invariant therefore compares the single filter with what the second one would
do to the lines the first one still keeps.
-/

namespace SectionFilter
universe u
variable {L : Type u}

def Rules.admitting (R : Rules L) (p : L → Bool) : Rules L := { R with admits := p }

@[simp] theorem admitting_role (R : Rules L) (p : L → Bool) : (R.admitting p).role = R.role :=
  rfl

@[simp] theorem admitting_admits (R : Rules L) (p : L → Bool) : (R.admitting p).admits = p :=
  rfl

@[simp] theorem admitting_covers (R : Rules L) (p : L → Bool) :
    (R.admitting p).covers = R.covers :=
  rfl

theorem admitting_admitted (R : Rules L) (p : L → Bool) (l : L) :
    (R.admitting p).admitted l = (R.role l == .entry && p l) :=
  rfl

/-- The line an item becomes, given how headers are rewritten. -/
def Item.render (write : L → List L → L) : Item L → L
  | .line l => l
  | .header m adm => write m adm

/-- Rewriting a header gives a header that remembers no earlier rewriting. -/
structure Rewrites (R : Rules L) (write : L → List L → L) (m : L) : Prop where
  header : ∀ es, R.role (write m es) = .header
  again : ∀ es es', write (write m es) es' = write m es'

section
variable (R : Rules L) (a b : L → Bool) (write : L → List L → L)

/-- `x` has filtered with `a`, `y` has read the output of `x` and filtered with
`b`, and `z` has filtered the input once with both. -/
structure Composed (x y z : Buffers L) : Prop where
  idle : y.pending = none ∧ y.held = [] ∧ y.filed = []
  pending : z.pending = x.pending
  held : z.held = x.held
  filed : z.filed = filing (R.admitting b) y.admitted x.filed
  admitted : z.admitted = y.admitted ++ x.filed.filter (R.admitting b).admitted
  emitted : z.emitted.map (Item.render write) = y.emitted.map (Item.render write)

variable {R a b write}

theorem filing_plain (adm ls : List L) (h : ∀ l ∈ ls, R.role l = .plain) :
    filing R adm ls = [] ∧ ls.filter R.admitted = [] := by
  induction ls generalizing adm with
  | nil => exact ⟨rfl, rfl⟩
  | cons l ls ih =>
      have role := h l (by simp)
      have rest := ih adm (fun k hk => h k (by simp [hk]))
      have admitted : R.admitted l = false := by simp [Rules.admitted, role]
      simp [filing, Rules.files, role, admitted, rest]

/-- Reading a written block leaves the second filter with the same block,
rewritten with its own entries. -/
theorem run_block {x y : Buffers L} {m s : L}
    (idle : y.pending = none ∧ y.held = [] ∧ y.filed = [])
    (header : R.role (write m x.admitted) = .header) (held : ∀ l ∈ x.held, R.role l = .plain)
    (filed : ∀ l ∈ x.filed, R.role l = .entry ∨ R.role l = .detail)
    (closer : R.role s = .closer) :
    run R y ((x.block m ++ [Item.line s]).map (Item.render write)) =
      { emitted := y.emitted ++
          .header (write m x.admitted) (y.admitted ++ x.filed.filter R.admitted) ::
          (x.held ++ filing R y.admitted x.filed).map .line ++ [.line s],
        admitted := y.admitted ++ x.filed.filter R.admitted } := by
  have lines : (x.block m ++ [Item.line s]).map (Item.render write) =
      write m x.admitted :: (x.held ++ x.filed) ++ [s] := by
    simp [Buffers.block, Item.render, Function.comp_def]
  have inner : ∀ l ∈ x.held ++ x.filed, R.inner l = true := by
    intro l hl
    obtain hl | hl := List.mem_append.mp hl
    · simp [Rules.inner, held l hl]
    · obtain role | role := filed l hl <;> simp [Rules.inner, role]
  have plain : (x.held ++ x.filed).filter (fun l => R.role l == .plain) = x.held := by
    rw [List.filter_append, List.filter_eq_self.mpr (by simpa using held),
      List.filter_eq_nil_iff.mpr, List.append_nil]
    intro l hl
    obtain role | role := filed l hl <;> simp [role]
  have opened : step R y (write m x.admitted) =
      { y with pending := some (write m x.admitted) } := by
    simp [step, header]
  rw [lines, List.cons_append, run_cons, opened, run_append,
    run_inner R _ _ rfl _ inner, plain, filing_append, List.filter_append,
    (filing_plain y.admitted x.held held).1, (filing_plain y.admitted x.held held).2]
  simp [step, closer, Buffers.close, Buffers.pass, Buffers.block, idle]

/-- A line the first filter files is filed by the single filter exactly when the
second filter would file it later. -/
theorem Composed.file {x y z : Buffers L} (h : Composed R b write x y z) (l : L) (adm : List L) :
    Composed R b write { x with filed := x.filed ++ [l], admitted := adm } y
      { z with
        filed := z.filed ++ filing (R.admitting b) z.admitted [l]
        admitted := z.admitted ++ [l].filter (R.admitting b).admitted } := by
  refine ⟨h.idle, h.pending, h.held, ?_, ?_, h.emitted⟩
  · rw [filing_append, ← h.filed, ← h.admitted]
  · rw [List.filter_append, ← List.append_assoc, ← h.admitted]

theorem composed_entry {x y z : Buffers L} (h : Composed R b write x y z) {l : L}
    (role : R.role l = .entry) :
    Composed R b write (step (R.admitting a) x l) y
      (step (R.admitting fun k => a k && b k) z l) := by
  cases ha : a l with
  | false => simpa [step, role, ha] using h
  | true =>
      have filed := h.file l (x.admitted ++ [l])
      cases hb : b l <;>
        simpa [step, role, ha, hb, filing, Rules.files, admitting_admitted] using filed

theorem composed_detail {x y z : Buffers L} (h : Composed R b write x y z) {l : L}
    (role : R.role l = .detail) (fewer : z.admitted ⊆ x.admitted) :
    Composed R b write (step (R.admitting a) x l) y
      (step (R.admitting fun k => a k && b k) z l) := by
  cases hx : x.admitted.any (R.covers · l) with
  | false =>
      have hz : z.admitted.any (R.covers · l) = false := by
        rw [List.any_eq_false] at hx ⊢
        exact fun e he => hx e (fewer he)
      simpa [step, role, hx, hz] using h
  | true =>
      have filed := h.file l x.admitted
      cases hz : z.admitted.any (R.covers · l) <;>
        simpa [step, role, hx, hz, filing, Rules.files, admitting_admitted] using filed

theorem composed_pass {x y z : Buffers L} (h : Composed R b write x y z) {l : L}
    (pass : R.passes l = true) (quiet : x.pending = none) :
    ∃ new, (step (R.admitting a) x l).emitted = x.emitted ++ new ∧
      Composed R b write (step (R.admitting a) x l)
        (run (R.admitting b) y (new.map (Item.render write)))
        (step (R.admitting fun k => a k && b k) z l) := by
  have one (p : L → Bool) (w : Buffers L) (hw : w.pending = none) :
      run (R.admitting p) w [l] = { w with emitted := w.emitted ++ [.line l] } :=
    run_passes (R.admitting p) w hw [l] (by
      intro k hk
      rw [List.mem_singleton.mp hk]
      exact pass)
  have hx : step (R.admitting a) x l = { x with emitted := x.emitted ++ [.line l] } :=
    one a x quiet
  have hz : step (R.admitting fun k => a k && b k) z l =
      { z with emitted := z.emitted ++ [.line l] } :=
    one _ z (h.pending.trans quiet)
  refine ⟨[.line l], by rw [hx], ?_⟩
  rw [hx, hz, List.map_singleton, Item.render, one b y h.idle.1]
  exact ⟨h.idle, h.pending, h.held, h.filed, h.admitted, by simp [h.emitted]⟩

theorem composed_step {x y z : Buffers L} (h : Composed R b write x y z) (l : L)
    (rewrites : ∀ m, x.pending = some m → Rewrites R write m)
    (held : ∀ k ∈ x.held, R.role k = .plain)
    (filed : ∀ k ∈ x.filed, R.role k = .entry ∨ R.role k = .detail)
    (fewer : z.admitted ⊆ x.admitted) :
    ∃ new, (step (R.admitting a) x l).emitted = x.emitted ++ new ∧
      Composed R b write (step (R.admitting a) x l)
        (run (R.admitting b) y (new.map (Item.render write)))
        (step (R.admitting fun k => a k && b k) z l) := by
  cases role : R.role l with
  | header =>
      refine ⟨[], by simp [step, role], ?_⟩
      simp only [step, admitting_role, role]
      exact ⟨h.idle, rfl, h.held, h.filed, h.admitted, h.emitted⟩
  | entry =>
      refine ⟨[], ?_, composed_entry h role⟩
      cases ha : a l <;> simp [step, role, ha]
  | detail =>
      refine ⟨[], ?_, composed_detail h role fewer⟩
      cases hx : x.admitted.any (R.covers · l) <;> simp [step, role, hx]
  | closer =>
      cases hp : x.pending with
      | none => exact composed_pass h (by simp [Rules.passes, role]) hp
      | some m =>
          have hz : z.pending = some m := h.pending.trans hp
          have rewrite_m := rewrites m hp
          refine ⟨x.block m ++ [.line l],
            by simp [step, role, hp, Buffers.close, Buffers.pass], ?_⟩
          rw [run_block (R := R.admitting b) h.idle (rewrite_m.header _) held filed role]
          simp only [step, admitting_role, role, Buffers.close, Buffers.pass, hp, hz]
          refine ⟨⟨rfl, rfl, rfl⟩, rfl, rfl, rfl, by simp [h.admitted], ?_⟩
          simp [Buffers.block, Item.render, h.emitted, h.held, h.filed, h.admitted,
            rewrite_m.again]
  | plain =>
      cases hp : x.pending with
      | none => exact composed_pass h (by simp [Rules.passes, role]) hp
      | some m =>
          have hz : z.pending = some m := h.pending.trans hp
          refine ⟨[], by simp [step, role, hp, Buffers.pass], ?_⟩
          simp only [step, admitting_role, role, Buffers.pass, hp, hz]
          exact ⟨h.idle, rfl, by simp [h.held], h.filed, h.admitted, h.emitted⟩

theorem admitted_both_subset (ls : List L) :
    (run (R.admitting fun k => a k && b k) {} ls).admitted ⊆
      (run (R.admitting a) {} ls).admitted := by
  rw [run_admitted, run_admitted]
  refine (List.monotone_filter_right ls fun l => ?_).subset
  simp only [admitting_admitted, Bool.and_eq_true]
  exact fun h => ⟨h.1, h.2.1⟩

theorem composed_run (ls : List L)
    (rewrites : ∀ m ∈ ls, R.role m = .header → Rewrites R write m) :
    Composed R b write (run (R.admitting a) {} ls)
      (run (R.admitting b) {} ((run (R.admitting a) {} ls).emitted.map (Item.render write)))
      (run (R.admitting fun k => a k && b k) {} ls) := by
  revert rewrites
  apply run_induction (R.admitting a) (fun pre x =>
    (∀ m ∈ pre, R.role m = .header → Rewrites R write m) →
    Composed R b write x (run (R.admitting b) {} (x.emitted.map (Item.render write)))
      (run (R.admitting fun k => a k && b k) {} pre))
  · intro _
    exact ⟨⟨rfl, rfl, rfl⟩, rfl, rfl, rfl, rfl, rfl⟩
  · intro pre l ih rewrites
    have traced := traced_run (R.admitting a) pre
    have before := ih (fun m hm => rewrites m (List.mem_append_left _ hm))
    obtain ⟨new, emitted, composed⟩ := composed_step (a := a) before l
      (fun m hm => rewrites m (List.mem_append_left _ (traced.pending m hm).1)
        (traced.pending m hm).2)
      (fun k hk => (traced.held k hk).2) (fun k hk => (traced.filed k hk).role)
      (admitted_both_subset pre)
    rw [run_append, emitted, List.map_append, run_append]
    exact composed

/-- Filtering twice is filtering once with both tests. -/
theorem output_twice (ls : List L)
    (rewrites : ∀ m ∈ ls, R.role m = .header → Rewrites R write m) :
    (output (R.admitting b)
        ((output (R.admitting a) ls).map (Item.render write))).map (Item.render write) =
      (output (R.admitting fun k => a k && b k) ls).map (Item.render write) :=
  (composed_run ls rewrites).emitted.symm

end

end SectionFilter
