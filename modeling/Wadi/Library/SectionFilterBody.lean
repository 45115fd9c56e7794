import Mathlib.Data.List.Infix
import Wadi.Library.SectionFilterOrigin

/-!
The filter inside one open section. While a header is pending and no closing
line arrives, the run is a single pass over the lines that files what the rules
accept and holds the rest. `filing` is that pass on its own. It looks only at
the entries admitted so far, so it has a closed form over the positions of the
lines: a line is filed when it is admitted, or covered by an earlier entry.
-/

namespace SectionFilter
universe u v
variable {L : Type u}

/-- Whether a line is filed, given the entries admitted in front of it. -/
def Rules.files (R : Rules L) (adm : List L) (l : L) : Bool :=
  R.admitted l || (R.role l == .detail && adm.any (R.covers · l))

def filing (R : Rules L) : List L → List L → List L
  | _, [] => []
  | adm, l :: ls =>
      let rest := filing R (adm ++ [l].filter R.admitted) ls
      if R.files adm l then l :: rest else rest

/-- Every line together with the lines in front of it. -/
def withEarlier (ls : List L) : List (List L × L) := ls.inits.zip ls

theorem withEarlier_cons (l : L) (ls : List L) :
    withEarlier (l :: ls) =
      ([], l) :: (withEarlier ls).map (fun p => (l :: p.1, p.2)) := by
  simp [withEarlier, List.zip_map_left, Prod.map]

theorem mem_of_withEarlier {ls earlier : List L} {l : L}
    (h : (earlier, l) ∈ withEarlier ls) : l ∈ ls :=
  (List.of_mem_zip h).2

theorem earlier_subset {ls earlier : List L} {l : L} (h : (earlier, l) ∈ withEarlier ls) :
    earlier ⊆ ls :=
  ((List.mem_inits _ _).mp (List.of_mem_zip h).1).subset

theorem withEarlier_map {K : Type v} (f : K → L) (ks : List K) :
    withEarlier (ks.map f) = (withEarlier ks).map (fun p => (p.1.map f, f p.2)) := by
  induction ks with
  | nil => rfl
  | cons k ks ih => simp [withEarlier_cons, ih, Function.comp_def]

private theorem filter_cons_append (p : L → Bool) (adm : List L) (l : L) (ls : List L) :
    adm ++ [l].filter p ++ ls.filter p = adm ++ (l :: ls).filter p := by
  rw [List.append_assoc, ← List.filter_append, List.singleton_append]

theorem filing_eq (R : Rules L) (adm ls : List L) :
    filing R adm ls =
      ((withEarlier ls).filter
        (fun p => R.files (adm ++ p.1.filter R.admitted) p.2)).map Prod.snd := by
  induction ls generalizing adm with
  | nil => rfl
  | cons l ls ih =>
      simp only [filing, ih, withEarlier_cons, filter_cons_append]
      rw [List.filter_cons, List.filter_map]
      by_cases h : R.files adm l = true <;> simp [h, Function.comp_def]

theorem filing_append (R : Rules L) (adm ls ks : List L) :
    filing R adm (ls ++ ks) =
      filing R adm ls ++ filing R (adm ++ ls.filter R.admitted) ks := by
  induction ls generalizing adm with
  | nil => simp [filing]
  | cons l ls ih =>
      simp only [List.cons_append, filing, ih, filter_cons_append]
      split <;> simp

/-- Lines that neither open nor close a section. -/
def Rules.inner (R : Rules L) (l : L) : Bool :=
  R.role l == .entry || R.role l == .detail || R.role l == .plain

theorem inner_iff {R : Rules L} {l : L} :
    R.inner l = true ↔ R.role l ≠ .header ∧ R.role l ≠ .closer := by
  cases role : R.role l <;> simp [Rules.inner, role]

/-- Plain lines wait for the pending header, or are written if there is none. -/
def Buffers.passAll (b : Buffers L) (ls : List L) : Buffers L :=
  match b.pending with
  | some _ => { b with held := b.held ++ ls }
  | none => { b with emitted := b.emitted ++ ls.map .line }

theorem run_inner_passAll (R : Rules L) (b : Buffers L) (ls : List L)
    (h : ∀ l ∈ ls, R.inner l = true) :
    run R b ls =
      { b.passAll (ls.filter (fun l => R.role l == .plain)) with
        filed := b.filed ++ filing R b.admitted ls
        admitted := b.admitted ++ ls.filter R.admitted } := by
  induction ls generalizing b with
  | nil => rcases b with ⟨_, _ | _, _, _, _⟩ <;> simp [filing, Buffers.passAll]
  | cons l ls ih =>
      have hl := h l (by simp)
      have hls : ∀ k ∈ ls, R.inner k = true := fun k hk => h k (by simp [hk])
      rw [run_cons, ih (step R b l) hls]
      cases role : R.role l with
      | header | closer => simp [Rules.inner, role] at hl
      | entry =>
          cases admits : R.admits l <;> cases hp : b.pending <;>
            simp [step, role, admits, hp, filing, Rules.files, Rules.admitted, Buffers.passAll]
      | detail =>
          cases covered : b.admitted.any (R.covers · l) <;> cases hp : b.pending <;>
            simp [step, role, covered, hp, filing, Rules.files, Rules.admitted, Buffers.passAll]
      | plain =>
          cases hp : b.pending <;>
            simp [step, role, hp, filing, Rules.files, Rules.admitted, Buffers.pass,
              Buffers.passAll]

theorem run_inner (R : Rules L) (b : Buffers L) (m : L) (hm : b.pending = some m)
    (ls : List L) (h : ∀ l ∈ ls, R.inner l = true) :
    run R b ls =
      { b with
        held := b.held ++ ls.filter (fun l => R.role l == .plain)
        filed := b.filed ++ filing R b.admitted ls
        admitted := b.admitted ++ ls.filter R.admitted } := by
  rw [run_inner_passAll R b ls h, Buffers.passAll, hm]

theorem run_inner_quiet (R : Rules L) (b : Buffers L) (hb : b.pending = none)
    (ls : List L) (h : ∀ l ∈ ls, R.inner l = true) :
    run R b ls =
      { b with
        emitted := b.emitted ++ (ls.filter (fun l => R.role l == .plain)).map .line
        filed := b.filed ++ filing R b.admitted ls
        admitted := b.admitted ++ ls.filter R.admitted } := by
  rw [run_inner_passAll R b ls h, Buffers.passAll, hb]

theorem run_passes (R : Rules L) (b : Buffers L) (hb : b.pending = none) (ls : List L)
    (h : ∀ l ∈ ls, R.passes l = true) :
    run R b ls = { b with emitted := b.emitted ++ ls.map .line } := by
  induction ls generalizing b with
  | nil => simp
  | cons l ls ih =>
      have hls : ∀ k ∈ ls, R.passes k = true := fun k hk => h k (by simp [hk])
      have one : step R b l = { b with emitted := b.emitted ++ [.line l] } := by
        have pass := h l (by simp)
        cases role : R.role l <;>
          simp_all [Rules.passes, step, Buffers.close, Buffers.pass]
      rw [run_cons, one, ih { b with emitted := b.emitted ++ [.line l] } hb hls]
      simp

/-- The output for an input with one section that is closed. -/
theorem output_single (R : Rules L) (pre body post : List L) (m s : L)
    (hpre : ∀ l ∈ pre, R.passes l = true) (hm : R.role m = .header)
    (hbody : ∀ l ∈ body, R.inner l = true) (hs : R.role s = .closer)
    (hpost : ∀ l ∈ post, R.passes l = true) :
    output R (pre ++ [m] ++ body ++ [s] ++ post) =
      pre.map .line ++ [.header m (body.filter R.admitted)] ++
        (body.filter (fun l => R.role l == .plain)).map .line ++
        (filing R [] body).map .line ++ [.line s] ++ post.map .line := by
  have front := run_passes R {} rfl pre hpre
  have opened : run R {} (pre ++ [m]) =
      { emitted := pre.map .line, pending := some m } := by
    simp [run_append, front, step, hm]
  have inside : run R {} (pre ++ [m] ++ body) =
      { emitted := pre.map .line, pending := some m,
        held := body.filter (fun l => R.role l == .plain), filed := filing R [] body,
        admitted := body.filter R.admitted } := by
    rw [run_append, opened, run_inner R _ m rfl body hbody]
    rfl
  have closed : run R {} (pre ++ [m] ++ body ++ [s]) =
      { emitted := pre.map .line ++ [.header m (body.filter R.admitted)] ++
          (body.filter (fun l => R.role l == .plain)).map .line ++
          (filing R [] body).map .line ++ [.line s],
        admitted := body.filter R.admitted } := by
    rw [run_append, inside]
    simp [step, hs, Buffers.close, Buffers.pass, Buffers.block]
  rw [output, run_append, closed, run_passes R _ rfl post hpost]

end SectionFilter
