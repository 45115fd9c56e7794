import Wadi.Library.SectionFilterOrder

/-!
The written headers in closed form. Each header of the input is looked at in
its place: it is written when `closing` finds a closing line behind it with no
other header in between, and it then carries the entries admitted up to there.
-/

namespace SectionFilter
universe u v
variable {L : Type u} {M : Type v}

/-- The lines in front of the next closing line, unless a header comes first. -/
def closing (R : Rules L) : List L → Option (List L)
  | [] => none
  | l :: ls =>
      match R.role l with
      | .header => none
      | .closer => some []
      | _ => (closing R ls).map (l :: ·)

def positions : List L → List L → List (List L × L × List L)
  | _, [] => []
  | pre, l :: ls => (pre, l, ls) :: positions (pre ++ [l]) ls

def Item.isHeader : Item L → Bool
  | .line _ => false
  | .header _ _ => true

/-- The header written for a position of the input, if there is one. -/
def answered (R : Rules L) (p : List L × L × List L) : Option (Item L) :=
  if R.role p.2.1 = .header then
    (closing R p.2.2).map (fun c => .header p.2.1 ((p.1 ++ p.2.1 :: c).filter R.admitted))
  else none

theorem mem_positions {ls pre a b : List L} {l : L} :
    (a, l, b) ∈ positions pre ls ↔ ∃ c, a = pre ++ c ∧ ls = c ++ l :: b := by
  induction ls generalizing pre with
  | nil => simp [positions]
  | cons k ls ih =>
      simp only [positions, List.mem_cons, Prod.mk.injEq, ih]
      constructor
      · rintro (⟨rfl, rfl, rfl⟩ | ⟨c, rfl, rfl⟩)
        · exact ⟨[], by simp, rfl⟩
        · exact ⟨k :: c, by simp, rfl⟩
      · rintro ⟨c, rfl, split⟩
        cases c with
        | nil =>
            obtain ⟨rfl, rfl⟩ := List.cons.inj split
            exact Or.inl ⟨by simp, rfl, rfl⟩
        | cons d c =>
            obtain ⟨rfl, rfl⟩ := List.cons.inj split
            exact Or.inr ⟨c, by simp, rfl⟩

theorem mem_positions_nil {ls a b : List L} {l : L} :
    (a, l, b) ∈ positions [] ls ↔ ls = a ++ l :: b := by
  rw [mem_positions]
  constructor
  · rintro ⟨c, rfl, split⟩
    exact split
  · intro split
    exact ⟨a, rfl, split⟩

theorem positions_map (pre ls : List L) : (positions pre ls).map (fun p => p.2.1) = ls := by
  induction ls generalizing pre with
  | nil => rfl
  | cons l ls ih => simp [positions, ih]

theorem closing_eq_some {R : Rules L} {ls c : List L} :
    closing R ls = some c ↔ ∃ s d, ls = c ++ s :: d ∧ R.role s = .closer ∧
      ∀ l ∈ c, R.role l ≠ .header ∧ R.role l ≠ .closer := by
  induction ls generalizing c with
  | nil => simp [closing]
  | cons l ls ih =>
      cases hr : R.role l with
      | header =>
          simp only [closing, hr, reduceCtorEq, false_iff]
          rintro ⟨s, d, split, hs, hc⟩
          cases c with
          | nil =>
              obtain ⟨rfl, rfl⟩ := List.cons.inj split
              simp [hr] at hs
          | cons k c =>
              obtain ⟨rfl, rfl⟩ := List.cons.inj split
              exact (hc l (by simp)).1 hr
      | closer =>
          simp only [closing, hr, Option.some.injEq]
          constructor
          · rintro rfl
            exact ⟨l, ls, rfl, hr, by simp⟩
          · rintro ⟨s, d, split, hs, hc⟩
            cases c with
            | nil => rfl
            | cons k c =>
                obtain ⟨rfl, rfl⟩ := List.cons.inj split
                exact absurd hr (hc l (by simp)).2
      | entry | detail | plain =>
          simp only [closing, hr, Option.map_eq_some_iff, ih]
          constructor
          · rintro ⟨k, ⟨s, d, rfl, hs, hc⟩, rfl⟩
            exact ⟨s, d, rfl, hs, by simpa [hr] using hc⟩
          · rintro ⟨s, d, split, hs, hc⟩
            cases c with
            | nil =>
                obtain ⟨rfl, rfl⟩ := List.cons.inj split
                simp [hr] at hs
            | cons k c =>
                obtain ⟨rfl, rfl⟩ := List.cons.inj split
                exact ⟨c, ⟨s, d, rfl, hs, fun x hx => hc x (by simp [hx])⟩, rfl⟩

/-- The header the rest of the input writes for what is pending now. -/
def pendingAnswer (R : Rules L) (pre : List L) (pending : Option L) (ls : List L) :
    List (Item L) :=
  match pending, closing R ls with
  | some m, some c => [.header m ((pre ++ c).filter R.admitted)]
  | _, _ => []

/-- One line either leaves the pending header to the rest of the input, replaces
it, or answers it. -/
theorem step_headers (R : Rules L) (pre : List L) (b : Buffers L) (l : L) (ls : List L)
    (hb : b.admitted = pre.filter R.admitted) :
    (step R b l).emitted.filter Item.isHeader ++
        pendingAnswer R (pre ++ [l]) (step R b l).pending ls =
      b.emitted.filter Item.isHeader ++ pendingAnswer R pre b.pending (l :: ls) ++
        (answered R (pre, l, ls)).toList := by
  have inner (role : R.role l ≠ .header ∧ R.role l ≠ .closer) :
      pendingAnswer R pre b.pending (l :: ls) = pendingAnswer R (pre ++ [l]) b.pending ls := by
    have next : closing R (l :: ls) = (closing R ls).map (l :: ·) := by
      cases hr : R.role l <;> simp_all [closing]
    cases hp : b.pending <;> cases hc : closing R ls <;> simp [pendingAnswer, next, hc]
  obtain ⟨role, eq⟩ | ⟨role, -, eq⟩ | ⟨role, -, eq⟩ | ⟨skip, eq⟩ |
    ⟨m, role, pend, eq⟩ | ⟨role, -, eq⟩ | ⟨pass, pend, eq⟩ := step_cases R b l <;> rw [eq]
  · cases hc : closing R ls <;> simp [pendingAnswer, answered, closing, role, hc]
  · simp [inner (by simp [role]), answered, role]
  · simp [inner (by simp [role]), answered, role]
  · have role : R.role l ≠ .header ∧ R.role l ≠ .closer := by
      obtain ⟨role, -⟩ | ⟨role, -⟩ := skip <;> simp [role]
    simp [inner role, answered, role.1]
  · have lines (ks : List L) : (ks.map Item.line).filter Item.isHeader = [] := by
      simp [List.filter_map, Function.comp_def, Item.isHeader]
    simp [pendingAnswer, closing, role, pend, answered, Buffers.block, List.filter_cons,
      Item.isHeader, lines, hb]
  · simp [inner (by simp [role]), answered, role]
  · have role : R.role l ≠ .header := by
      intro role
      simp [Rules.passes, role] at pass
    simp [pendingAnswer, pend, answered, role, Item.isHeader]

theorem run_headers (R : Rules L) (pre : List L) (b : Buffers L) (ls : List L)
    (hb : b.admitted = pre.filter R.admitted) :
    (run R b ls).emitted.filter Item.isHeader =
      b.emitted.filter Item.isHeader ++ pendingAnswer R pre b.pending ls ++
        (positions pre ls).filterMap (answered R) := by
  induction ls generalizing pre b with
  | nil => cases hp : b.pending <;> simp [pendingAnswer, closing, positions]
  | cons l ls ih =>
      have admitted : (step R b l).admitted = (pre ++ [l]).filter R.admitted := by
        rw [step_admitted, hb, List.filter_append]
      rw [run_cons, ih (pre ++ [l]) _ admitted, step_headers R pre b l ls hb, positions]
      cases ha : answered R (pre, l, ls) <;> simp [ha]

theorem output_headers (R : Rules L) (ls : List L) :
    (output R ls).filter Item.isHeader = (positions [] ls).filterMap (answered R) := by
  have all := run_headers R [] {} ls rfl
  simpa [output, pendingAnswer] using all

/-- A written header, the closing line that wrote it and the lines in between. -/
theorem header_mem_output {R : Rules L} {ls es : List L} {m : L} :
    .header m es ∈ output R ls ↔ ∃ p c s d, ls = p ++ m :: (c ++ s :: d) ∧
      R.role m = .header ∧ R.role s = .closer ∧
      (∀ l ∈ c, R.role l ≠ .header ∧ R.role l ≠ .closer) ∧
      es = (p ++ m :: c).filter R.admitted := by
  have written : .header m es ∈ output R ls ↔
      .header m es ∈ (positions [] ls).filterMap (answered R) := by
    rw [← output_headers, List.mem_filter]
    simp [Item.isHeader]
  rw [written, List.mem_filterMap]
  constructor
  · rintro ⟨⟨p, x, q⟩, hp, ha⟩
    have split := mem_positions_nil.mp hp
    simp only [answered] at ha
    split at ha
    next header =>
        obtain ⟨c, hc, eq⟩ := Option.map_eq_some_iff.mp ha
        obtain ⟨rfl, rfl⟩ := Item.header.inj eq
        obtain ⟨s, d, rfl, hs, inner⟩ := closing_eq_some.mp hc
        exact ⟨p, c, s, d, split, header, hs, inner, rfl⟩
    next => cases ha
  · rintro ⟨p, c, s, d, split, header, hs, inner, rfl⟩
    have closes : closing R (c ++ s :: d) = some c :=
      closing_eq_some.mpr ⟨s, d, rfl, hs, inner⟩
    exact ⟨(p, m, c ++ s :: d), mem_positions_nil.mpr split, by simp [answered, header, closes]⟩

theorem filterMap_eq_map_iff {f : L → Option M} {g : L → M} {xs : List L} :
    xs.filterMap f = xs.map g ↔ ∀ x ∈ xs, f x = some (g x) := by
  constructor
  · intro h
    induction xs with
    | nil => simp
    | cons x xs ih =>
        cases hx : f x with
        | none =>
            have le := List.length_filterMap_le f xs
            have len := congrArg List.length h
            simp [hx] at len
            omega
        | some y =>
            simp only [List.filterMap_cons, hx, List.map_cons, List.cons.injEq] at h
            intro z hz
            obtain rfl | hz := List.mem_cons.mp hz
            · rw [hx, h.1]
            · exact ih h.2 z hz
  · intro h
    rw [List.filterMap_congr h, ← List.filterMap_eq_map]
    rfl

end SectionFilter
