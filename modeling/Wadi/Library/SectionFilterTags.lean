import Wadi.Library.SectionFilterHeaders
import Wadi.Library.SectionFilterPlacement

/-!
Running a section filter on lines that carry more than the rules look at. The
filter is natural in its lines, so the extra part travels through it without
changing what is written. Numbering the sections of an input in this way makes
it possible to say, of equal lines, which section they came from.
-/

namespace SectionFilter
universe u v
variable {L : Type u} {K : Type v}

/-- The rules that look at the image of a line only. -/
def Rules.comap (R : Rules L) (f : K → L) : Rules K where
  role k := R.role (f k)
  admits k := R.admits (f k)
  covers e k := R.covers (f e) (f k)

def Item.map (f : K → L) : Item K → Item L
  | .line k => .line (f k)
  | .header m adm => .header (f m) (adm.map f)

def Buffers.map (f : K → L) (b : Buffers K) : Buffers L where
  emitted := b.emitted.map (Item.map f)
  pending := b.pending.map f
  held := b.held.map f
  filed := b.filed.map f
  admitted := b.admitted.map f

section
variable (R : Rules L) (f : K → L)

theorem any_covers_comap (adm : List K) (k : K) :
    adm.any ((R.comap f).covers · k) = (adm.map f).any (R.covers · (f k)) := by
  rw [List.any_map]
  rfl

theorem step_comap (b : Buffers K) (k : K) :
    (step (R.comap f) b k).map f = step R (b.map f) (f k) := by
  have role : (R.comap f).role k = R.role (f k) := rfl
  have any := any_covers_comap R f b.admitted k
  cases hr : R.role (f k) with
  | header => simp [step, role, hr, Buffers.map]
  | entry =>
      have admits : (R.comap f).admits k = R.admits (f k) := rfl
      cases ha : R.admits (f k) <;> simp [step, role, hr, admits, ha, Buffers.map]
  | detail =>
      cases ha : (b.admitted.map f).any (R.covers · (f k)) <;>
        simp only [step, role, hr, any, ha, Buffers.map] <;> simp
  | closer =>
      cases hp : b.pending <;>
        simp [step, role, hr, Buffers.close, Buffers.pass, Buffers.block, hp, Buffers.map,
          Item.map, Function.comp_def]
  | plain =>
      cases hp : b.pending <;>
        simp [step, role, hr, Buffers.pass, hp, Buffers.map, Item.map]

theorem run_comap (b : Buffers K) (ks : List K) :
    (run (R.comap f) b ks).map f = run R (b.map f) (ks.map f) := by
  induction ks generalizing b with
  | nil => rfl
  | cons k ks ih => rw [run_cons, ih, step_comap, List.map_cons, run_cons]

theorem output_comap (ks : List K) :
    (output (R.comap f) ks).map (Item.map f) = output R (ks.map f) :=
  congrArg Buffers.emitted (run_comap R f {} ks)

theorem pending_comap (ks : List K) :
    (run (R.comap f) {} ks).pending = none ↔ (run R {} (ks.map f)).pending = none := by
  have eq := congrArg Buffers.pending (run_comap R f {} ks)
  have start : (Buffers.map f {} : Buffers L) = {} := rfl
  rw [start] at eq
  rw [← eq]
  simp [Buffers.map]

theorem files_comap (ks : List K) (k : K) :
    (R.comap f).files (ks.filter (R.comap f).admitted) k =
      R.files ((ks.map f).filter R.admitted) (f k) := by
  rw [Rules.files, Rules.files, any_covers_comap, List.filter_map]
  rfl

theorem map_split {ks : List K} {a b : List L} {l : L} (h : ks.map f = a ++ l :: b) :
    ∃ p k q, ks = p ++ k :: q ∧ p.map f = a ∧ f k = l ∧ q.map f = b := by
  obtain ⟨p, r, rfl, rfl, tail⟩ := List.map_eq_append_iff.mp h
  obtain ⟨k, q, rfl, rfl, rfl⟩ := List.map_eq_cons_iff.mp tail
  exact ⟨p, k, q, rfl, rfl, rfl, rfl⟩

theorem filedInside_comap (ks : List K) :
    FiledInside (R.comap f) ks ↔ FiledInside R (ks.map f) := by
  constructor
  · intro h a l b split files
    obtain ⟨p, k, q, rfl, rfl, rfl, rfl⟩ := map_split f split
    rw [ne_eq, ← pending_comap]
    exact h p k q rfl ((files_comap R f p k).trans files)
  · intro h p k q split files
    rw [ne_eq, pending_comap]
    exact h (p.map f) (f k) (q.map f) (by simp [split]) ((files_comap R f p k).symm.trans files)

theorem closedSections_comap {media : L → Bool} {ks : List K}
    (h : ClosedSections R media (ks.map f)) :
    ClosedSections (R.comap f) (fun k => media (f k)) ks := by
  intro p m q split role
  obtain ⟨c, s, d, tail, hs, ms, hc⟩ := h (p.map f) (f m) (q.map f) (by simp [split]) role
  obtain ⟨c', s', d', rfl, rfl, rfl, rfl⟩ := map_split f tail
  exact ⟨c', s', d', rfl, hs, ms, fun l hl => hc (f l) (List.mem_map_of_mem hl)⟩

end

/-- Every line with the number of its section, counted from `n`. -/
def tagFrom (media : L → Bool) : Nat → List L → List (Nat × L)
  | _, [] => []
  | n, l :: ls =>
      let k := if media l then n + 1 else n
      (k, l) :: tagFrom media k ls

section
variable (media : L → Bool)

theorem tagFrom_map_snd (n : Nat) (ls : List L) : (tagFrom media n ls).map Prod.snd = ls := by
  induction ls generalizing n with
  | nil => rfl
  | cons l ls ih => simp [tagFrom, ih]

theorem tagFrom_append (n : Nat) (ls ks : List L) :
    tagFrom media n (ls ++ ks) =
      tagFrom media n ls ++ tagFrom media (n + ls.countP media) ks := by
  induction ls generalizing n with
  | nil => simp [tagFrom]
  | cons l ls ih =>
      cases hl : media l <;> simp [tagFrom, hl, ih, Nat.add_assoc, Nat.add_comm 1]

theorem tag_bounds {n : Nat} {ls : List L} {x : Nat × L} (h : x ∈ tagFrom media n ls) :
    n ≤ x.1 ∧ x.1 ≤ n + ls.countP media := by
  induction ls generalizing n with
  | nil => cases h
  | cons l ls ih =>
      obtain rfl | h := List.mem_cons.mp h
      · cases hl : media l <;> simp [hl]
      · have bounds := ih h
        cases hl : media l <;> simp [hl] at bounds ⊢ <;> omega

/-- A numbered line's number counts the media lines up to it. -/
theorem tagFrom_split {ls : List L} {p q : List (Nat × L)} {x : Nat × L}
    (h : tagFrom media 0 ls = p ++ x :: q) :
    p = tagFrom media 0 (p.map Prod.snd) ∧
      x.1 = (p.map Prod.snd).countP media + (if media x.2 then 1 else 0) ∧
      q = tagFrom media x.1 (q.map Prod.snd) := by
  have lines : ls = p.map Prod.snd ++ x.2 :: q.map Prod.snd := by
    have := congrArg (List.map Prod.snd) h
    rwa [tagFrom_map_snd, List.map_append, List.map_cons] at this
  rw [lines, tagFrom_append, tagFrom, Nat.zero_add] at h
  have len : (tagFrom media 0 (p.map Prod.snd)).length = p.length := by
    rw [← List.length_map (f := Prod.snd), tagFrom_map_snd, List.length_map]
  obtain ⟨front, tail⟩ := List.append_inj h len
  obtain ⟨here, rest⟩ := List.cons.inj tail
  have number : x.1 = (p.map Prod.snd).countP media + (if media x.2 then 1 else 0) := by
    rw [← congrArg Prod.fst here]
    split <;> rfl
  refine ⟨front.symm, number, ?_⟩
  rw [← rest, number]
  congr 1
  · split <;> rfl
  · rw [tagFrom_map_snd]

variable {media}

theorem sectioned_tagFrom {R : Rules L} (ls : List L)
    (header : ∀ l ∈ ls, R.role l = .header → media l = true)
    (codec : ∀ l ∈ ls, R.codec l = true → media l = false) :
    Sectioned (R.comap Prod.snd) (fun x => media x.2) Prod.fst (tagFrom media 0 ls) := by
  have mem {x : Nat × L} (hx : x ∈ tagFrom media 0 ls) : x.2 ∈ ls := by
    rw [← tagFrom_map_snd media 0 ls]
    exact List.mem_map_of_mem hx
  refine ⟨fun x hx => header x.2 (mem hx), fun x hx => codec x.2 (mem hx), ?_, ?_⟩
  · intro p y q split hy x hx same
    obtain ⟨front, number, -⟩ := tagFrom_split media split
    rw [front] at hx
    have bounds := (tag_bounds media hx).2
    rw [if_pos hy] at number
    omega
  · intro p x y q split hy
    obtain ⟨-, -, tail⟩ := tagFrom_split media split
    have here := congrArg List.head? tail
    simp only [List.map_cons, tagFrom, hy, List.head?_cons, Option.some.injEq,
      Bool.false_eq_true, if_false] at here
    exact (congrArg Prod.fst here : y.1 = _)

/-- The lines with a section's number are its media line and what follows up to
the next media line. -/
theorem filter_tag {ls : List L} {p q : List (Nat × L)} {x : Nat × L}
    (split : tagFrom media 0 ls = p ++ x :: q) (hx : media x.2 = true) :
    ((tagFrom media 0 ls).filter (fun y => y.1 == x.1)).map Prod.snd =
      x.2 :: (q.map Prod.snd).takeWhile (fun l => !media l) := by
  obtain ⟨front, number, tail⟩ := tagFrom_split media split
  rw [if_pos hx] at number
  have before : p.filter (fun y => y.1 == x.1) = [] := by
    rw [List.filter_eq_nil_iff]
    intro y hy same
    rw [front] at hy
    have bounds := (tag_bounds media hy).2
    have : y.1 = x.1 := by simpa using same
    omega
  have after (n : Nat) (ks : List L) :
      ((tagFrom media n ks).filter (fun y => y.1 == n)).map Prod.snd =
        ks.takeWhile (fun l => !media l) := by
    induction ks with
    | nil => rfl
    | cons k ks ih =>
        cases hk : media k with
        | false => simp [tagFrom, hk, ih]
        | true =>
            have none : (tagFrom media (n + 1) ks).filter (fun y => y.1 == n) = [] := by
              rw [List.filter_eq_nil_iff]
              intro y hy same
              have bounds := (tag_bounds media hy).1
              have : y.1 = n := by simpa using same
              omega
            simp [tagFrom, hk, none]
  rw [split, List.filter_append, before, List.nil_append, List.filter_cons_of_pos (by simp),
    List.map_cons, ← after x.1, ← tail]

end

end SectionFilter
