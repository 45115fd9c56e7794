import Mathlib.Data.List.Count
import Wadi.Library.SizeString

/-!
Cutting a string at its separators. `beforeSep c n s` is the part of `s` in
front of the separator that follows the first `n` ones; it is all of `s` when
there is no such separator. The last lemmas compute the same part by chained
searches, where each search starts one past the position the last one found.
-/

namespace SizeString

def beforeSep (c : Char) : Nat → Str → Str
  | _, [] => []
  | n, d :: s =>
      if d = c then
        match n with
        | 0 => []
        | k + 1 => d :: beforeSep c k s
      else d :: beforeSep c n s

@[simp] theorem beforeSep_zero_cons (c : Char) (s : Str) :
    beforeSep c 0 (c :: s) = [] := by
  simp [beforeSep]

@[simp] theorem beforeSep_succ_cons (c : Char) (n : Nat) (s : Str) :
    beforeSep c (n + 1) (c :: s) = c :: beforeSep c n s := by
  simp [beforeSep]

theorem beforeSep_append (c : Char) (n : Nat) (s t : Str) (h : c ∉ s) :
    beforeSep c n (s ++ t) = s ++ beforeSep c n t := by
  induction s with
  | nil => rfl
  | cons d s ih =>
      have hd : d ≠ c := fun e => h (by simp [e])
      have hs : c ∉ s := fun m => h (by simp [m])
      simp [beforeSep, hd, ih hs]

theorem not_mem_beforeSep (c : Char) (s : Str) : c ∉ beforeSep c 0 s := by
  induction s with
  | nil => simp [beforeSep]
  | cons d s ih =>
      by_cases same : d = c
      · simp [beforeSep, same]
      · simp [beforeSep, same, ih, Ne.symm same]

theorem beforeSep_of_not_mem (c : Char) (n : Nat) (s : Str) (h : c ∉ s) :
    beforeSep c n s = s := by
  simpa [beforeSep] using beforeSep_append c n s [] h

theorem beforeSep_isPrefix (c : Char) (n : Nat) (s : Str) : beforeSep c n s <+: s := by
  induction s generalizing n with
  | nil => exact List.prefix_rfl
  | cons d s ih =>
      by_cases hd : d = c
      · cases n with
        | zero => simp [beforeSep, hd]
        | succ n => simpa [beforeSep, hd] using ih n
      · simpa [beforeSep, hd] using ih n

/-- Cutting again after a separator has been put at the end changes nothing. -/
theorem beforeSep_again (c : Char) (n : Nat) (s t : Str) (h : n ≤ s.count c)
    (ht : t = [] ∨ ∃ t', t = c :: t') :
    beforeSep c n (beforeSep c n s ++ t) = beforeSep c n s := by
  induction s generalizing n with
  | nil =>
      obtain rfl : n = 0 := by simpa using h
      obtain rfl | ⟨t', rfl⟩ := ht <;> simp [beforeSep]
  | cons d s ih =>
      by_cases hd : d = c
      · subst hd
        cases n with
        | zero => obtain rfl | ⟨t', rfl⟩ := ht <;> simp [beforeSep]
        | succ n =>
            have count : n ≤ s.count d := by simpa using h
            simp [ih n count]
      · have count : n ≤ s.count c := by simpa [hd] using h
        simp [beforeSep, hd, ih n count]

theorem count_beforeSep (c : Char) (n : Nat) (s : Str) (h : n ≤ s.count c) :
    n ≤ (beforeSep c n s).count c := by
  induction s generalizing n with
  | nil => simpa [beforeSep] using h
  | cons d s ih =>
      by_cases hd : d = c
      · subst hd
        cases n with
        | zero => exact Nat.zero_le _
        | succ n =>
            have count : n ≤ s.count d := by simpa using h
            simpa using ih n count
      · have count : n ≤ s.count c := by simpa [hd] using h
        simpa [beforeSep, hd] using ih n count

/-- A start without separators cannot reach into what a separator begins. -/
theorem prefix_of_prefix_append (c : Char) (p s t : Str) (hp : c ∉ p)
    (ht : t = [] ∨ ∃ t', t = c :: t') (h : p <+: s ++ t) : p <+: s := by
  obtain rfl | ⟨t', rfl⟩ := ht
  · simpa using h
  · obtain within | ⟨u, rfl⟩ := List.prefix_or_prefix_of_prefix h (List.prefix_append s _)
    · exact within
    · rw [List.prefix_append_right_inj] at h
      cases u with
      | nil => simp
      | cons d u =>
          have hd : d = c := (List.cons_prefix_cons.mp h).1
          exact absurd (by simp [hd]) hp

/-- How many separators decides what a string looks like up to the second. -/
theorem separator_cases (c : Char) (s : Str) :
    (c ∉ s ∧ s.count c = 0) ∨
    (∃ x y, s = x ++ c :: y ∧ c ∉ x ∧ c ∉ y ∧ s.count c = 1) ∨
    (∃ x y r, s = x ++ c :: (y ++ c :: r) ∧ c ∉ x ∧ c ∉ y ∧ 2 ≤ s.count c) := by
  by_cases h : c ∈ s
  · obtain ⟨x, t, rfl, hx⟩ := List.eq_append_cons_of_mem h
    have cx := List.count_eq_zero_of_not_mem hx
    by_cases ht : c ∈ t
    · obtain ⟨y, r, rfl, hy⟩ := List.eq_append_cons_of_mem ht
      refine Or.inr (Or.inr ⟨x, y, r, rfl, hx, hy, ?_⟩)
      simp only [List.count_append, List.count_cons_self, cx]
      omega
    · refine Or.inr (Or.inl ⟨x, t, rfl, hx, ht, ?_⟩)
      simp [cx, List.count_eq_zero_of_not_mem ht]
  · exact Or.inl ⟨h, List.count_eq_zero_of_not_mem h⟩

theorem take_one_splitOn (c : Char) (s : Str) : (s.splitOn c).take 1 = [beforeSep c 0 s] := by
  by_cases h : c ∈ s
  · obtain ⟨x, t, rfl, hx⟩ := List.eq_append_cons_of_mem h
    rw [List.splitOn_append_cons_self_of_not_mem hx, beforeSep_append c 0 x _ hx]
    simp
  · rw [List.splitOn_eq_singleton h, beforeSep_of_not_mem c 0 s h]
    rfl

/-- The result of looking for the next separator three times in a row. -/
def thirdSep (s : Str) (c : Char) : Nat :=
  let p := position (find s [c] 0)
  let p := position (find s [c] (sizeAdd p 1))
  position (find s [c] (sizeAdd p 1))

theorem thirdSep_of_two (c : Char) (x y r : Str) (hx : c ∉ x) (hy : c ∉ y)
    (size : x.length + y.length + 2 < 2 ^ 64) :
    thirdSep (x ++ c :: (y ++ c :: r)) c =
      position (find (x ++ c :: (y ++ c :: r)) [c] (x.length + y.length + 2)) := by
  have first := find_char_first x (y ++ c :: r) c hx
  have second : find (x ++ c :: (y ++ c :: r)) [c] (x.length + 1) =
      some (x.length + 1 + y.length) := by
    simpa using find_char_at (x ++ [c]) y r c hy
  have add₁ : sizeAdd x.length 1 = x.length + 1 := sizeAdd_of_lt (by omega)
  have add₂ : sizeAdd (x.length + 1 + y.length) 1 = x.length + y.length + 2 := by
    rw [sizeAdd_of_lt (by omega)]
    omega
  rw [thirdSep, first]
  simp only [position, add₁, second, add₂]

theorem take_thirdSep (c : Char) (s : Str) (h : 2 ≤ s.count c)
    (size : (beforeSep c 2 s).length < 2 ^ 63) :
    s.take (thirdSep s c) = beforeSep c 2 s := by
  obtain ⟨-, none⟩ | ⟨x, y, -, -, -, one⟩ | ⟨x, y, r, rfl, hx, hy, -⟩ := separator_cases c s
  · omega
  · omega
  · have cut : beforeSep c 2 (x ++ c :: (y ++ c :: r)) =
        x ++ c :: (y ++ c :: beforeSep c 0 r) := by
      simp [beforeSep_append, hx, hy]
    rw [cut] at size ⊢
    simp only [List.length_append, List.length_cons] at size
    rw [thirdSep_of_two c x y r hx hy (by omega)]
    have shape : x ++ c :: (y ++ c :: r) = (x ++ c :: (y ++ [c])) ++ r := by simp
    have len : (x ++ c :: (y ++ [c])).length = x.length + y.length + 2 := by
      simp only [List.length_append, List.length_cons, List.length_nil]
      omega
    by_cases hr : c ∈ r
    · obtain ⟨z, t, rfl, hz⟩ := List.eq_append_cons_of_mem hr
      rw [beforeSep_append c 0 z _ hz, beforeSep_zero_cons, shape, ← len,
        find_char_at _ z t c hz, position, ← List.length_append, ← List.append_assoc,
        List.take_left]
      simp
    · rw [beforeSep_of_not_mem c 0 r hr] at size ⊢
      rw [shape, ← len, find_char_miss _ r c hr, position, ← shape]
      apply List.take_of_length_le
      simp only [List.length_append, List.length_cons, npos]
      omega

theorem take_thirdSep_one (c : Char) (x y : Str) (hx : c ∉ x) (hy : c ∉ y)
    (size : x.length + 1 < 2 ^ 64) :
    (x ++ c :: y).take (thirdSep (x ++ c :: y) c) = x := by
  have first := find_char_first x y c hx
  have second : find (x ++ c :: y) [c] (x.length + 1) = none := by
    simpa using find_char_miss (x ++ [c]) y c hy
  rw [thirdSep, first]
  simp only [position, sizeAdd_of_lt size, second, sizeAdd_npos_one, first, List.take_left]

theorem take_thirdSep_none (c : Char) (s : Str) (h : c ∉ s) (size : s.length < 2 ^ 63) :
    s.take (thirdSep s c) = s := by
  have miss : find s [c] 0 = none := by simpa using find_char_miss [] s c h
  rw [thirdSep, miss]
  simp only [position, sizeAdd_npos_one, miss]
  apply List.take_of_length_le
  simp only [npos]
  omega

/-- No search for the separator stops inside a start that has none. -/
theorem length_le_position_find (c : Char) (p s : Str) (q : Nat) (hp : c ∉ p)
    (h : p <+: s) (size : p.length < 2 ^ 63) : p.length ≤ position (find s [c] q) := by
  cases hq : find s [c] q with
  | none =>
      simp only [position, npos]
      omega
  | some i =>
      obtain ⟨t, rfl⟩ := h
      obtain ⟨-, u, at_i⟩ := find_lt (by simp) hq
      by_contra before
      simp only [position, Nat.not_le] at before
      have hd : (p ++ t)[i]? = some c := by
        have head := congrArg List.head? at_i
        simpa using head.symm
      rw [List.getElem?_append_left before] at hd
      exact hp (List.mem_of_getElem? hd)

theorem prefix_take_thirdSep (c : Char) (p s : Str) (hp : c ∉ p) (h : p <+: s)
    (size : p.length < 2 ^ 63) : p <+: s.take (thirdSep s c) :=
  List.prefix_take_iff.mpr ⟨h, length_le_position_find c p s _ hp h size⟩

end SizeString
