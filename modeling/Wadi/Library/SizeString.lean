import Mathlib.Algebra.Group.Nat.Defs
import Mathlib.Data.List.Basic
import Mathlib.Tactic.Common

/-!
Byte strings searched and cut with 64-bit positions, as `std::string` does it.

A search answers with an optional index. `position` reads that answer as the
`size_t` the program goes on computing with, so that a miss becomes `npos` and
additions and subtractions on it wrap modulo `2 ^ 64`. Only `substr` can fail,
and it does so exactly when its position lies beyond the end of the string.

A string cannot be longer than its `max_size`, which lies below `2 ^ 63`. Results
that need positions not to wrap ask for that bound.
-/

namespace SizeString

abbrev Str := List Char

/-- A string is looked up in a list by comparing it with each entry. -/
instance decidableMem (s : Str) (ss : List Str) : Decidable (s ∈ ss) :=
  inferInstanceAs (Decidable (s ∈ ss))

@[irreducible] def npos : Nat := 2 ^ 64 - 1

@[irreducible] def sizeAdd (a b : Nat) : Nat := (a + b) % 2 ^ 64

@[irreducible] def sizeSub (a b : Nat) : Nat := (a + 2 ^ 64 - b) % 2 ^ 64

/-- The number a search result stands for in later `size_t` arithmetic. -/
def position : Option Nat → Nat
  | some i => i
  | none => npos

def indexOf (pat : Str) : Str → Option Nat
  | [] => if pat.isPrefixOf [] then some 0 else none
  | c :: s => if pat.isPrefixOf (c :: s) then some 0 else (indexOf pat s).map (· + 1)

/-- `s.find(pat, pos)`: the first occurrence that starts at or after `pos`. -/
def find (s pat : Str) (pos : Nat) : Option Nat :=
  if s.length < pos then none else (indexOf pat (s.drop pos)).map (pos + ·)

/-- `s.find_first_of(c)` for a single character. -/
def findFirstOf (s : Str) (c : Char) : Option Nat := find s [c] 0

def contains (s pat : Str) : Bool := (find s pat 0).isSome

structure OutOfRange where
  pos : Nat
  size : Nat
  deriving DecidableEq, Repr

def substr (s : Str) (pos n : Nat) : Except OutOfRange Str :=
  if s.length < pos then .error ⟨pos, s.length⟩ else .ok ((s.drop pos).take n)

theorem substr_of_le (s : Str) (pos n : Nat) (h : pos ≤ s.length) :
    substr s pos n = .ok ((s.drop pos).take n) :=
  if_neg (Nat.not_lt.mpr h)

/-- Cutting out the middle of a string by its position and length. -/
theorem substr_middle (x y z : Str) {pos n : Nat} (hpos : pos = x.length) (hn : n = y.length) :
    substr (x ++ (y ++ z)) pos n = .ok y := by
  rw [substr_of_le _ _ _ (by simp [hpos])]
  simp [hpos, hn]

theorem mem_of_mem_substr {s : Str} {pos n : Nat} {c : Char}
    (h : c ∈ (substr s pos n).toOption.getD []) : c ∈ s := by
  unfold substr at h
  split at h
  · cases h
  · exact List.mem_of_mem_drop (List.mem_of_mem_take h)

theorem indexOf_isSome_iff (pat s : Str) : (indexOf pat s).isSome ↔ pat <:+: s := by
  induction s with
  | nil =>
      cases pat <;> simp [indexOf]
  | cons c s ih =>
      by_cases h : pat <+: c :: s
      · simp [indexOf, h, h.isInfix]
      · simp [indexOf, h, List.infix_cons_iff, ih]

theorem contains_iff (s pat : Str) : contains s pat = true ↔ pat <:+: s := by
  simp [contains, find, indexOf_isSome_iff]

theorem contains_of_isPrefix {l pat : Str} (h : pat <+: l) : contains l pat = true :=
  (contains_iff l pat).mpr h.isInfix

theorem find_eq_some_zero_iff (s pat : Str) : find s pat 0 = some 0 ↔ pat <+: s := by
  have start : indexOf pat s = some 0 ↔ pat <+: s := by
    cases s with
    | nil => cases pat <;> simp [indexOf]
    | cons c s => by_cases h : pat <+: c :: s <;> simp [indexOf, h]
  rw [← start]
  simp [find]

theorem indexOf_char_append (c : Char) (s t : Str) (h : c ∉ s) :
    indexOf [c] (s ++ t) = (indexOf [c] t).map (s.length + ·) := by
  induction s with
  | nil => simp
  | cons d s ih =>
      have hd : c ≠ d := fun e => h (by simp [e])
      have hs : c ∉ s := fun m => h (by simp [m])
      have step : indexOf [c] (d :: (s ++ t)) = (indexOf [c] (s ++ t)).map (· + 1) := by
        simp [indexOf, hd]
      rw [List.cons_append, step, ih hs, Option.map_map]
      congr 1
      funext i
      simp only [Function.comp_apply, List.length_cons]
      omega

/-- Searching on from the end of a known part finds the next copy of `c`. -/
theorem find_char_at (p s t : Str) (c : Char) (h : c ∉ s) :
    find (p ++ (s ++ c :: t)) [c] p.length = some (p.length + s.length) := by
  simp [find, indexOf_char_append c s _ h, indexOf]

theorem find_char_first (s t : Str) (c : Char) (h : c ∉ s) :
    find (s ++ c :: t) [c] 0 = some s.length := by
  simpa using find_char_at [] s t c h

theorem find_char_miss (p s : Str) (c : Char) (h : c ∉ s) :
    find (p ++ s) [c] p.length = none := by
  have miss := indexOf_char_append c s [] h
  simp only [List.append_nil] at miss
  simp [find, miss, indexOf]

theorem indexOf_lt {pat s : Str} {i : Nat} (hp : pat ≠ []) (h : indexOf pat s = some i) :
    i < s.length ∧ pat <+: s.drop i := by
  induction s generalizing i with
  | nil => cases pat <;> simp_all [indexOf]
  | cons c s ih =>
      by_cases hpre : pat <+: c :: s
      · have hi : i = 0 := by simpa [indexOf, hpre] using h.symm
        subst hi
        exact ⟨by simp, by simpa using hpre⟩
      · simp only [indexOf, List.isPrefixOf_iff_prefix, hpre, if_false,
          Option.map_eq_some_iff] at h
        obtain ⟨j, hj, rfl⟩ := h
        have := ih hj
        exact ⟨by simp only [List.length_cons]; omega, by simpa using this.2⟩

theorem find_lt {s pat : Str} {pos i : Nat} (hp : pat ≠ []) (h : find s pat pos = some i) :
    i < s.length ∧ pat <+: s.drop i := by
  unfold find at h
  split at h
  · cases h
  · obtain ⟨j, hj, rfl⟩ := Option.map_eq_some_iff.mp h
    have found := indexOf_lt hp hj
    rw [List.length_drop, List.drop_drop] at found
    exact ⟨by omega, found.2⟩

theorem sizeAdd_one_le {s : Str} {i : Nat} (h : i < s.length) :
    sizeAdd i 1 ≤ s.length := by
  unfold sizeAdd
  exact Nat.le_trans (Nat.mod_le _ _) h

theorem sizeAdd_of_lt {a b : Nat} (h : a + b < 2 ^ 64) : sizeAdd a b = a + b := by
  unfold sizeAdd
  exact Nat.mod_eq_of_lt h

theorem sizeSub_of_le {a b : Nat} (le : b ≤ a) (h : a < 2 ^ 64) : sizeSub a b = a - b := by
  unfold sizeSub
  have shift : a + 2 ^ 64 - b = (a - b) + 2 ^ 64 := by omega
  rw [shift, Nat.add_mod_right]
  exact Nat.mod_eq_of_lt (by omega)

theorem sizeAdd_npos_one : sizeAdd npos 1 = 0 := by decide +kernel

/-- One past a search result never lies beyond the end: a miss wraps to the
start of the string. -/
theorem sizeAdd_position_le (s : Str) (c : Char) :
    sizeAdd (position (findFirstOf s c)) 1 ≤ s.length := by
  cases h : findFirstOf s c with
  | none => simp [position, sizeAdd_npos_one]
  | some i => exact sizeAdd_one_le (find_lt (by simp) h).1

end SizeString
