import Mathlib.Data.List.DropRight
import Wadi.Library.SizeString

/-!
Texts as sequences of lines. Reading splits at LF the way repeated `getline`
does: a carriage return stays on its line, and a text that ends in LF has no
empty line after it. Writing appends CR LF to every line. The two are not
inverse to each other: what is written as a line is read back with a CR.
-/

namespace LineText
open SizeString

/-- The lines successive `getline` calls return until the stream is at its end. -/
def getlines : Str → List Str
  | [] => []
  | c :: s =>
      if c = '\n' then [] :: getlines s
      else match getlines s with
        | [] => [[c]]
        | l :: ls => (c :: l) :: ls

def crlf : Str := ['\r', '\n']

def crlfText (ls : List Str) : Str := ls.flatMap (· ++ crlf)

def lfText (ls : List Str) : Str := ls.flatMap (· ++ ['\n'])

/-- The lines of a written text, each without the CR LF that ends it. -/
def crlfLines (s : Str) : List Str := (getlines s).map List.dropLast

def stripCr (l : Str) : Str := l.rdropWhile (· == '\r')

@[simp] theorem crlfText_nil : crlfText [] = [] := rfl

@[simp] theorem crlfText_cons (l : Str) (ls : List Str) :
    crlfText (l :: ls) = l ++ crlf ++ crlfText ls := by
  simp [crlfText]

@[simp] theorem crlfText_append (ls ks : List Str) :
    crlfText (ls ++ ks) = crlfText ls ++ crlfText ks := by
  simp [crlfText]

theorem getlines_append_lf (l s : Str) (h : '\n' ∉ l) :
    getlines (l ++ '\n' :: s) = l :: getlines s := by
  induction l with
  | nil => simp [getlines]
  | cons c l ih =>
      have hc : c ≠ '\n' := fun e => h (by simp [e])
      have hl : '\n' ∉ l := fun m => h (by simp [m])
      simp [getlines, hc, ih hl]

theorem getlines_lfText (ls : List Str) (h : ∀ l ∈ ls, '\n' ∉ l) :
    getlines (lfText ls) = ls := by
  induction ls with
  | nil => rfl
  | cons l ls ih =>
      have hl := h l (by simp)
      have hls : ∀ k ∈ ls, '\n' ∉ k := fun k m => h k (by simp [m])
      have split : lfText (l :: ls) = l ++ '\n' :: lfText ls := by simp [lfText]
      rw [split, getlines_append_lf l _ hl, ih hls]

theorem getlines_crlfText (ls : List Str) (h : ∀ l ∈ ls, '\n' ∉ l) :
    getlines (crlfText ls) = ls.map (· ++ ['\r']) := by
  have lines : crlfText ls = lfText (ls.map (· ++ ['\r'])) := by
    simp [crlfText, lfText, crlf, List.flatMap_map]
  rw [lines, getlines_lfText]
  intro k hk
  obtain ⟨l, hl, rfl⟩ := List.mem_map.mp hk
  simp [h l hl]

theorem crlfLines_crlfText (ls : List Str) (h : ∀ l ∈ ls, '\n' ∉ l) :
    crlfLines (crlfText ls) = ls := by
  rw [crlfLines, getlines_crlfText ls h]
  simp [Function.comp_def]

theorem getlines_of_not_mem (s : Str) (h : '\n' ∉ s) (hs : s ≠ []) : getlines s = [s] := by
  induction s with
  | nil => exact absurd rfl hs
  | cons c s ih =>
      have hc : c ≠ '\n' := fun e => h (by simp [e])
      have hrest : '\n' ∉ s := fun m => h (by simp [m])
      cases s with
      | nil => simp [getlines, hc]
      | cons d s =>
          have tail := ih hrest (by simp)
          rw [getlines, if_neg hc, tail]

/-- The first line is what stands in front of the first LF. -/
theorem getlines_cases (s : Str) :
    s = [] ∨ ('\n' ∉ s ∧ getlines s = [s]) ∨
      ∃ l t, '\n' ∉ l ∧ s = l ++ '\n' :: t ∧ getlines s = l :: getlines t := by
  by_cases hs : s = []
  · exact Or.inl hs
  · by_cases h : '\n' ∈ s
    · obtain ⟨l, t, rfl, hl⟩ := List.eq_append_cons_of_mem h
      exact Or.inr (Or.inr ⟨l, t, hl, rfl, getlines_append_lf l t hl⟩)
    · exact Or.inr (Or.inl ⟨h, getlines_of_not_mem s h hs⟩)

theorem mem_of_mem_getlines {s l : Str} {c : Char} (h : l ∈ getlines s) (hc : c ∈ l) :
    c ∈ s := by
  induction hn : s.length using Nat.strong_induction_on generalizing s with
  | _ n ih =>
      subst hn
      obtain rfl | ⟨-, lines⟩ | ⟨k, t, -, rfl, lines⟩ := getlines_cases s
      · simp [getlines] at h
      · rw [lines, List.mem_singleton] at h
        exact h ▸ hc
      · rw [lines, List.mem_cons] at h
        obtain rfl | h := h
        · exact List.mem_append_left _ hc
        · have tail := ih t.length (by simp; omega) h rfl
          exact List.mem_append_right _ (List.mem_cons_of_mem _ tail)

theorem mem_getlines {s l : Str} (h : l ∈ getlines s) :
    '\n' ∉ l ∧ l.length ≤ s.length := by
  induction hn : s.length using Nat.strong_induction_on generalizing s with
  | _ n ih =>
      subst hn
      obtain rfl | ⟨hlf, lines⟩ | ⟨k, t, hk, split, lines⟩ := getlines_cases s
      · simp [getlines] at h
      · rw [lines, List.mem_singleton] at h
        subst h
        exact ⟨hlf, Nat.le_refl _⟩
      · have shorter : t.length < s.length ∧ k.length ≤ s.length := by
          rw [split, List.length_append, List.length_cons]
          omega
        rw [lines, List.mem_cons] at h
        obtain rfl | h := h
        · exact ⟨hk, shorter.2⟩
        · have tail := ih t.length shorter.1 h rfl
          exact ⟨tail.1, by omega⟩

theorem stripCr_append_cr (l : Str) (h : '\r' ∉ l) : stripCr (l ++ ['\r']) = l := by
  have stop : stripCr l = l := by
    apply List.rdropWhile_eq_self_iff.mpr
    intro hne last
    have hlast : l.getLast hne = '\r' := by simpa using last
    exact h (hlast ▸ List.getLast_mem hne)
  rw [stripCr, List.rdropWhile_concat_pos _ _ _ (by simp)]
  exact stop

end LineText
