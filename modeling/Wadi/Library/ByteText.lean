import Mathlib.Data.List.Infix
import Mathlib.Data.List.TakeWhile
import Wadi.Library.Numerals

/-!
Byte sequences cut at the first copy of a pattern, as `std::search` and `std::string::find`
locate it, and cut into a run of accepted bytes and what follows the run.

The first copy of a pattern is not moved by what is appended later. For text in lines, the
empty line that ends a block is found right behind the block.
-/

namespace ByteText
open SizeString

abbrev Bytes := List UInt8

def ofStr (s : Str) : Bytes := s.map (fun c => UInt8.ofNat c.toNat)

def ascii (s : String) : Bytes := ofStr s.toList

/-- `std::string{b.begin(), b.end()}`. -/
def toStr (b : Bytes) : Str := b.map (fun x => Char.ofNat x.toNat)

/-- Characters that are bytes are not changed. -/
theorem toStr_ofStr {s : Str} (small : ∀ c ∈ s, c.toNat < 256) : toStr (ofStr s) = s := by
  rw [toStr, ofStr, List.map_map]
  refine (List.map_congr_left fun c hc => ?_).trans (List.map_id s)
  have code : (UInt8.ofNat c.toNat).toNat = c.toNat := UInt8.toNat_ofNat_of_lt' (small c hc)
  simp only [Function.comp_apply, code, Char.ofNat_toNat, id_eq]

section
variable {α : Type*} [DecidableEq α]

/-- What stands in front of the first copy of `pat` and what stands behind it. -/
def cut (pat : List α) : List α → Option (List α × List α)
  | [] => if pat = [] then some ([], []) else none
  | a :: s =>
      if pat <+: a :: s then some ([], (a :: s).drop pat.length)
      else (cut pat s).map (fun p => (a :: p.1, p.2))

theorem cut_cons_later {pat s : List α} {a : α} (h : ¬ pat <+: a :: s) :
    cut pat (a :: s) = (cut pat s).map (fun p => (a :: p.1, p.2)) :=
  if_neg h

theorem cut_pattern (pat rest : List α) : cut pat (pat ++ rest) = some ([], rest) := by
  cases h : pat ++ rest with
  | nil =>
      obtain ⟨rfl, rfl⟩ := List.append_eq_nil_iff.mp h
      rfl
  | cons a s =>
      have here : pat <+: a :: s := h ▸ List.prefix_append pat rest
      rw [cut, if_pos here, ← h, List.drop_left]

theorem cut_eq_none_iff {pat : List α} (hp : pat ≠ []) (s : List α) :
    cut pat s = none ↔ ¬ pat <:+: s := by
  induction s with
  | nil => simp [cut, hp]
  | cons a s ih =>
      by_cases here : pat <+: a :: s
      · simp [cut, here, here.isInfix]
      · simp [cut, here, ih, List.infix_cons_iff]

/-- The two parts and the pattern between them make up the text. -/
theorem eq_of_cut {pat s before after : List α} (h : cut pat s = some (before, after)) :
    s = before ++ (pat ++ after) := by
  induction s generalizing before with
  | nil =>
      simp only [cut, Option.ite_none_right_eq_some, Option.some.injEq, Prod.mk.injEq] at h
      obtain ⟨rfl, rfl, rfl⟩ := h
      rfl
  | cons a s ih =>
      by_cases here : pat <+: a :: s
      · obtain ⟨rest, split⟩ := here
        rw [← split, cut_pattern] at h
        cases h
        exact split.symm
      · rw [cut_cons_later here] at h
        obtain ⟨⟨x, y⟩, found, parts⟩ := Option.map_eq_some_iff.mp h
        cases parts
        rw [ih found]
        rfl

theorem cut_append {pat s before after : List α} (hp : pat ≠ [])
    (h : cut pat s = some (before, after)) (more : List α) :
    cut pat (s ++ more) = some (before, after ++ more) := by
  induction s generalizing before with
  | nil => simp [cut, hp] at h
  | cons a s ih =>
      by_cases here : pat <+: a :: s
      · obtain ⟨rest, split⟩ := here
        rw [← split, cut_pattern] at h
        cases h
        rw [← split, List.append_assoc, cut_pattern]
      · rw [cut_cons_later here] at h
        obtain ⟨⟨x, y⟩, found, parts⟩ := Option.map_eq_some_iff.mp h
        cases parts
        -- a copy that starts here would have ended before the later one that was found
        have longEnough : pat.length ≤ (a :: s).length := by
          rw [eq_of_cut found]
          simp only [List.length_cons, List.length_append]
          omega
        have stillNot : ¬ pat <+: a :: (s ++ more) := fun reaches =>
          here (List.prefix_of_prefix_length_le reaches (List.prefix_append (a :: s) more)
            longEnough)
        rw [List.cons_append, cut_cons_later stillNot, ih found]
        rfl

/-- Nothing that starts with the first item of the pattern is passed over. -/
theorem cut_of_not_mem {a : α} {pat before : List α} (h : a ∉ before) (s : List α) :
    cut (a :: pat) (before ++ s) = (cut (a :: pat) s).map (fun p => (before ++ p.1, p.2)) := by
  induction before with
  | nil => simp
  | cons b before ih =>
      have other : ¬ a :: pat <+: b :: (before ++ s) := by
        intro here
        exact h (by simp [(List.cons_prefix_cons.mp here).1])
      rw [List.cons_append, cut_cons_later other,
        ih (fun m => h (List.mem_cons_of_mem b m)), Option.map_map]
      rfl

theorem cut_single {a : α} {before : List α} (h : a ∉ before) (after : List α) :
    cut [a] (before ++ a :: after) = some (before, after) := by
  rw [cut_of_not_mem h, show a :: after = [a] ++ after from rfl, cut_pattern]
  simp

theorem cut_single_eq_none {a : α} {s : List α} : cut [a] s = none ↔ a ∉ s := by
  rw [cut_eq_none_iff (by simp)]
  constructor
  · intro absent mem
    obtain ⟨before, after, rfl⟩ := List.append_of_mem mem
    exact absent ⟨before, after, by simp⟩
  · intro absent inside
    exact absent (inside.subset (by simp))

theorem not_mem_of_cut_single {a : α} {s before after : List α}
    (h : cut [a] s = some (before, after)) : a ∉ before := by
  induction s generalizing before with
  | nil => simp [cut] at h
  | cons b s ih =>
      by_cases here : [a] <+: b :: s
      · simp only [cut, here, if_true, Option.some.injEq, Prod.mk.injEq] at h
        rw [← h.1]
        exact List.not_mem_nil
      · rw [cut_cons_later here] at h
        obtain ⟨⟨x, y⟩, found, parts⟩ := Option.map_eq_some_iff.mp h
        cases parts
        have other : a ≠ b := fun same => here (by simp [same])
        simp [other, ih found]

end

section
variable {α : Type*}

/-- A copy of a pattern does not reach across an item that the pattern does not have. -/
theorem infix_append_cons_iff {pat a b : List α} {x : α} (outside : x ∉ pat) (hp : pat ≠ []) :
    pat <:+: a ++ x :: b ↔ pat <:+: a ∨ pat <:+: b := by
  constructor
  · intro inside
    induction a with
    | nil =>
        obtain here | later := List.infix_cons_iff.mp inside
        · obtain ⟨p, pat, rfl⟩ := List.exists_cons_of_ne_nil hp
          exact absurd (List.cons_prefix_cons.mp here).1 (fun same => outside (by simp [same]))
        · exact Or.inr later
    | cons c a ih =>
        obtain here | later := List.infix_cons_iff.mp inside
        · left
          by_cases short : pat.length ≤ (c :: a).length
          · exact (List.prefix_of_prefix_length_le here (List.prefix_append (c :: a) (x :: b))
              short).isInfix
          · -- a longer copy would contain the item
            have reaches : c :: a ++ [x] <+: pat := by
              have whole : c :: a ++ [x] <+: c :: a ++ x :: b := ⟨b, by simp⟩
              refine List.prefix_of_prefix_length_le whole here ?_
              simp only [List.length_append, List.length_cons, List.length_nil] at short ⊢
              omega
            exact absurd (reaches.subset (by simp)) outside
        · obtain inA | inB := ih later
          · exact Or.inl (inA.trans (List.suffix_cons c a).isInfix)
          · exact Or.inr inB
  · rintro (inA | inB)
    · exact inA.trans (List.prefix_append a (x :: b)).isInfix
    · exact inB.trans (List.suffix_append (a ++ [x]) b |>.isInfix.trans (by simp))

theorem takeWhile_run {p : α → Bool} {run : List α} (rest : List α)
    (inside : ∀ a ∈ run, p a = true) (boundary : ∀ a, rest.head? = some a → p a = false) :
    (run ++ rest).takeWhile p = run ∧ (run ++ rest).dropWhile p = rest := by
  have stopTake : rest.takeWhile p = [] := by
    cases rest with
    | nil => rfl
    | cons a rest => exact List.takeWhile_cons_of_neg (by simp [boundary a rfl])
  have stopDrop : rest.dropWhile p = rest := by
    cases rest with
    | nil => rfl
    | cons a rest => exact List.dropWhile_cons_of_neg (by simp [boundary a rfl])
  constructor
  · rw [List.takeWhile_append_of_pos inside, stopTake, List.append_nil]
  · rw [List.dropWhile_append_of_pos inside, stopDrop]

/-- The run a class of items accepts, and what is left, are the only such division. -/
theorem span_iff {p : α → Bool} {s run rest : List α} :
    (s.takeWhile p = run ∧ s.dropWhile p = rest) ↔
      s = run ++ rest ∧ (∀ a ∈ run, p a = true) ∧ ∀ a, rest.head? = some a → p a = false := by
  constructor
  · rintro ⟨rfl, rfl⟩
    refine ⟨List.takeWhile_append_dropWhile.symm, fun a ha => List.mem_takeWhile_imp ha, ?_⟩
    intro a ha
    have first := List.head?_dropWhile_not p s
    rw [ha] at first
    simpa using first
  · rintro ⟨rfl, inside, boundary⟩
    exact takeWhile_run rest inside boundary

end

def crlf : Bytes := [0x0D, 0x0A]

def emptyLine : Bytes := crlf ++ crlf

theorem crlf_ne_nil : crlf ≠ [] := by decide

theorem emptyLine_ne_nil : emptyLine ≠ [] := by decide

theorem no_emptyLine_at {line : Bytes} (plain : 0x0A ∉ line) (a : UInt8) (rest : Bytes) :
    ¬ emptyLine <+: a :: (line ++ (crlf ++ rest)) := by
  intro here
  have next := (List.cons_prefix_cons.mp here).2
  cases line with
  | nil => exact absurd (List.cons_prefix_cons.mp next).1 (by decide)
  | cons b line => exact plain (by simp [(List.cons_prefix_cons.mp next).1])

theorem no_crlf_at {line : Bytes} (plain : 0x0A ∉ line) (proper : line ≠ []) (rest : Bytes) :
    ¬ crlf <+: line ++ (crlf ++ rest) := by
  intro here
  match line, proper with
  | [a], _ =>
      have next := (List.cons_prefix_cons.mp here).2
      exact absurd (List.cons_prefix_cons.mp next).1 (by decide)
  | a :: b :: line, _ =>
      have next := (List.cons_prefix_cons.mp here).2
      exact plain (by simp [(List.cons_prefix_cons.mp next).1])

theorem cut_crlf_line {line : Bytes} (one : ¬ crlf <:+: line) (rest : Bytes) :
    cut crlf (line ++ (crlf ++ rest)) = some (line, rest) := by
  induction line with
  | nil => exact cut_pattern crlf rest
  | cons a line ih =>
      have later : ¬ crlf <+: a :: (line ++ (crlf ++ rest)) := by
        intro here
        obtain ⟨first, next⟩ := List.cons_prefix_cons.mp here
        cases line with
        | nil => exact absurd (List.cons_prefix_cons.mp next).1 (by decide)
        | cons b line =>
            have second := (List.cons_prefix_cons.mp next).1
            exact one ⟨[], line, by rw [← first, ← second]; rfl⟩
      have inner : ¬ crlf <:+: line := fun inside =>
        one (inside.trans (List.suffix_cons a line).isInfix)
      rw [List.cons_append, cut_cons_later later, ih inner]
      rfl

theorem cut_emptyLine_skip {line : Bytes} (plain : 0x0A ∉ line) (rest : Bytes) :
    cut emptyLine (line ++ (crlf ++ rest)) =
      (cut emptyLine (crlf ++ rest)).map (fun p => (line ++ p.1, p.2)) := by
  induction line with
  | nil => simp
  | cons a line ih =>
      have tailPlain : 0x0A ∉ line := fun m => plain (List.mem_cons_of_mem a m)
      rw [List.cons_append, cut_cons_later (no_emptyLine_at tailPlain a rest),
        ih tailPlain, Option.map_map]
      rfl

/-- A line end is passed over unless another one follows it. -/
theorem cut_emptyLine_crlf {rest : Bytes} (follows : ¬ crlf <+: rest) :
    cut emptyLine (crlf ++ rest) =
      (cut emptyLine rest).map (fun p => (crlf ++ p.1, p.2)) := by
  have first : ¬ emptyLine <+: 0x0D :: 0x0A :: rest := by
    intro here
    have second := (List.cons_prefix_cons.mp here).2
    exact follows (List.cons_prefix_cons.mp second).2
  have second : ¬ emptyLine <+: 0x0A :: rest := by
    intro here
    exact absurd (List.cons_prefix_cons.mp here).1 (by decide)
  change cut emptyLine (0x0D :: 0x0A :: rest) = _
  rw [cut_cons_later first, cut_cons_later second, Option.map_map]
  rfl

/-- A block of lines, none of them empty and none with a line feed inside, ends at the first
empty line. The search finds it at the end of the last line. -/
theorem cut_emptyLine_lines {lines : List Bytes} (some_line : lines ≠ [])
    (plain : ∀ l ∈ lines, 0x0A ∉ l) (proper : ∀ l ∈ lines, l ≠ []) (rest : Bytes) :
    ∃ before, before ++ crlf = lines.flatMap (· ++ crlf) ∧
      cut emptyLine (lines.flatMap (· ++ crlf) ++ (crlf ++ rest)) = some (before, rest) := by
  induction lines with
  | nil => exact absurd rfl some_line
  | cons line lines ih =>
      have linePlain : 0x0A ∉ line := plain line List.mem_cons_self
      cases lines with
      | nil =>
          refine ⟨line, by simp, ?_⟩
          have found : cut emptyLine (crlf ++ (crlf ++ rest)) = some ([], rest) := by
            rw [← List.append_assoc]
            exact cut_pattern emptyLine rest
          simp [cut_emptyLine_skip linePlain, found]
      | cons next lines =>
          obtain ⟨before, ends, found⟩ := ih (by simp)
            (fun l hl => plain l (List.mem_cons_of_mem line hl))
            (fun l hl => proper l (List.mem_cons_of_mem line hl))
          have follows : ¬ crlf <+: (next :: lines).flatMap (· ++ crlf) ++ (crlf ++ rest) := by
            have nextPlain : 0x0A ∉ next := plain next (by simp)
            have inner := no_crlf_at nextPlain (proper next (by simp))
              (lines.flatMap (· ++ crlf) ++ (crlf ++ rest))
            simpa using inner
          refine ⟨line ++ (crlf ++ before), by rw [List.flatMap_cons, ← ends]; simp, ?_⟩
          rw [List.flatMap_cons, List.append_assoc, List.append_assoc,
            cut_emptyLine_skip linePlain, cut_emptyLine_crlf follows, found]
          rfl

end ByteText
