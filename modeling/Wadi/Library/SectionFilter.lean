import Mathlib.Data.List.Induction
import Mathlib.Tactic.Common

/-!
A one-pass filter over lines that buffers one section at a time.

A header line opens a section and stays pending. Entries and the details
that belong to an admitted entry are filed, other lines are held, and both
buffers are written behind the pending header when a closing line arrives.
Lines that arrive while nothing is pending are written at once. The admitted
entries are never forgotten, and neither buffer is written at the end of the
input: these two choices are part of the machine, not of its use.

Nothing is assumed about the lines beyond their roles. An output item keeps the
input line it was made from, so results about the output can speak of origin.
-/

namespace SectionFilter
universe u v
variable {L : Type u} {K : Type v}

inductive Role where
  | header
  | entry
  | detail
  | closer
  | plain
  deriving DecidableEq, Repr

structure Rules (L : Type u) where
  role : L → Role
  admits : L → Bool
  covers : L → L → Bool

inductive Item (L : Type u) where
  | line (l : L)
  | header (m : L) (admitted : List L)
  deriving DecidableEq, Repr

structure Buffers (L : Type u) where
  emitted : List (Item L) := []
  pending : Option L := none
  held : List L := []
  filed : List L := []
  admitted : List L := []

/-- The items written when a pending header is closed. -/
def Buffers.block (b : Buffers L) (m : L) : List (Item L) :=
  .header m b.admitted :: (b.held ++ b.filed).map .line

def Buffers.close (b : Buffers L) : Buffers L :=
  match b.pending with
  | some m => { emitted := b.emitted ++ b.block m, admitted := b.admitted }
  | none => b

def Buffers.pass (b : Buffers L) (l : L) : Buffers L :=
  match b.pending with
  | some _ => { b with held := b.held ++ [l] }
  | none => { b with emitted := b.emitted ++ [.line l] }

def step (R : Rules L) (b : Buffers L) (l : L) : Buffers L :=
  match R.role l with
  | .header => { b with pending := some l }
  | .entry =>
      if R.admits l then
        { b with filed := b.filed ++ [l], admitted := b.admitted ++ [l] }
      else b
  | .detail =>
      if b.admitted.any (R.covers · l) then { b with filed := b.filed ++ [l] } else b
  | .closer => b.close.pass l
  | .plain => b.pass l

def run (R : Rules L) (b : Buffers L) (ls : List L) : Buffers L := ls.foldl (step R) b

/-- What the filter writes for a whole input. -/
def output (R : Rules L) (ls : List L) : List (Item L) := (run R {} ls).emitted

def Rules.admitted (R : Rules L) (l : L) : Bool := R.role l == .entry && R.admits l

/-- Lines the filter passes on unread. -/
def Rules.passes (R : Rules L) (l : L) : Bool := R.role l == .closer || R.role l == .plain

@[simp] theorem run_nil (R : Rules L) (b : Buffers L) : run R b [] = b := rfl

@[simp] theorem run_cons (R : Rules L) (b : Buffers L) (l : L) (ls : List L) :
    run R b (l :: ls) = run R (step R b l) ls := rfl

theorem run_append (R : Rules L) (b : Buffers L) (ls ks : List L) :
    run R b (ls ++ ks) = run R (run R b ls) ks :=
  List.foldl_append

/-- A property of input and state that holds at the start and survives one more
line holds after every input. -/
theorem run_induction (R : Rules L) (P : List L → Buffers L → Prop) (start : P [] {})
    (next : ∀ pre l, P pre (run R {} pre) → P (pre ++ [l]) (step R (run R {} pre) l))
    (ls : List L) : P ls (run R {} ls) := by
  induction ls using List.reverseRecOn with
  | nil => exact start
  | append_singleton pre l ih =>
      rw [run_append]
      exact next pre l ih

/-- Every way in which one line can change the buffers. -/
theorem step_cases (R : Rules L) (b : Buffers L) (l : L) :
    (R.role l = .header ∧ step R b l = { b with pending := some l }) ∨
    (R.role l = .entry ∧ R.admits l = true ∧ step R b l =
      { b with filed := b.filed ++ [l], admitted := b.admitted ++ [l] }) ∨
    (R.role l = .detail ∧ b.admitted.any (R.covers · l) = true ∧
      step R b l = { b with filed := b.filed ++ [l] }) ∨
    (((R.role l = .entry ∧ R.admits l = false) ∨
      (R.role l = .detail ∧ b.admitted.any (R.covers · l) = false)) ∧ step R b l = b) ∨
    (∃ m, R.role l = .closer ∧ b.pending = some m ∧ step R b l =
      { emitted := b.emitted ++ b.block m ++ [.line l], admitted := b.admitted }) ∨
    (R.role l = .plain ∧ b.pending.isSome = true ∧
      step R b l = { b with held := b.held ++ [l] }) ∨
    (R.passes l = true ∧ b.pending = none ∧
      step R b l = { b with emitted := b.emitted ++ [.line l] }) := by
  cases hr : R.role l with
  | header => simp [step, hr, Rules.passes]
  | entry =>
      cases ha : R.admits l <;> simp [step, hr, ha, Rules.passes]
  | detail =>
      cases ha : b.admitted.any (R.covers · l) <;> simp [step, hr, ha, Rules.passes]
  | closer =>
      cases hp : b.pending with
      | none => simp [step, hr, hp, Rules.passes, Buffers.close, Buffers.pass]
      | some m => simp [step, hr, hp, Buffers.close, Buffers.pass]
  | plain =>
      cases hp : b.pending <;> simp [step, hr, hp, Rules.passes, Buffers.pass]

theorem step_admitted (R : Rules L) (b : Buffers L) (l : L) :
    (step R b l).admitted = b.admitted ++ [l].filter R.admitted := by
  obtain ⟨role, eq⟩ | ⟨role, adm, eq⟩ | ⟨role, -, eq⟩ | ⟨skip, eq⟩ |
    ⟨m, role, -, eq⟩ | ⟨role, -, eq⟩ | ⟨pass, -, eq⟩ := step_cases R b l <;> rw [eq]
  · simp [Rules.admitted, role]
  · simp [Rules.admitted, role, adm]
  · simp [Rules.admitted, role]
  · obtain ⟨role, adm⟩ | ⟨role, -⟩ := skip <;> simp_all [Rules.admitted]
  · simp [Rules.admitted, role]
  · simp [Rules.admitted, role]
  · cases role : R.role l <;> simp_all [Rules.admitted, Rules.passes]

theorem run_admitted (R : Rules L) (ls : List L) :
    (run R {} ls).admitted = ls.filter R.admitted := by
  apply run_induction R (fun pre b => b.admitted = pre.filter R.admitted)
  · rfl
  · intro pre l ih
    rw [step_admitted, ih, List.filter_append]

end SectionFilter
