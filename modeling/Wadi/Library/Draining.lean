import Wadi.Library.Runs

/-!
Working off a buffer that is filled in pieces.

A round looks at a state and at all that is in the buffer. It stops with a result, or waits for
more input, or goes on with a shorter buffer; `drain` repeats rounds until one does not go on.
When every round decides the same whatever is appended to the buffer, or picks up where it
waited, the pieces in which the input arrives do not matter: feeding them one by one is draining
all of them at once.
-/

namespace Draining
open Runs
universe u v w
variable {σ : Type u} {β : Type v} {ρ : Type w}

/-- The end of one round: a result, or the state and what is left in the buffer. -/
inductive Round (σ : Type u) (β : Type v) (ρ : Type w) where
  | stop (result : ρ)
  | wait (s : σ) (rest : List β)
  | next (s : σ) (rest : List β)

/-- One property for each of the three ends of a round. -/
def Round.Leaves (I J : σ → List β → Prop) (R : ρ → Prop) : Round σ β ρ → Prop
  | stop r => R r
  | wait t rest => J t rest
  | next t rest => I t rest

def drainWithin (round : σ → List β → Round σ β ρ) : Nat → σ → List β → Except ρ (σ × List β)
  | 0, s, buffer => .ok (s, buffer)
  | n + 1, s, buffer =>
      match round s buffer with
      | .stop r => .error r
      | .wait s rest => .ok (s, rest)
      | .next s rest => drainWithin round n s rest

/-- Rounds until one stops or waits. The bound is never reached when every round that goes on
takes something out of the buffer. -/
def drain (round : σ → List β → Round σ β ρ) (s : σ) (buffer : List β) :
    Except ρ (σ × List β) :=
  drainWithin round (buffer.length + 1) s buffer

def Shrinks (round : σ → List β → Round σ β ρ) : Prop :=
  ∀ s buffer t rest, round s buffer = .next t rest → rest.length < buffer.length

/-- What later input does to a round: nothing, except that a round which waited is taken up
again from where it waited. -/
def Continues (round : σ → List β → Round σ β ρ) (s : σ) (buffer more : List β) : Prop :=
  match round s buffer with
  | .stop r => round s (buffer ++ more) = .stop r
  | .next t rest => round s (buffer ++ more) = .next t (rest ++ more)
  | .wait t rest =>
      round s (buffer ++ more) = round t (rest ++ more) ∨
        round s (buffer ++ more) = .next t (rest ++ more)

structure Resumable (round : σ → List β → Round σ β ρ) : Prop where
  shrinks : Shrinks round
  continues : ∀ s buffer more, Continues round s buffer more

section
variable {round : σ → List β → Round σ β ρ}

theorem drainWithin_enough (shrinks : Shrinks round) {m n : Nat} {s : σ} {buffer : List β}
    (hm : buffer.length < m) (hn : buffer.length < n) :
    drainWithin round m s buffer = drainWithin round n s buffer := by
  induction m generalizing n s buffer with
  | zero => omega
  | succ m ih =>
      obtain ⟨n, rfl⟩ : ∃ k, n = k + 1 := ⟨n - 1, by omega⟩
      simp only [drainWithin]
      cases h : round s buffer with
      | stop r => rfl
      | wait t rest => rfl
      | next t rest =>
          have less := shrinks s buffer t rest h
          exact ih (by omega) (by omega)

theorem drain_stop {s : σ} {buffer : List β} {r : ρ} (h : round s buffer = .stop r) :
    drain round s buffer = .error r := by
  simp only [drain, drainWithin, h]

theorem drain_wait {s t : σ} {buffer rest : List β} (h : round s buffer = .wait t rest) :
    drain round s buffer = .ok (t, rest) := by
  simp only [drain, drainWithin, h]

theorem drain_next (shrinks : Shrinks round) {s t : σ} {buffer rest : List β}
    (h : round s buffer = .next t rest) : drain round s buffer = drain round t rest := by
  have less := shrinks s buffer t rest h
  rw [drain, drainWithin, h]
  exact drainWithin_enough shrinks less (Nat.lt_succ_self _)

theorem drain_congr {s t : σ} {a b : List β} (shrinks : Shrinks round)
    (h : round s a = round t b) : drain round s a = drain round t b := by
  cases hb : round t b with
  | stop r => rw [drain_stop hb, drain_stop (h.trans hb)]
  | wait u rest => rw [drain_wait hb, drain_wait (h.trans hb)]
  | next u rest => exact (drain_next shrinks (h.trans hb)).trans (drain_next shrinks hb).symm

theorem drain_induction (shrinks : Shrinks round) {P : σ → List β → Prop}
    (stop : ∀ s buffer r, round s buffer = .stop r → P s buffer)
    (wait : ∀ s buffer t rest, round s buffer = .wait t rest → P s buffer)
    (next : ∀ s buffer t rest, round s buffer = .next t rest → P t rest → P s buffer)
    (s : σ) (buffer : List β) : P s buffer := by
  induction hn : buffer.length using Nat.strongRecOn generalizing s buffer with
  | ind n ih =>
      cases h : round s buffer with
      | stop r => exact stop s buffer r h
      | wait t rest => exact wait s buffer t rest h
      | next t rest =>
          exact next s buffer t rest h (ih _ (hn ▸ shrinks s buffer t rest h) t rest rfl)

/-- What the rounds keep shows in the result, or in what a wait has left. -/
theorem drain_leaves (shrinks : Shrinks round) {I J : σ → List β → Prop} {R : ρ → Prop}
    (keeps : ∀ s buffer, I s buffer → (round s buffer).Leaves I J R) (s : σ) (buffer : List β)
    (start : I s buffer) :
    (∃ r, drain round s buffer = .error r ∧ R r) ∨
      ∃ t rest, drain round s buffer = .ok (t, rest) ∧ J t rest := by
  revert start
  refine drain_induction shrinks (P := fun s buffer => I s buffer →
    (∃ r, drain round s buffer = .error r ∧ R r) ∨
      ∃ t rest, drain round s buffer = .ok (t, rest) ∧ J t rest) ?_ ?_ ?_ s buffer
  · intro s buffer r h start
    have left := keeps s buffer start
    rw [h] at left
    exact Or.inl ⟨r, drain_stop h, left⟩
  · intro s buffer t rest h start
    have left := keeps s buffer start
    rw [h] at left
    exact Or.inr ⟨t, rest, drain_wait h, left⟩
  · intro s buffer t rest h ih start
    have left := keeps s buffer start
    rw [h] at left
    rw [drain_next shrinks h]
    exact ih left

theorem drain_stops (shrinks : Shrinks round) {I : σ → List β → Prop} {R : ρ → Prop}
    (keeps : ∀ s buffer, I s buffer → (round s buffer).Leaves I (fun _ _ => False) R) (s : σ)
    (buffer : List β) (start : I s buffer) : ∃ r, drain round s buffer = .error r ∧ R r := by
  obtain result | ⟨_, _, _, never⟩ := drain_leaves shrinks keeps s buffer start
  · exact result
  · exact never.elim

/-- Input that arrives after a stop is not looked at, input that arrives during a wait
continues it. -/
theorem drain_append (resumable : Resumable round) (s : σ) (buffer more : List β) :
    drain round s (buffer ++ more) =
      drain round s buffer >>= fun p => drain round p.1 (p.2 ++ more) := by
  refine drain_induction resumable.shrinks
    (P := fun s buffer => drain round s (buffer ++ more) =
      drain round s buffer >>= fun p => drain round p.1 (p.2 ++ more)) ?_ ?_ ?_ s buffer
  · intro s buffer r h
    have later := resumable.continues s buffer more
    rw [Continues, h] at later
    rw [drain_stop h, drain_stop later]
    rfl
  · intro s buffer t rest h
    have later := resumable.continues s buffer more
    rw [Continues, h] at later
    rw [drain_wait h]
    change _ = drain round t (rest ++ more)
    obtain same | goesOn := later
    · exact drain_congr resumable.shrinks same
    · exact drain_next resumable.shrinks goesOn
  · intro s buffer t rest h ih
    have later := resumable.continues s buffer more
    rw [Continues, h] at later
    rw [drain_next resumable.shrinks h, ← ih]
    exact drain_next resumable.shrinks later

def feed (round : σ → List β → Round σ β ρ) (p : σ × List β) (piece : List β) :
    Except ρ (σ × List β) :=
  drain round p.1 (p.2 ++ piece)

/-- Nothing can be done with the buffer as it is. -/
def Settled (round : σ → List β → Round σ β ρ) (p : σ × List β) : Prop :=
  drain round p.1 p.2 = .ok p

theorem settled_of_drain (resumable : Resumable round) {s : σ} {buffer : List β}
    {p : σ × List β} (h : drain round s buffer = .ok p) : Settled round p := by
  have again := drain_append resumable s buffer []
  rw [List.append_nil, h] at again
  have rest : .ok p = drain round p.1 (p.2 ++ []) := again
  rw [List.append_nil] at rest
  exact rest.symm

/-- However the input is cut, feeding it is draining it whole. -/
theorem run_feed (resumable : Resumable round) {p : σ × List β} (settled : Settled round p)
    (pieces : List (List β)) :
    run (feed round) p pieces = drain round p.1 (p.2 ++ pieces.flatten) := by
  induction pieces generalizing p with
  | nil =>
      rw [run_nil, List.flatten_nil, List.append_nil]
      exact settled.symm
  | cons piece pieces ih =>
      rw [List.flatten_cons, ← List.append_assoc, drain_append resumable]
      cases h : drain round p.1 (p.2 ++ piece) with
      | error r => exact run_cons_error h pieces
      | ok q =>
          rw [run_cons_ok (h : feed round p piece = .ok q) pieces]
          exact ih (settled_of_drain resumable h)

end

end Draining
