import Mathlib.Tactic.Common

/-!
Runs of a system whose steps can stop it. A step turns a state and an action
into the next state, or ends the run with a reason. The rules below take what is
known of single steps to whole runs and to the states a run passes through.
-/

namespace Runs
universe u v w x
variable {σ : Type u} {α : Type v} {ε : Type w} {τ : Type x}

theorem bind_eq_ok {α β : Type u} {x : Except ε α} {f : α → Except ε β} {b : β}
    (h : x >>= f = .ok b) : ∃ a, x = .ok a ∧ f a = .ok b := by
  cases x with
  | error e => cases h
  | ok a => exact ⟨a, rfl, h⟩

theorem bind_eq_error {α β : Type u} {x : Except ε α} {f : α → Except ε β} {e : ε}
    (h : x >>= f = .error e) : x = .error e ∨ ∃ a, x = .ok a ∧ f a = .error e := by
  cases x with
  | error e' => exact Or.inl (congrArg Except.error (Except.error.inj h))
  | ok a => exact Or.inr ⟨a, rfl, h⟩

theorem map_eq_ok {β : Type v} {f : α → β} {x : Except ε α} {b : β} (h : x.map f = .ok b) :
    ∃ a, x = .ok a ∧ f a = b := by
  cases x with
  | error e => cases h
  | ok a => exact ⟨a, rfl, Except.ok.inj h⟩

theorem map_eq_error {β : Type v} {f : α → β} {x : Except ε α} {e : ε}
    (h : x.map f = .error e) : x = .error e := by
  cases x with
  | error e' => exact congrArg Except.error (Except.error.inj h)
  | ok a => cases h

theorem mapError_eq_ok {f : ε → τ} {x : Except ε α} {a : α} (h : x.mapError f = .ok a) :
    x = .ok a := by
  cases x with
  | error e => cases h
  | ok b => exact congrArg Except.ok (Except.ok.inj h)

/-- The steps for the actions in order, up to the first that stops the run. -/
def run (step : σ → α → Except ε σ) (s : σ) (as : List α) : Except ε σ := as.foldlM step s

section
variable {step : σ → α → Except ε σ}

@[simp] theorem run_nil (s : σ) : run step s [] = .ok s := rfl

theorem run_cons (s : σ) (a : α) (as : List α) :
    run step s (a :: as) = step s a >>= fun t => run step t as :=
  List.foldlM_cons

theorem run_cons_ok {s t : σ} {a : α} (h : step s a = .ok t) (as : List α) :
    run step s (a :: as) = run step t as := by
  rw [run, List.foldlM_cons, h]
  rfl

theorem run_cons_error {s : σ} {a : α} {e : ε} (h : step s a = .error e) (as : List α) :
    run step s (a :: as) = .error e := by
  rw [run, List.foldlM_cons, h]
  rfl

theorem run_append_ok {s t : σ} {as : List α} (h : run step s as = .ok t) (bs : List α) :
    run step s (as ++ bs) = run step t bs := by
  rw [run] at h
  rw [run, List.foldlM_append, h]
  rfl

theorem run_append_error {s : σ} {as : List α} {e : ε} (h : run step s as = .error e)
    (bs : List α) : run step s (as ++ bs) = .error e := by
  rw [run] at h
  rw [run, List.foldlM_append, h]
  rfl

theorem run_append_iff {s t : σ} {as bs : List α} :
    run step s (as ++ bs) = .ok t ↔ ∃ u, run step s as = .ok u ∧ run step u bs = .ok t := by
  constructor
  · intro h
    cases first : run step s as with
    | error e =>
        rw [run_append_error first] at h
        cases h
    | ok u =>
        rw [run_append_ok first] at h
        exact ⟨u, rfl, h⟩
  · rintro ⟨u, first, rest⟩
    rw [run_append_ok first, rest]

theorem run_cons_iff {s t : σ} {a : α} {as : List α} :
    run step s (a :: as) = .ok t ↔ ∃ u, step s a = .ok u ∧ run step u as = .ok t := by
  constructor
  · intro h
    cases first : step s a with
    | error e =>
        rw [run_cons_error first] at h
        cases h
    | ok u =>
        rw [run_cons_ok first] at h
        exact ⟨u, rfl, h⟩
  · rintro ⟨u, first, rest⟩
    rw [run_cons_ok first, rest]

/-- A property that the steps of a run keep holds at its end. -/
theorem run_keeps (P : σ → Prop) {as : List α}
    (keep : ∀ a ∈ as, ∀ s t, P s → step s a = .ok t → P t) {s t : σ} (start : P s)
    (h : run step s as = .ok t) : P t := by
  induction as generalizing s with
  | nil => exact Except.ok.inj h ▸ start
  | cons a as ih =>
      obtain ⟨u, first, rest⟩ := run_cons_iff.mp h
      exact ih (fun b hb => keep b (by simp [hb])) (keep a (by simp) s u start first) rest

theorem run_invariant (P : σ → Prop) (keep : ∀ s a t, P s → step s a = .ok t → P t) {s t : σ}
    {as : List α} (start : P s) (h : run step s as = .ok t) : P t :=
  run_keeps P (fun a _ s t => keep s a t) start h

theorem run_stops {s : σ} {as : List α} {e : ε} (h : run step s as = .error e) :
    ∃ pre a post t, as = pre ++ a :: post ∧ run step s pre = .ok t ∧ step t a = .error e := by
  induction as generalizing s with
  | nil => cases h
  | cons a as ih =>
      cases first : step s a with
      | error e' =>
          rw [run_cons_error first] at h
          exact ⟨[], a, as, s, rfl, rfl, by rw [first, Except.error.inj h]⟩
      | ok u =>
          rw [run_cons_ok first] at h
          obtain ⟨pre, b, post, t, rfl, before, stop⟩ := ih h
          exact ⟨a :: pre, b, post, t, rfl, by rw [run_cons_ok first, before], stop⟩

theorem step_of_mem_run {s t : σ} {as : List α} (h : run step s as = .ok t) {a : α}
    (mem : a ∈ as) : ∃ u v, step u a = .ok v := by
  obtain ⟨pre, post, rfl⟩ := List.append_of_mem mem
  obtain ⟨u, -, rest⟩ := run_append_iff.mp h
  obtain ⟨v, here, -⟩ := run_cons_iff.mp rest
  exact ⟨u, v, here⟩

/-- A property of every state a run passes through, its first and last included. -/
def Always (step : σ → α → Except ε σ) (P : σ → Prop) (s : σ) (as : List α) : Prop :=
  ∀ pre post t, as = pre ++ post → run step s pre = .ok t → P t

/-- Every step of a run is taken from a state that meets a condition on the action. -/
def EveryStep (step : σ → α → Except ε σ) (C : σ → α → Prop) (s : σ) (as : List α) : Prop :=
  ∀ pre a post t, as = pre ++ a :: post → run step s pre = .ok t → C t a

theorem EveryStep.nil {C : σ → α → Prop} (s : σ) : EveryStep step C s [] := by
  intro pre a post t split
  simp at split

theorem EveryStep.cons {C : σ → α → Prop} {s t : σ} {a : α} {as : List α} (here : C s a)
    (first : step s a = .ok t) (rest : EveryStep step C t as) :
    EveryStep step C s (a :: as) := by
  intro pre b post u split runs
  cases pre with
  | nil =>
      obtain ⟨rfl, -⟩ := List.cons.inj split
      exact Except.ok.inj runs ▸ here
  | cons c pre =>
      obtain ⟨rfl, rfl⟩ := List.cons.inj split
      rw [run_cons_ok first] at runs
      exact rest pre b post u rfl runs

theorem EveryStep.tail {C : σ → α → Prop} {s t : σ} {a : α} {as : List α}
    (h : EveryStep step C s (a :: as)) (first : step s a = .ok t) : EveryStep step C t as := by
  intro pre b post u split runs
  exact h (a :: pre) b post u (by rw [split]; rfl) (by rw [run_cons_ok first, runs])

theorem EveryStep.append_left {C : σ → α → Prop} {s : σ} {as bs : List α}
    (h : EveryStep step C s (as ++ bs)) : EveryStep step C s as := by
  intro pre a post t split runs
  exact h pre a (post ++ bs) t (by rw [split]; simp) runs

/-- A property that the steps meeting a condition keep holds in every state of a run
whose steps all meet it. -/
theorem always_of_everyStep (P : σ → Prop) {C : σ → α → Prop}
    (keep : ∀ s a t, P s → C s a → step s a = .ok t → P t) {s : σ} {as : List α}
    (start : P s) (every : EveryStep step C s as) : Always step P s as := by
  have final (bs : List α) (s : σ) (start : P s) (every : EveryStep step C s bs) (t : σ)
      (runs : run step s bs = .ok t) : P t := by
    induction bs generalizing s with
    | nil => exact Except.ok.inj runs ▸ start
    | cons b bs ih =>
        obtain ⟨u, first, rest⟩ := run_cons_iff.mp runs
        have here : C s b := every [] b bs s rfl rfl
        exact ih u (keep s b u start here first) (every.tail first) rest
  intro pre post t split runs
  rw [split] at every
  exact final pre s start every.append_left t runs

/-- To show a condition of every step, a property may be used that the steps meeting the
condition keep. -/
theorem everyStep_of_invariant (P : σ → Prop) {C : σ → α → Prop} {s : σ} {as : List α}
    (start : P s) (keep : ∀ s a t, P s → C s a → step s a = .ok t → P t)
    (meets : ∀ pre a post t, as = pre ++ a :: post → run step s pre = .ok t → P t → C t a) :
    EveryStep step C s as := by
  induction as generalizing s with
  | nil => exact .nil s
  | cons a as ih =>
      have here : C s a := meets [] a as s rfl rfl start
      intro pre b post t split runs
      cases pre with
      | nil =>
          obtain ⟨rfl, -⟩ := List.cons.inj split
          exact Except.ok.inj runs ▸ here
      | cons c pre =>
          obtain ⟨rfl, rfl⟩ := List.cons.inj split
          obtain ⟨u, first, rest⟩ := run_cons_iff.mp runs
          refine ih (keep s a u start here first) ?_ pre b post t rfl rest
          intro pre' b' post' t' split' runs'
          exact meets (a :: pre') b' post' t' (by rw [split']; rfl)
            (by rw [run_cons_ok first, runs'])

/-- A system whose steps are those of another, under other names for states, actions and
reasons to stop, has its runs. -/
theorem run_transport {γ δ : Type*} {β : Type*} {other : τ → β → Except δ τ} (f : σ → τ)
    (k : ε → δ) (m : γ → β) (n : γ → α)
    (follow : ∀ s g, other (f s) (m g) = ((step s (n g)).map f).mapError k) (s : σ)
    (gs : List γ) : run other (f s) (gs.map m) = ((run step s (gs.map n)).map f).mapError k := by
  induction gs generalizing s with
  | nil => rfl
  | cons g gs ih =>
      cases first : step s (n g) with
      | error e =>
          have stops : other (f s) (m g) = .error (k e) := by
            rw [follow, first]
            rfl
          rw [List.map_cons, List.map_cons, run_cons_error stops, run_cons_error first]
          rfl
      | ok t =>
          have goesOn : other (f s) (m g) = .ok (f t) := by
            rw [follow, first]
            rfl
          rw [List.map_cons, List.map_cons, run_cons_ok goesOn, run_cons_ok first, ih]

/-- Steps that follow a system whose steps never stop make runs that follow it. -/
theorem run_simulates (next : τ → α → τ) (R : σ → τ → Prop) (as : List α)
    (follow : ∀ a ∈ as, ∀ s b, R s b → ∃ t, step s a = .ok t ∧ R t (next b a))
    {s : σ} {b : τ} (start : R s b) :
    ∃ t, run step s as = .ok t ∧ R t (as.foldl next b) := by
  induction as generalizing s b with
  | nil => exact ⟨s, rfl, start⟩
  | cons a as ih =>
      obtain ⟨u, first, related⟩ := follow a (by simp) s b start
      obtain ⟨t, rest, done⟩ := ih (fun c hc => follow c (by simp [hc])) related
      exact ⟨t, by rw [run_cons_ok first, rest], done⟩

end

end Runs
