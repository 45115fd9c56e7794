import Wadi.Session.Model

/-!
When an answer is applied. The callback means to give up unless the offer was
accepted, but the test reads an enumerator, not the received code, and never
fires. Whatever the server replied, a body that parses is applied.
-/

namespace Wadi
open SizeString LineText ByteText Runs

section
variable {Rest Answer : Type} {parseAnswer : Str → Option Answer}

def Http.Status.isSuccess (s : Http.Status) : Prop := 200 ≤ s.code ∧ s.code < 300

instance (s : Http.Status) : Decidable s.isSuccess :=
  inferInstanceAs (Decidable (200 ≤ s.code ∧ s.code < 300))

theorem answers_onSuccess {s t : Session Rest Answer} {desc : Str} {response : Http.Response}
    (h : s.onSuccess parseAnswer desc response = .ok t) :
    t.answers = s.answers ++ (parseAnswer response.text).toList := by
  cases hpc : s.pc with
  | none =>
      rw [onSuccess_of_no_pc parseAnswer hpc] at h
      cases h
  | some pc =>
      cases hs : s.limitFirst pc.senders with
      | error e =>
          cases senders : pc.senders with
          | nil =>
              rw [onSuccess_of_no_sender parseAnswer hpc senders] at h
              cases h
          | cons sender rest =>
              rw [senders, Session.limitFirst] at hs
              cases hs
      | ok senders =>
          rw [onSuccess_of_sender parseAnswer hpc hs] at h
          cases ht : s.offerText desc with
          | error e =>
              rw [ht] at h
              cases h
          | ok text =>
              rw [ht] at h
              obtain rfl := Except.ok.inj h
              simp [Session.answers, hpc]

/-- At every callback of the run, an answer is applied only after a success code
and with a body that parses. -/
def AnswersGuarded (parseAnswer : Str → Option Answer) (start : Session Rest Answer)
    (actions : List (SessionAction Rest)) : Prop :=
  ∀ pre desc response post s t, actions = pre ++ .onSuccess desc response :: post →
    run (sessionStep parseAnswer) start pre = .ok s →
    sessionStep parseAnswer s (.onSuccess desc response) = .ok t →
    t.answers ≠ s.answers →
      response.status.isSuccess ∧ (parseAnswer response.text).isSome = true

/-- A run guards its answers exactly when each response has a success code or a
body that does not parse. -/
theorem answersGuarded_iff (parseAnswer : Str → Option Answer)
    (start final : Session Rest Answer) (actions : List (SessionAction Rest))
    (runs : run (sessionStep parseAnswer) start actions = .ok final) :
    AnswersGuarded parseAnswer start actions ↔
      ∀ desc response, .onSuccess desc response ∈ actions →
        response.status.isSuccess ∨ parseAnswer response.text = none := by
  constructor
  · intro guarded desc response mem
    obtain ⟨pre, post, split⟩ := List.append_of_mem mem
    rw [split] at runs
    obtain ⟨s, before, after⟩ := run_append_iff.mp runs
    obtain ⟨t, here, -⟩ := run_cons_iff.mp after
    have applied := answers_onSuccess here
    cases hp : parseAnswer response.text with
    | none => exact Or.inr rfl
    | some answer =>
        have changed : t.answers ≠ s.answers := by simp [applied, hp]
        exact Or.inl (guarded pre desc response post s t split before here changed).1
  · intro fine pre desc response post s t split before here changed
    have applied := answers_onSuccess here
    cases hp : parseAnswer response.text with
    | none => simp [applied, hp] at changed
    | some answer =>
        obtain success | unparsed := fine desc response (by simp [split])
        · exact ⟨success, rfl⟩
        · simp [hp] at unparsed

end

/-- The lines every session description must have, and nothing else. -/
def plainAnswer : Str := crlfText
  ["v=0".toList, "o=- 1 1 IN IP4 127.0.0.1".toList, "s=-".toList, "t=0 0".toList]

def parsePlain (text : Str) : Option Unit := if text = plainAnswer then some () else none

def cameraSession (code : UInt16) : List (SessionAction Unit) :=
  [.initializeSession true, .createConnection true,
    .addCaptureDevice true (some ⟨[⟨none, none, ()⟩], ()⟩), .createOffer,
    .onSuccess plainAnswer ⟨⟨⟨1, 1⟩, code, []⟩, [], ofStr plainAnswer⟩]

theorem cameraSession_created_guarded :
    AnswersGuarded parsePlain { url := [] } (cameraSession 201) := by
  have runs : ∃ final, run (sessionStep parsePlain) { url := [] } (cameraSession 201) = .ok final :=
    ⟨_, rfl⟩
  obtain ⟨final, runs⟩ := runs
  refine (answersGuarded_iff parsePlain _ final _ runs).mpr ?_
  intro desc response mem
  simp only [cameraSession, List.mem_cons, reduceCtorEq, SessionAction.onSuccess.injEq,
    List.not_mem_nil, false_or, or_false] at mem
  obtain ⟨-, rfl⟩ := mem
  exact Or.inl (by decide)

/-- The server refuses the offer and the body of its reply is applied as the answer. -/
theorem cameraSession_notFound_not_guarded :
    ∃ final, run (sessionStep parsePlain) { url := [] } (cameraSession 404) = .ok final ∧
      final.answers = [()] ∧ ¬ AnswersGuarded parsePlain { url := [] } (cameraSession 404) := by
  refine ⟨_, rfl, rfl, fun guarded => ?_⟩
  have split : cameraSession 404 = (cameraSession 404).take 4 ++ (cameraSession 404).drop 4 :=
    (List.take_append_drop 4 _).symm
  have refused := guarded ((cameraSession 404).take 4) _ _ [] _ _ split rfl rfl
    (List.cons_ne_nil () [])
  exact absurd refused.1 (by decide)

end Wadi
