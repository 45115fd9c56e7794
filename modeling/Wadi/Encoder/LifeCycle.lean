import Wadi.Encoder.Driver

/-!
The life of the `encoded_images` arrays. `InitEncode` clears the context and with
it the pointer to the array of an earlier `InitEncode`; `Release` deletes the array
and keeps the pointer. Whether an array is deleted once, not used afterwards and not
forgotten is therefore left to the order of the calls.

The ledger says of every array ever allocated whether it has been deleted. `Phase` is
what the calls so far amount to. The order that keeps the arrays, and the only one: each
`InitEncode` is followed by one `Release` before the next one, and between a `Release` and
the next `InitEncode` no `Encode` and no callback comes to its image.
-/

namespace Wadi
open Runs JetsonEncoder

namespace JetsonEncoder

/-- The arrays allocated so far, each with whether it has been deleted. -/
def ledger (e : JetsonEncoder) : List Bool := e.arrays.map (·.deleted)

end JetsonEncoder

/-- No array but the current one is live. -/
def NoneDropped (e : JetsonEncoder) : Prop :=
  ∀ p : Nat, e.ledger[p]? = some false → e.ctx.encodedImages = some p

inductive Phase where
  | fresh
  | active
  | released
  deriving DecidableEq, Repr

def Phase.next (phase : Phase) : DriverAction → Phase
  | .encoder (.initEncode ..) => .active
  | .encoder (.release _) => if phase = .active then .released else phase
  | _ => phase

/-- The encoder together with the phase its calls have brought it to. -/
def phasedStep (s : JetsonEncoder × Phase) (a : DriverAction) :
    Except EncoderFault (JetsonEncoder × Phase) :=
  (driverStep s.1 a).map (fun e => (e, s.2.next a))

/-- An `Encode` or a callback that does not return before it comes to its image. -/
def ReachesImage (e : JetsonEncoder) : EncoderAction → Prop
  | .encode frame o => ∃ enc index plane copied,
      Reaches e enc frame o index plane copied ∧ syncPlanes o copied.numPlanes = none
  | .callback o => ∃ enc index, e.ctx.enc = some enc ∧ e.thread = .inCallback (some index) ∧
      o.bytesused ≠ 0
  | _ => False

def OutOfOrder (phase : Phase) (e : JetsonEncoder) : DriverAction → Prop
  | .encoder (.initEncode _ _ setup _ _) => phase = .active ∧ setup = true
  | .encoder (.release _) => phase = .released
  | .encoder a => phase = .released ∧ ReachesImage e a
  | .offer _ => False

/-- No call is out of order. -/
def InOrder (actions : List DriverAction) : Prop :=
  EveryStep phasedStep (fun s a => ¬ OutOfOrder s.2 s.1 a) ({}, .fresh) actions

/-- What the ledger looks like in each phase. -/
def Kept : Phase → JetsonEncoder → Prop
  | .fresh, e => e.ctx.encodedImages = none ∧ e.ledger = []
  | .active, e => ∃ k, e.ctx.encodedImages = some k ∧ e.ledger = List.replicate k true ++ [false]
  | .released, e => ∃ k, e.ctx.encodedImages = some k ∧ e.ledger = List.replicate (k + 1) true

theorem Kept.noneDropped {phase : Phase} {e : JetsonEncoder} (h : Kept phase e) :
    NoneDropped e := by
  intro p live
  cases phase with
  | fresh => simp [h.2] at live
  | active =>
      obtain ⟨k, current, ledger⟩ := h
      rw [ledger, List.getElem?_append] at live
      by_cases before : p < k
      · simp [before] at live
      · simp only [List.length_replicate, before, if_false] at live
        obtain ⟨inside, -⟩ := List.getElem?_eq_some_iff.mp live
        have last : p = k := by
          simp only [List.length_singleton] at inside
          omega
        rw [current, last]
  | released =>
      obtain ⟨k, -, ledger⟩ := h
      rw [ledger] at live
      have := List.eq_of_mem_replicate (List.mem_of_getElem? live)
      cases this

theorem Kept.of_same {phase : Phase} {e f : JetsonEncoder} (h : Kept phase e)
    (ledger : f.ledger = e.ledger) (current : f.ctx.encodedImages = e.ctx.encodedImages) :
    Kept phase f := by
  cases phase <;> simpa only [Kept, ledger, current] using h

namespace JetsonEncoder

theorem ledger_of_array {e : JetsonEncoder} {p : Nat} {array : ImageArray} {deleted : Bool}
    (slot : e.arrays[p]? = some array) (h : array.deleted = deleted) :
    e.ledger[p]? = some deleted := by
  rw [ledger, List.getElem?_map, slot, Option.map_some, h]

theorem ledger_of_step {e f : JetsonEncoder} {a : DriverAction} (h : driverStep e a = .ok f)
    (init : ∀ width height setup captureBuffers outputBuffers,
      a ≠ .encoder (.initEncode width height setup captureBuffers outputBuffers))
    (release : ∀ inError, a ≠ .encoder (.release inError)) :
    f.ledger = e.ledger ∧ f.ctx.encodedImages = e.ctx.encodedImages :=
  arrays_of_step (·.deleted) (fun _ _ _ => rfl) h init release

end JetsonEncoder

theorem Kept.initEncode {phase : Phase} {e f : JetsonEncoder} {width height : UInt32}
    {setup : Bool} {captureBuffers : Nat} {outputBuffers : List NvBuffer} (h : Kept phase e)
    (order : phase ≠ .active)
    (init : e.initEncode width height setup captureBuffers outputBuffers = .ok f) :
    Kept .active f := by
  cases setup with
  | false => cases init
  | true =>
      obtain rfl := Except.ok.inj init
      have deleted : e.ledger = List.replicate e.arrays.length true := by
        cases phase with
        | fresh =>
            have none : e.arrays = [] := List.map_eq_nil_iff.mp h.2
            rw [h.2, none]
            rfl
        | active => exact absurd rfl order
        | released =>
            obtain ⟨k, -, ledger⟩ := h
            have length := congrArg List.length ledger
            rw [JetsonEncoder.ledger, List.length_map, List.length_replicate] at length
            rw [ledger, length]
      refine ⟨e.arrays.length, rfl, ?_⟩
      rw [JetsonEncoder.ledger, List.map_append, ← deleted]
      rfl

theorem Kept.release {phase : Phase} {e f : JetsonEncoder} {inError : Bool} {code : Int}
    (h : Kept phase e) (order : phase ≠ .released) (release : e.release inError = .ok (f, code)) :
    Kept (phase.next (.encoder (.release inError))) f := by
  cases phase with
  | fresh =>
      obtain ⟨-, rfl⟩ | ⟨p, array, current, -⟩ := release_cases release
      · exact h
      · rw [h.1] at current
        cases current
  | active =>
      obtain ⟨k, current, ledger⟩ := h
      obtain ⟨none, -⟩ | ⟨p, array, same, -, -, rfl⟩ := release_cases release
      · rw [current] at none
        cases none
      · obtain rfl : k = p := Option.some.inj (current.symm.trans same)
        refine ⟨k, current, ?_⟩
        have deleted : (e.arrays.set k { array with deleted := true }).map (·.deleted) =
            e.ledger.set k true := List.map_set
        rw [JetsonEncoder.ledger, deleted, ledger, List.set_append_right k true (by simp),
          List.replicate_succ']
        simp
  | released => exact absurd rfl order

theorem kept_step {phase : Phase} {e f : JetsonEncoder} {a : DriverAction} (h : Kept phase e)
    (order : ¬ OutOfOrder phase e a) (step : driverStep e a = .ok f) :
    Kept (phase.next a) f := by
  have quiet (same : phase.next a = phase)
      (init : ∀ width height setup captureBuffers outputBuffers,
        a ≠ .encoder (.initEncode width height setup captureBuffers outputBuffers))
      (release : ∀ inError, a ≠ .encoder (.release inError)) : Kept (phase.next a) f := by
    obtain ⟨ledger, current⟩ := ledger_of_step step init release
    rw [same]
    exact h.of_same ledger current
  cases a with
  | offer index => exact quiet rfl (by simp) (by simp)
  | encoder a =>
      cases a with
      | initEncode width height setup captureBuffers outputBuffers =>
          cases setup with
          | false => cases step
          | true =>
              have init : e.initEncode width height true captureBuffers outputBuffers = .ok f :=
                step
              exact h.initEncode (fun active => order ⟨active, rfl⟩) init
      | release inError =>
          obtain ⟨code, released⟩ := release_of_step step
          exact h.release order released
      | enqueue | encode | dequeueCapture | callback | finishOutput | finishCapture =>
          exact quiet rfl (by simp) (by simp)

theorem Kept.live {phase : Phase} {e : JetsonEncoder} (h : Kept phase e)
    (order : phase ≠ .released) {p : Nat} (current : e.ctx.encodedImages = some p) :
    e.ledger[p]? ≠ some true := by
  cases phase with
  | fresh =>
      rw [h.1] at current
      cases current
  | active =>
      obtain ⟨k, here, ledger⟩ := h
      obtain rfl : k = p := Option.some.inj (here.symm.trans current)
      rw [ledger, List.getElem?_append_right (by simp)]
      simp
  | released => exact absurd rfl order

theorem Kept.useImage {phase : Phase} {e : JetsonEncoder} (h : Kept phase e)
    (order : phase ≠ .released) {index : Nat} {fault : EncoderFault}
    (stop : e.useImage index = .error fault) :
    fault ≠ .useAfterDelete ∧ fault ≠ .doubleDelete := by
  obtain rfl | ⟨p, array, current, slot, ⟨-, deleted⟩ | ⟨rfl, -⟩⟩ := useImage_fault stop
  · simp
  · exact absurd (ledger_of_array slot deleted) (h.live order current)
  · simp

theorem kept_safe {a : DriverAction} {phase : Phase} {e : JetsonEncoder}
    {fault : EncoderFault} (h : Kept phase e) (order : ¬ OutOfOrder phase e a)
    (stop : driverStep e a = .error fault) :
    fault ≠ .useAfterDelete ∧ fault ≠ .doubleDelete := by
  cases a with
  | offer index => cases stop
  | encoder a =>
      cases a with
      | initEncode width height setup captureBuffers outputBuffers =>
          cases setup with
          | true => cases stop
          | false =>
              obtain rfl := Except.error.inj stop
              simp
      | enqueue accepted =>
          obtain rfl := enqueue_fault stop
          simp
      | encode frame o =>
          obtain rfl | rfl | ⟨enc, index, plane, copied, reaches, sync, slot⟩ :=
            encode_fault (map_eq_error stop)
          · simp
          · simp
          · have other : phase ≠ .released := fun released =>
              order ⟨released, enc, index, plane, copied, reaches, sync⟩
            exact h.useImage other slot
      | dequeueCapture pick =>
          obtain rfl := dequeueCapture_fault stop
          simp
      | callback o =>
          obtain rfl | ⟨enc, index, henc, running, used, slot⟩ := callback_fault stop
          · simp
          · have other : phase ≠ .released := fun released =>
              order ⟨released, enc, index, henc, running, used⟩
            exact h.useImage other slot
      | finishOutput index => cases stop
      | finishCapture index => cases stop
      | release inError =>
          obtain rfl | ⟨rfl, p, array, current, slot, deleted⟩ :=
            release_fault (map_eq_error stop)
          · simp
          · exact absurd (ledger_of_array slot deleted) (h.live order current)

theorem Kept.deleted {e : JetsonEncoder} (h : Kept .released e) :
    ∃ p array, e.ctx.encodedImages = some p ∧ e.arrays[p]? = some array ∧
      array.deleted = true := by
  obtain ⟨k, current, ledger⟩ := h
  have last : e.ledger[k]? = some true := by
    rw [ledger, List.getElem?_replicate_of_lt (Nat.lt_succ_self k)]
  rw [JetsonEncoder.ledger, List.getElem?_map] at last
  obtain ⟨array, slot, deleted⟩ := Option.map_eq_some_iff.mp last
  exact ⟨k, array, current, slot, deleted⟩

theorem Kept.useAfterDelete {e : JetsonEncoder} (h : Kept .released e) (index : Nat) :
    e.useImage index = .error .useAfterDelete := by
  obtain ⟨p, array, current, slot, deleted⟩ := h.deleted
  simp [JetsonEncoder.useImage, current, slot, deleted]

theorem Kept.dropped {e f : JetsonEncoder} {width height : UInt32} {captureBuffers : Nat}
    {outputBuffers : List NvBuffer} (h : Kept .active e)
    (again : e.initEncode width height true captureBuffers outputBuffers = .ok f) :
    ¬ NoneDropped f := by
  intro kept
  obtain rfl := Except.ok.inj again
  obtain ⟨k, -, ledger⟩ := h
  -- the old array is the last of the ledger, and the new pointer is behind it
  have length := congrArg List.length ledger
  rw [JetsonEncoder.ledger, List.length_map, List.length_append, List.length_replicate,
    List.length_singleton] at length
  have live : (e.ledger ++ [false])[k]? = some false := by
    rw [ledger, List.append_assoc, List.getElem?_append_right (by simp)]
    simp
  have same := kept k (by rw [JetsonEncoder.ledger, List.map_append]; exact live)
  have moved : e.arrays.length = k := Option.some.inj same
  omega

/-- A call that is out of order ends the run or leaves an array that is never deleted. -/
theorem kept_unsafe {a : DriverAction} {phase : Phase} {e : JetsonEncoder} (h : Kept phase e)
    (wrong : OutOfOrder phase e a) :
    driverStep e a = .error .useAfterDelete ∨ driverStep e a = .error .doubleDelete ∨
      ∃ f, driverStep e a = .ok f ∧ ¬ NoneDropped f := by
  cases a with
  | offer index => cases wrong
  | encoder a =>
      cases a with
      | initEncode width height setup captureBuffers outputBuffers =>
          obtain ⟨rfl, rfl⟩ := wrong
          exact Or.inr (Or.inr ⟨_, rfl, h.dropped rfl⟩)
      | release inError =>
          obtain rfl : phase = .released := wrong
          obtain ⟨p, array, current, slot, deleted⟩ := h.deleted
          refine Or.inr (Or.inl ?_)
          simp [driverStep, encoderStep, JetsonEncoder.release, current, slot, deleted,
            Except.map]
      | encode frame o =>
          obtain ⟨rfl, enc, index, plane, copied, reaches, sync⟩ := wrong
          refine Or.inl ?_
          rw [driverStep, encoderStep, reaches.encode_eq, sync]
          simp only [h.useAfterDelete index]
          rfl
      | callback o =>
          obtain ⟨rfl, enc, index, henc, running, used⟩ := wrong
          refine Or.inl ?_
          rw [driverStep, encoderStep, JetsonEncoder.callback, running]
          simp only [encoderCapturePlaneCallback, useEnc, henc, used, if_false,
            h.useAfterDelete index]
          rfl
      | enqueue | dequeueCapture | finishOutput | finishCapture => exact wrong.2.elim

/-- No array is used after it was deleted or deleted twice, and in no state of the
run is there a live array the context does not point to. -/
def LifeCycleSafe (actions : List DriverAction) : Prop :=
  (∀ fault, run driverStep {} actions = .error fault →
    fault ≠ .useAfterDelete ∧ fault ≠ .doubleDelete) ∧
    Always driverStep NoneDropped {} actions

theorem kept_start : Kept .fresh {} := ⟨rfl, rfl⟩

theorem run_phased (e : JetsonEncoder) (phase : Phase) (actions : List DriverAction) :
    run phasedStep (e, phase) actions =
      (run driverStep e actions).map (fun f => (f, actions.foldl Phase.next phase)) := by
  induction actions generalizing e phase with
  | nil => rfl
  | cons a actions ih =>
      cases first : driverStep e a with
      | error fault =>
          have stops : phasedStep (e, phase) a = .error fault := by rw [phasedStep, first]; rfl
          rw [run_cons_error stops, run_cons_error first]
          rfl
      | ok f =>
          have goesOn : phasedStep (e, phase) a = .ok (f, phase.next a) := by
            rw [phasedStep, first]
            rfl
          rw [run_cons_ok goesOn, run_cons_ok first, ih]
          rfl

theorem always_kept {actions : List DriverAction} (order : InOrder actions) :
    Always phasedStep (fun s => Kept s.2 s.1) ({}, .fresh) actions := by
  refine always_of_everyStep _ ?_ kept_start order
  intro s a t kept fine step
  obtain ⟨f, stepped, rfl⟩ := map_eq_ok step
  exact kept_step kept fine stepped

theorem lifeCycle_of_inOrder {actions : List DriverAction} (order : InOrder actions) :
    LifeCycleSafe actions := by
  constructor
  · intro fault stop
    obtain ⟨pre, a, post, e, split, runs, stop⟩ := run_stops stop
    have phased := run_phased {} .fresh pre
    rw [runs] at phased
    have kept := always_kept order pre (a :: post) _ split phased
    exact kept_safe kept (order pre a post _ split phased) stop
  · intro pre post e split runs
    have phased := run_phased {} .fresh pre
    rw [runs] at phased
    exact (always_kept order pre post _ split phased).noneDropped

theorem inOrder_of_lifeCycle {actions : List DriverAction} (safe : LifeCycleSafe actions) :
    InOrder actions := by
  refine everyStep_of_invariant (fun s => Kept s.2 s.1) kept_start ?_ ?_
  · intro s a t kept fine step
    obtain ⟨f, stepped, rfl⟩ := map_eq_ok step
    exact kept_step kept fine stepped
  · intro pre a post s split phased kept wrong
    rw [run_phased] at phased
    obtain ⟨e, runs, rfl⟩ := map_eq_ok phased
    have stops {fault : EncoderFault} (stop : driverStep e a = .error fault) :
        run driverStep {} actions = .error fault := by
      rw [split, run_append_ok runs, run_cons_error stop]
    obtain used | deleted | ⟨f, step, dropped⟩ := kept_unsafe kept wrong
    · exact (safe.1 _ (stops used)).1 rfl
    · exact (safe.1 _ (stops deleted)).2 rfl
    · refine dropped (safe.2 (pre ++ [a]) post f (by simp [split]) ?_)
      rw [run_append_ok runs, run_cons_ok step, run_nil]

/-- The calls keep every array from its allocation to its deletion exactly when they are in
order. -/
theorem lifeCycle_iff_inOrder (actions : List DriverAction) :
    LifeCycleSafe actions ↔ InOrder actions :=
  ⟨inOrder_of_lifeCycle, lifeCycle_of_inOrder⟩

def oneBuffer : DriverAction :=
  .encoder (.initEncode 640 480 true 6 [⟨⟨[], 0⟩, ⟨[], 0⟩, ⟨[], 0⟩, 3⟩])

def encodeWith (pick : Option Nat) : DriverAction :=
  .encoder (.encode ⟨[], [], [], 0, 0, 0, .deg0, none⟩
    ⟨pick, fun _ => true, fun _ => true, true⟩)

/-- Two encoder sessions, each released. An `Encode` files its metadata in the first of them,
and after the first `Release` another comes that gets no buffer. -/
def twoSessions : List DriverAction :=
  [oneBuffer, .offer 0, encodeWith (some 0), .encoder (.release false), encodeWith none,
    oneBuffer, .encoder (.release false)]

theorem twoSessions_lifeCycle :
    (∃ e, run driverStep {} twoSessions = .ok e ∧ e.ledger = [true, true]) ∧
      LifeCycleSafe twoSessions := by
  refine ⟨⟨_, rfl, rfl⟩, (lifeCycle_iff_inOrder twoSessions).mpr ?_⟩
  have early (e : JetsonEncoder) : ¬ OutOfOrder .released e (encodeWith none) := by
    rintro ⟨-, enc, index, plane, copied, reaches, -⟩
    cases reaches.dequeued
  exact .cons (by rintro ⟨wrong, -⟩; cases wrong) rfl (.cons id rfl
    (.cons (by rintro ⟨wrong, -⟩; cases wrong) rfl (.cons (by rintro ⟨⟩) rfl
    (.cons (early _) rfl (.cons (by rintro ⟨wrong, -⟩; cases wrong) rfl
    (.cons (by rintro ⟨⟩) rfl (.nil _)))))))

/-- A second `Release` deletes the array again. -/
theorem secondRelease_not_safe :
    ¬ LifeCycleSafe [oneBuffer, .encoder (.release false), .encoder (.release false)] := by
  intro safe
  exact (safe.1 .doubleDelete rfl).2 rfl

end Wadi
