import Mathlib.Data.List.Perm.Basic
import Wadi.Device.Model

/-!
Open descriptors and live devices. The only `close` is in the destructor, and a
constructor that throws leaves no object to destroy. A construction that opens a device
and then rejects its capabilities therefore keeps a descriptor that nothing can close.
Over a whole run the open descriptors are those of the live objects exactly when no
construction does that.
-/

namespace Wadi
open SizeString Runs

/-- The open descriptors are exactly those of the live objects. -/
def DescriptorsAccounted (s : Devices) : Prop :=
  ∀ fd, fd ∈ s.openFds ↔ ∃ d ∈ s.live, d.fd = fd

/-- A device that opens and whose answer to `VIDIOC_QUERYCAP` leaves a mask without a
capture bit or without the streaming bit. -/
def Rejected : DeviceAction → Prop
  | .construct _ _ answers =>
      let mask := (answers.queryCap {}).2.capabilities
      0 ≤ answers.opened ∧
        ((mask &&& 0x00000001 = 0 ∧ mask &&& 0x00001000 = 0) ∨ mask &&& 0x04000000 = 0)
  | .destroy _ => False

namespace V4LDevice

def filled (memory : V4LDevice) (path : Str) (answers : KernelAnswers) : V4LDevice :=
  { memory with
    sysfsPath := path
    fd := answers.opened
    cap := (answers.queryCap {}).2
    fmt := (answers.getFormat { type := 1 }).2 }

theorem construct_of_opened (memory : V4LDevice) (path : Str) {answers : KernelAnswers}
    (opened : 0 ≤ answers.opened) (openFds : List Int) :
    memory.construct path answers openFds =
      (openFds ++ [answers.opened],
        if !(memory.filled path answers).canCapture then .error .cannotCapture
        else if !(memory.filled path answers).canStream then .error .cannotStream
        else .ok (memory.filled path answers)) := by
  have notFailed : ¬ answers.opened < 0 := Int.not_lt.mpr opened
  simp only [construct, openDevice, notFailed, if_false, fillCap, fillFormat]
  change (if !(memory.filled path answers).canCapture then _
    else if !(memory.filled path answers).canStream then _ else _) = _
  split
  · rfl
  · split <;> rfl

theorem rejected_iff (memory : V4LDevice) (path : Str) {answers : KernelAnswers}
    (opened : 0 ≤ answers.opened) :
    Rejected (.construct memory path answers) ↔
      (memory.filled path answers).canCapture = false ∨
        (memory.filled path answers).canStream = false := by
  simp [Rejected, opened, canCapture, canStream, filled]

theorem construct_outcome (memory : V4LDevice) (path : Str) (answers : KernelAnswers)
    (openFds : List Int) :
    (answers.opened < 0 ∧
      memory.construct path answers openFds = (openFds, .error .openFailed)) ∨
    (0 ≤ answers.opened ∧ ((memory.filled path answers).canCapture = false ∨
        (memory.filled path answers).canStream = false) ∧ ∃ thrown,
      memory.construct path answers openFds = (openFds ++ [answers.opened], .error thrown)) ∨
    (0 ≤ answers.opened ∧ (memory.filled path answers).canCapture = true ∧
      (memory.filled path answers).canStream = true ∧
      memory.construct path answers openFds =
        (openFds ++ [answers.opened], .ok (memory.filled path answers))) := by
  by_cases failed : answers.opened < 0
  · exact Or.inl ⟨failed, by simp [construct, openDevice, failed]⟩
  · have opened : 0 ≤ answers.opened := Int.not_lt.mp failed
    rw [construct_of_opened memory path opened]
    cases (memory.filled path answers).canCapture with
    | false => exact Or.inr (Or.inl ⟨opened, Or.inl rfl, _, rfl⟩)
    | true =>
        cases (memory.filled path answers).canStream with
        | false => exact Or.inr (Or.inl ⟨opened, Or.inr rfl, _, rfl⟩)
        | true => exact Or.inr (Or.inr ⟨opened, rfl, rfl, rfl⟩)

theorem construct_cases (memory : V4LDevice) (path : Str) (answers : KernelAnswers)
    (openFds : List Int) :
    (answers.opened < 0 ∧
      memory.construct path answers openFds = (openFds, .error .openFailed)) ∨
    (Rejected (.construct memory path answers) ∧ ∃ thrown,
      memory.construct path answers openFds = (openFds ++ [answers.opened], .error thrown)) ∨
    (¬ Rejected (.construct memory path answers) ∧ ∃ d : V4LDevice, d.fd = answers.opened ∧
      memory.construct path answers openFds = (openFds ++ [answers.opened], .ok d)) := by
  obtain failed | ⟨opened, refused, threw⟩ | ⟨opened, capture, stream, made⟩ :=
    memory.construct_outcome path answers openFds
  · exact Or.inl failed
  · exact Or.inr (Or.inl ⟨(rejected_iff memory path opened).mpr refused, threw⟩)
  · refine Or.inr (Or.inr ⟨fun rejected => ?_, memory.filled path answers, rfl, made⟩)
    have refused := (rejected_iff memory path opened).mp rejected
    simp [capture, stream] at refused

end V4LDevice

/-- What a step does to the descriptors and the objects. A rejected device adds a
descriptor and no object. -/
theorem deviceStep_cases {s t : Devices} {a : DeviceAction} (h : deviceStep s a = .ok t) :
    (¬ Rejected a ∧ t = s) ∨
    (¬ Rejected a ∧ ∃ d : V4LDevice,
      t = { openFds := s.openFds ++ [d.fd], live := s.live ++ [d] }) ∨
    (¬ Rejected a ∧ ∃ (index : Nat) (d : V4LDevice), s.live[index]? = some d ∧
      t = { openFds := s.openFds.erase d.fd, live := s.live.eraseIdx index }) ∨
    (Rejected a ∧ ∃ fd ∉ s.openFds, t = { s with openFds := s.openFds ++ [fd] }) := by
  cases a with
  | construct memory path answers =>
      rw [deviceStep] at h
      split at h
      next => cases h
      next fresh =>
          obtain ⟨failed, eq⟩ | ⟨rejected, thrown, eq⟩ | ⟨kept, d, fd, eq⟩ :=
            memory.construct_cases path answers s.openFds
          · rw [eq] at h
            refine Or.inl ⟨fun rejected => ?_, (Except.ok.inj h).symm⟩
            exact absurd rejected.1 (Int.not_le.mpr failed)
          · rw [eq] at h
            exact Or.inr (Or.inr (Or.inr ⟨rejected, answers.opened,
              fun member => fresh (List.contains_iff_mem.mpr member), (Except.ok.inj h).symm⟩))
          · rw [eq] at h
            exact Or.inr (Or.inl ⟨kept, d, by rw [fd]; exact (Except.ok.inj h).symm⟩)
  | destroy index =>
      rw [deviceStep] at h
      cases found : s.live[index]? with
      | none =>
          rw [found] at h
          exact Or.inl ⟨id, (Except.ok.inj h).symm⟩
      | some d =>
          rw [found] at h
          exact Or.inr (Or.inr (Or.inl ⟨id, index, d, found, (Except.ok.inj h).symm⟩))

theorem perm_eraseIdx {α : Type} {xs : List α} {index : Nat} {x : α}
    (h : xs[index]? = some x) : xs.Perm (x :: xs.eraseIdx index) := by
  obtain ⟨inside, rfl⟩ := List.getElem?_eq_some_iff.mp h
  exact (List.getElem_cons_eraseIdx_perm inside).symm

/-- Each live object has its own open descriptor, and there are no others. -/
def OnePerObject (s : Devices) : Prop := s.openFds.Perm (s.live.map (·.fd))

theorem OnePerObject.accounted {s : Devices} (h : OnePerObject s) : DescriptorsAccounted s := by
  intro fd
  rw [h.mem_iff, List.mem_map]

theorem onePerObject_step (s : Devices) (a : DeviceAction) (t : Devices) (h : OnePerObject s)
    (kept : ¬ Rejected a) (step : deviceStep s a = .ok t) : OnePerObject t := by
  obtain ⟨-, rfl⟩ | ⟨-, d, rfl⟩ | ⟨-, index, d, found, rfl⟩ | ⟨rejected, -⟩ :=
    deviceStep_cases step
  · exact h
  · rw [OnePerObject, List.map_append]
    exact h.append_right [d.fd]
  · have others : (s.live.map (·.fd)).Perm (d.fd :: (s.live.eraseIdx index).map (·.fd)) :=
      (perm_eraseIdx found).map (·.fd)
    have closed := (h.trans others).erase d.fd
    rwa [List.erase_cons_head] at closed
  · exact absurd rejected kept

theorem not_accounted_of_rejected {s t : Devices} {a : DeviceAction} (h : DescriptorsAccounted s)
    (rejected : Rejected a) (step : deviceStep s a = .ok t) : ¬ DescriptorsAccounted t := by
  obtain ⟨kept, -⟩ | ⟨kept, -⟩ | ⟨kept, -⟩ | ⟨-, fd, fresh, rfl⟩ := deviceStep_cases step
  · exact absurd rejected kept
  · exact absurd rejected kept
  · exact absurd rejected kept
  · intro accounted
    have owned := (accounted fd).mp (by simp)
    exact fresh ((h fd).mpr owned)

/-- In every state of a run the open descriptors are those of the live objects exactly
when no construction opens a device and then rejects its capabilities. -/
theorem descriptors_accounted_iff {actions : List DeviceAction} {final : Devices}
    (runs : run deviceStep {} actions = .ok final) :
    Always deviceStep DescriptorsAccounted {} actions ↔ ∀ a ∈ actions, ¬ Rejected a := by
  constructor
  · intro always a member rejected
    obtain ⟨pre, post, split⟩ := List.append_of_mem member
    rw [split] at runs
    obtain ⟨s, before, after⟩ := run_append_iff.mp runs
    obtain ⟨t, step, -⟩ := run_cons_iff.mp after
    have next : run deviceStep {} (pre ++ [a]) = .ok t := by
      rw [run_append_ok before, run_cons_ok step, run_nil]
    have whole := always pre (a :: post) s split before
    exact not_accounted_of_rejected whole rejected step
      (always (pre ++ [a]) post t (by simp [split]) next)
  · intro kept pre post s split before
    have start : OnePerObject {} := List.Perm.nil
    have keep : ∀ a ∈ pre, ∀ s t, OnePerObject s → deviceStep s a = .ok t → OnePerObject t :=
      fun a ha s t h step => onePerObject_step s a t h (kept a (by simp [split, ha])) step
    exact (run_keeps OnePerObject keep start before).accounted

def attempt (opened : Int) (mask : UInt32) : DeviceAction :=
  .construct ⟨[], {}, {}, 0, 0⟩ "/dev/video0".toList
    ⟨opened, fun _ => (0, { capabilities := mask }), fun fmt => (0, fmt)⟩

theorem closedCamera_accounted :
    (∃ final, run deviceStep {} [attempt (-1) 0, attempt 3 0x04000001, .destroy 0] =
      .ok final) ∧
    Always deviceStep DescriptorsAccounted {}
      [attempt (-1) 0, attempt 3 0x04000001, .destroy 0] := by
  have runs : run deviceStep {} [attempt (-1) 0, attempt 3 0x04000001, .destroy 0] = .ok {} := rfl
  refine ⟨⟨_, runs⟩, (descriptors_accounted_iff runs).mpr ?_⟩
  simp only [List.forall_mem_cons, List.not_mem_nil, false_implies, implies_true, and_true]
  refine ⟨?_, ?_, id⟩
  · rintro ⟨opened, -⟩
    exact absurd opened (by decide)
  · rintro ⟨-, missing⟩
    exact absurd missing (by decide)

/-- A device without capture capability keeps its descriptor open for good. -/
theorem rejectedCamera_not_accounted :
    ¬ Always deviceStep DescriptorsAccounted {} [attempt 3 0] := by
  intro always
  have owned := (always [attempt 3 0] [] _ rfl rfl 3).mp (by decide)
  obtain ⟨d, none, -⟩ := owned
  cases none

end Wadi
