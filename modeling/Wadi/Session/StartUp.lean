import Wadi.Session.Model

/-!
Start-up in the order of `main`. Failures of the factory, of the connection and
of a track are logged and the next step is taken all the same; only a device
that cannot be opened stops the program. A step that uses what an earlier one
failed to create then dereferences a null pointer, and the callback indexes an
empty list of senders when no track was added.
-/

namespace Wadi
open SizeString Runs

structure DeviceOutcome (Rest : Type) where
  opened : Bool
  track : Option (Sender Rest)

structure StartOutcomes (Rest : Type) where
  factory : Bool
  connection : Bool
  devices : List (DeviceOutcome Rest)
  desc : Str
  response : Http.Response

section
variable {Rest Answer : Type}

def DeviceOutcome.action (d : DeviceOutcome Rest) : SessionAction Rest :=
  .addCaptureDevice d.opened d.track

def startUp (o : StartOutcomes Rest) : List (SessionAction Rest) :=
  .initializeSession o.factory :: .createConnection o.connection ::
    (o.devices.map DeviceOutcome.action ++ [.createOffer, .onSuccess o.desc o.response])

/-- The run neither dereferences a null pointer nor indexes an empty list. -/
def FaultFree (result : Except Stop (Session Rest Answer)) : Prop :=
  ∀ f, result ≠ .error (.fault f)

/-- The outcomes under which no step misses what it depends on. -/
def StartOutcomes.Safe (o : StartOutcomes Rest) : Prop :=
  o.factory = true ∧
    ((o.connection = true ∧
        ((∃ d ∈ o.devices, d.opened = false) ∨ ∃ d ∈ o.devices, d.track.isSome = true)) ∨
      (o.connection = false ∧ ∃ d ds, o.devices = d :: ds ∧ d.opened = false))

variable (parseAnswer : Str → Option Answer)

theorem addCaptureDevice_unopened (s : Session Rest Answer) (d : DeviceOutcome Rest)
    (h : d.opened = false) :
    sessionStep parseAnswer s d.action = .error (.thrown .deviceFailed) := by
  simp [DeviceOutcome.action, sessionStep, Session.addCaptureDevice, h, bind, Except.bind]

theorem addCaptureDevice_opened {s : Session Rest Answer} {pc : PeerConnection Rest Answer}
    (factory : s.factory = true) (hpc : s.pc = some pc) (d : DeviceOutcome Rest)
    (h : d.opened = true) :
    sessionStep parseAnswer s d.action =
      .ok { s with pc := some { pc with senders := pc.senders ++ d.track.toList } } := by
  simp [DeviceOutcome.action, sessionStep, Session.addCaptureDevice, Session.useFactory,
    Session.usePc, factory, hpc, h, bind, Except.bind, pure, Except.pure]

/-- Devices added to a session with a connection: the first that cannot be opened
stops the run, otherwise the tracks that could be added become senders. -/
theorem run_devices {s : Session Rest Answer} {pc : PeerConnection Rest Answer}
    (factory : s.factory = true) (hpc : s.pc = some pc) (ds : List (DeviceOutcome Rest)) :
    run (sessionStep parseAnswer) s (ds.map DeviceOutcome.action) =
      if ∀ d ∈ ds, d.opened = true then
        .ok { s with pc := some { pc with senders := pc.senders ++ ds.filterMap (·.track) } }
      else .error (.thrown .deviceFailed) := by
  induction ds generalizing s pc with
  | nil =>
      have same : { s with pc := some pc } = s := by
        rw [← hpc]
      simp [same]
  | cons d ds ih =>
      cases h : d.opened with
      | false =>
          rw [List.map_cons, run_cons_error (addCaptureDevice_unopened parseAnswer s d h)]
          simp [h]
      | true =>
          have next := addCaptureDevice_opened parseAnswer factory hpc d h
          have rest := ih (s := { s with
            pc := some { pc with senders := pc.senders ++ d.track.toList } }) factory rfl
          rw [List.map_cons, run_cons_ok next, rest]
          cases ht : d.track <;> simp [h, ht]

theorem run_offer {s : Session Rest Answer} {pc : PeerConnection Rest Answer}
    (hpc : s.pc = some pc) (desc : Str) (response : Http.Response) :
    FaultFree (run (sessionStep parseAnswer) s [.createOffer, .onSuccess desc response]) ↔
      pc.senders ≠ [] := by
  have offer : sessionStep parseAnswer s .createOffer = .ok s := by
    simp [sessionStep, Session.createOffer, Session.usePc, hpc, bind, Except.bind, pure,
      Except.pure]
  rw [run_cons_ok offer]
  cases hs : pc.senders with
  | nil =>
      have fault : sessionStep parseAnswer s (.onSuccess desc response) =
          .error (.fault .emptySenders) := onSuccess_of_no_sender parseAnswer hpc hs desc response
      rw [run_cons_error fault]
      simp [FaultFree]
  | cons sender senders =>
      have limited : s.limitFirst pc.senders = .ok _ := congrArg s.limitFirst hs
      have step : sessionStep parseAnswer s (.onSuccess desc response) = _ :=
        onSuccess_of_sender parseAnswer hpc limited desc response
      simp only [ne_eq, reduceCtorEq, not_false_eq_true, iff_true]
      intro f
      cases ht : s.offerText desc with
      | ok text =>
          rw [ht] at step
          rw [run_cons_ok step]
          simp
      | error e =>
          rw [ht] at step
          rw [run_cons_error step]
          intro fault
          exact offerText_ne_fault s desc f (by rw [ht, Except.error.inj fault])

theorem run_without_pc {s : Session Rest Answer} (factory : s.factory = true)
    (hpc : s.pc = none) (ds : List (DeviceOutcome Rest)) (desc : Str) (response : Http.Response) :
    FaultFree (run (sessionStep parseAnswer) s
        (ds.map DeviceOutcome.action ++ [.createOffer, .onSuccess desc response])) ↔
      ∃ d rest, ds = d :: rest ∧ d.opened = false := by
  cases ds with
  | nil =>
      have fault : sessionStep parseAnswer s .createOffer =
          .error (.fault .nullPeerConnection) := by
        simp [sessionStep, Session.createOffer, Session.usePc, hpc, bind, Except.bind]
      rw [List.map_nil, List.nil_append, run_cons_error fault]
      simp [FaultFree]
  | cons d ds =>
      cases h : d.opened with
      | false =>
          rw [List.map_cons, List.cons_append,
            run_cons_error (addCaptureDevice_unopened parseAnswer s d h)]
          simp [FaultFree, h]
      | true =>
          have fault : sessionStep parseAnswer s d.action =
              .error (.fault .nullPeerConnection) := by
            simp [DeviceOutcome.action, sessionStep, Session.addCaptureDevice,
              Session.useFactory, Session.usePc, factory, hpc, h, bind, Except.bind]
          rw [List.map_cons, List.cons_append, run_cons_error fault]
          simp [FaultFree, h]

theorem run_with_pc {s : Session Rest Answer} {pc : PeerConnection Rest Answer}
    (factory : s.factory = true) (hpc : s.pc = some pc) (empty : pc.senders = [])
    (ds : List (DeviceOutcome Rest)) (desc : Str) (response : Http.Response) :
    FaultFree (run (sessionStep parseAnswer) s
        (ds.map DeviceOutcome.action ++ [.createOffer, .onSuccess desc response])) ↔
      (∃ d ∈ ds, d.opened = false) ∨ ∃ d ∈ ds, d.track.isSome = true := by
  have devices := run_devices parseAnswer factory hpc ds
  by_cases all : ∀ d ∈ ds, d.opened = true
  · rw [if_pos all] at devices
    rw [run_append_ok devices, run_offer parseAnswer rfl]
    have none : ¬ ∃ d ∈ ds, d.opened = false := by
      rintro ⟨d, hd, closed⟩
      simp [all d hd] at closed
    simp [none, empty, Option.isSome_iff_ne_none]
  · rw [if_neg all] at devices
    rw [run_append_error devices]
    have some : ∃ d ∈ ds, d.opened = false := by simpa using all
    simp [FaultFree, some]

/-- Start-up is free of faults exactly when the factory was created and either a
device that cannot be opened stops the run in time, or there is a connection and
some track could be added. -/
theorem startUp_faultFree_iff (s : Session Rest Answer) (o : StartOutcomes Rest) :
    FaultFree (run (sessionStep parseAnswer) s (startUp o)) ↔ o.Safe := by
  have first : sessionStep parseAnswer s (.initializeSession o.factory) =
      .ok { s with factory := o.factory } := rfl
  rw [startUp, run_cons_ok first]
  cases hf : o.factory with
  | false =>
      have fault : sessionStep parseAnswer { s with factory := false }
          (.createConnection o.connection) = .error (.fault .nullFactory) := rfl
      rw [run_cons_error fault]
      simp [FaultFree, StartOutcomes.Safe, hf]
  | true =>
      have second : sessionStep parseAnswer { s with factory := true }
          (.createConnection o.connection) =
            .ok { s with factory := true, pc := if o.connection then some {} else none } := rfl
      rw [run_cons_ok second]
      cases hc : o.connection with
      | false =>
          rw [run_without_pc parseAnswer rfl rfl]
          simp [StartOutcomes.Safe, hf, hc]
      | true =>
          rw [run_with_pc parseAnswer rfl rfl rfl]
          simp [StartOutcomes.Safe, hf, hc]

end

/-- The factory cannot be created, and `CreateConnection` uses it all the same. -/
theorem startUp_factory_fault :
    ¬ FaultFree (run (sessionStep (fun _ => none)) ({ url := [] } : Session Unit Unit)
      (startUp ⟨false, true, [⟨true, none⟩], [], ⟨⟨⟨1, 1⟩, 201, []⟩, [], []⟩⟩)) := by
  intro safe
  exact safe .nullFactory rfl

end Wadi
