import Mathlib.Data.List.Perm.Subperm
import Wadi.Encoder.OutputPlane

/-!
Output-plane buffers across failures. A buffer circulates while the hardware holds it
or has finished with it: a later `Encode` can still get it. `Encode` takes a buffer out
of circulation and puts it back with its last call. Every failure in between returns
without doing so, and no other code queues output-plane buffers, so such a buffer is
gone for the rest of the session. The only other loss is one of the hardware's: a capture
callback that gives up aborts the encoder, and the output plane may lose buffers by it.
-/

namespace Wadi
open Runs JetsonEncoder

/-- The output-plane buffers the hardware holds or has finished with. -/
def JetsonEncoder.circulating (e : JetsonEncoder) : List Nat :=
  match e.ctx.enc with
  | none => []
  | some enc => enc.outputPlane.held ++ enc.outputPlane.done

def EncoderAction.restarts : EncoderAction → Bool
  | .initEncode .. => true
  | _ => false

/-- The rest of the session can lead to an `Encode` that gets the buffer. -/
def Available (e : JetsonEncoder) (index : Nat) : Prop :=
  ∃ actions f enc plane, (∀ a ∈ actions, a.restarts = false) ∧
    run encoderStep e actions = .ok f ∧ f.ctx.enc = some enc ∧
    enc.outputPlane.dqBuffer (some index) = some (index, plane)

/-- An `Encode` that gets a buffer and has one of its later calls fail: obtaining or
synchronising the surface of one of the planes, or queueing the buffer. -/
def FailsWithBuffer (e : JetsonEncoder) : EncoderAction → Prop
  | .encode _ o => ∃ enc index plane buffer, e.ctx.enc = some enc ∧
      enc.outputPlane.dqBuffer o.pick = some (index, plane) ∧
      enc.outputBuffers[index]? = some buffer ∧
      ((∃ j < buffer.numPlanes, o.fromFd j = false ∨ o.sync j = false) ∨ o.accepted = false)
  | _ => False

/-- A callback that gives up, and the abort takes an output-plane buffer away. -/
def AbortLoses (e : JetsonEncoder) : EncoderAction → Prop
  | .callback o => e.GivesUp o ∧ ∃ i ∈ e.circulating, o.abort.outputKept i = false
  | _ => False

def LosesBuffer (e : JetsonEncoder) (a : EncoderAction) : Prop :=
  FailsWithBuffer e a ∨ AbortLoses e a

namespace JetsonEncoder

theorem circulating_of_enc {e : JetsonEncoder} {enc : NvVideoEncoder}
    (h : e.ctx.enc = some enc) :
    e.circulating = enc.outputPlane.held ++ enc.outputPlane.done := by
  rw [circulating, h]

theorem circulating_of_sameOutput {e f : JetsonEncoder} (same : SameOutput e f) :
    f.circulating = e.circulating := by
  have plane := same.plane
  unfold circulating
  cases he : e.ctx.enc <;> cases hf : f.ctx.enc <;> simp_all

end JetsonEncoder

theorem Plane.perm_of_dqBuffer {p q : Plane} {pick : Option Nat} {i : Nat}
    (h : p.dqBuffer pick = some (i, q)) :
    (p.held ++ p.done).Perm (i :: (q.held ++ q.done)) := by
  obtain ⟨-, mem, rfl⟩ := Plane.dqBuffer_eq_some h
  have split : p.done.Perm (i :: p.done.erase i) := List.perm_cons_erase mem
  exact (split.append_left p.held).trans List.perm_middle

theorem Plane.perm_of_finish (p : Plane) (i : Nat) :
    ((p.finish i).held ++ (p.finish i).done).Perm (p.held ++ p.done) := by
  unfold Plane.finish
  split
  next mem =>
      have split : p.held.Perm (i :: p.held.erase i) := List.perm_cons_erase mem
      have turn : (p.held.erase i ++ (p.done ++ [i])).Perm (i :: (p.held.erase i ++ p.done)) := by
        rw [← List.append_assoc]
        exact List.perm_append_singleton i _
      exact turn.trans (split.append_right p.done).symm
  next => exact .rfl

theorem circulating_of_encode {e f : JetsonEncoder} {frame : Frame} {o : EncodeOutcomes}
    {r : EncodeResult} (h : e.encode frame o = .ok (f, r)) :
    (¬ FailsWithBuffer e (.encode frame o) ∧ f.circulating.Perm e.circulating) ∨
    (FailsWithBuffer e (.encode frame o) ∧ ∃ i, e.circulating.Perm (i :: f.circulating)) := by
  obtain ⟨rfl, -, none⟩ | ⟨enc, index, plane, copied, reaches, rest⟩ := encode_cases h
  · refine Or.inl ⟨?_, .rfl⟩
    rintro ⟨enc, index, plane, buffer, henc, got, -⟩
    rw [none enc henc] at got
    cases got
  · obtain ⟨buffer, slot, copy⟩ := reaches.copy
    have planes : copied.numPlanes = buffer.numPlanes := by
      obtain ⟨y, u, v, -, -, -, rfl⟩ := copyFrame_eq_ok.mp copy
      rfl
    have took := Plane.perm_of_dqBuffer reaches.dequeued
    rw [← circulating_of_enc reaches.enc_eq] at took
    obtain ⟨failed, rfl⟩ | ⟨p, array, image, sync, -, ⟨accepted, -, rfl⟩ |
      ⟨refused, -, rfl⟩⟩ := rest
    · refine Or.inr ⟨⟨enc, index, plane, buffer, reaches.enc_eq, reaches.dequeued, slot, ?_⟩,
        index, took⟩
      left
      by_contra fine
      rw [← planes] at fine
      rw [syncPlanes_eq_none.mpr fine] at failed
      cases failed
    · refine Or.inl ⟨?_, ?_⟩
      · rintro ⟨enc', index', plane', buffer', henc, got, slot', fails⟩
        obtain rfl := Option.some.inj (reaches.enc_eq.symm.trans henc)
        obtain ⟨rfl, rfl⟩ := Prod.mk.inj (Option.some.inj (reaches.dequeued.symm.trans got))
        obtain rfl := Option.some.inj (slot.symm.trans slot')
        obtain some_fails | refused := fails
        · exact syncPlanes_eq_none.mp sync (planes ▸ some_fails)
        · rw [accepted] at refused
          cases refused
      · have back : (plane.held ++ [index] ++ plane.done).Perm
            (index :: (plane.held ++ plane.done)) := by
          rw [List.append_assoc]
          exact List.perm_middle
        exact back.trans took.symm
    · exact Or.inr ⟨⟨enc, index, plane, buffer, reaches.enc_eq, reaches.dequeued, slot,
        Or.inr refused⟩, index, took⟩

theorem circulating_of_callback {e f : JetsonEncoder} {o : CallbackOutcomes}
    (h : e.callback o = .ok f) :
    (¬ AbortLoses e (.callback o) ∧ f.circulating.Perm e.circulating) ∨
    (AbortLoses e (.callback o) ∧ ∃ i, (i :: f.circulating).Subperm e.circulating) := by
  obtain ⟨goesOn, same⟩ | ⟨givesUp, -, enc, enc', henc, henc', plane⟩ := output_of_callback h
  · exact Or.inl ⟨fun loses => goesOn loses.1, circulating_of_sameOutput same ▸ .rfl⟩
  · have left : f.circulating = e.circulating.filter o.abort.outputKept := by
      rw [circulating_of_enc henc', circulating_of_enc henc, plane, List.filter_append]
      rfl
    rw [left]
    by_cases loses : ∃ i ∈ e.circulating, o.abort.outputKept i = false
    · obtain ⟨i, mem, gone⟩ := loses
      refine Or.inr ⟨⟨givesUp, i, mem, gone⟩, i, ?_⟩
      exact List.cons_subperm_of_not_mem_of_mem (by simp [gone]) mem
        List.filter_sublist.subperm
    · have all : ∀ i ∈ e.circulating, o.abort.outputKept i = true := by
        simpa using loses
      rw [List.filter_eq_self.mpr all]
      exact Or.inl ⟨fun abort => loses abort.2, .rfl⟩

theorem circulating_of_step {e f : JetsonEncoder} {a : EncoderAction}
    (session : a.restarts = false) (h : encoderStep e a = .ok f) :
    (¬ LosesBuffer e a ∧ f.circulating.Perm e.circulating) ∨
    (LosesBuffer e a ∧ ∃ i, (i :: f.circulating).Subperm e.circulating) := by
  cases a with
  | initEncode width height setup captureBuffers outputBuffers => cases session
  | encode frame o =>
      obtain ⟨r, encoded⟩ := encode_of_step h
      obtain ⟨fine, same⟩ | ⟨fails, i, lost⟩ := circulating_of_encode encoded
      · exact Or.inl ⟨fun loses => loses.elim fine id, same⟩
      · exact Or.inr ⟨Or.inl fails, i, lost.symm.subperm⟩
  | callback o =>
      obtain ⟨fine, same⟩ | ⟨loses, lost⟩ := circulating_of_callback h
      · exact Or.inl ⟨fun loses => loses.elim id fine, same⟩
      · exact Or.inr ⟨Or.inr loses, lost⟩
  | finishOutput index =>
      refine Or.inl ⟨fun loses => loses.elim id id, ?_⟩
      obtain rfl := Except.ok.inj h
      obtain ⟨-, same⟩ | ⟨enc, henc, eq⟩ := finishOutput_cases e index
      · rw [same]
      · rw [circulating_of_enc henc, eq]
        exact enc.outputPlane.perm_of_finish index
  | enqueue _ | dequeueCapture _ | finishCapture _ | release _ =>
      exact Or.inl ⟨fun loses => loses.elim id id,
        circulating_of_sameOutput (sameOutput_of_step rfl h) ▸ .rfl⟩

theorem subperm_of_run {e f : JetsonEncoder} {actions : List EncoderAction}
    (session : ∀ a ∈ actions, a.restarts = false) (runs : run encoderStep e actions = .ok f) :
    f.circulating.Subperm e.circulating := by
  refine run_keeps (fun g => g.circulating.Subperm e.circulating) ?_ (List.Subperm.refl _) runs
  intro a ha g h sub step
  obtain ⟨-, same⟩ | ⟨-, i, lost⟩ := circulating_of_step (session a ha) step
  · exact same.subperm.trans sub
  · exact ((List.sublist_cons_self i _).subperm.trans lost).trans sub

theorem available_iff {e : JetsonEncoder} {index : Nat} :
    Available e index ↔ index ∈ e.circulating := by
  constructor
  · rintro ⟨actions, f, enc, plane, session, runs, henc, got⟩
    obtain ⟨-, mem, -⟩ := Plane.dqBuffer_eq_some got
    have here : index ∈ f.circulating := by
      rw [circulating_of_enc henc]
      exact List.mem_append_right _ mem
    exact (subperm_of_run session runs).subset here
  · intro mem
    cases henc : e.ctx.enc with
    | none => simp [circulating, henc] at mem
    | some enc =>
        rw [circulating_of_enc henc] at mem
        by_cases finished : index ∈ enc.outputPlane.done
        · exact ⟨[], e, enc, _, by simp, rfl, henc, if_pos finished⟩
        · have held : index ∈ enc.outputPlane.held :=
            (List.mem_append.mp mem).resolve_right finished
          refine ⟨[.finishOutput index], e.finishOutput index,
            { enc with outputPlane := enc.outputPlane.finish index }, _,
            by simp [EncoderAction.restarts], rfl, by simp [finishOutput, henc], if_pos ?_⟩
          simp [Plane.finish, held]

theorem lost_of_losing {e f g : JetsonEncoder} {pre post : List EncoderAction}
    {a : EncoderAction} (session : ∀ b ∈ pre ++ a :: post, b.restarts = false)
    (runs : run encoderStep e (pre ++ a :: post) = .ok f) (before : run encoderStep e pre = .ok g)
    (loses : LosesBuffer g a) :
    ∃ h i, run encoderStep e (pre ++ [a]) = .ok h ∧
      (i :: h.circulating).Subperm g.circulating := by
  rw [run_append_ok before] at runs
  obtain ⟨h, step, -⟩ := run_cons_iff.mp runs
  obtain ⟨fine, -⟩ | ⟨-, i, lost⟩ := circulating_of_step (session a (by simp)) step
  · exact absurd loses fine
  · exact ⟨h, i, by rw [run_append_ok before, run_cons_ok step, run_nil], lost⟩

theorem circulating_iff {e f : JetsonEncoder} {actions : List EncoderAction}
    (session : ∀ a ∈ actions, a.restarts = false) (runs : run encoderStep e actions = .ok f) :
    Always encoderStep (fun g => g.circulating.Perm e.circulating) e actions ↔
      EveryStep encoderStep (fun g a => ¬ LosesBuffer g a) e actions := by
  constructor
  · rintro always pre a post g rfl before loses
    obtain ⟨h, i, after, lost⟩ := lost_of_losing session runs before loses
    have whole := always pre (a :: post) g rfl before
    have rest := always (pre ++ [a]) post h (by simp) after
    have shorter := (lost.trans (whole.trans rest.symm).subperm).length_le
    rw [List.length_cons] at shorter
    omega
  · intro every
    have guarded : EveryStep encoderStep
        (fun g a => a.restarts = false ∧ ¬ LosesBuffer g a) e actions := by
      intro pre a post g split before
      exact ⟨session a (by simp [split]), every pre a post g split before⟩
    refine always_of_everyStep _ ?_ .rfl guarded
    intro g a h same meets step
    obtain ⟨-, kept⟩ | ⟨loses, -⟩ := circulating_of_step meets.1 step
    · exact kept.trans same
    · exact absurd loses meets.2

/-- A buffer is lost for the rest of the session exactly when an `Encode` that got it
has a later call fail, or the abort of a callback that gives up takes one away. The second
part says so of what a later `Encode` can get, for planes that have each buffer in one
place. -/
theorem buffers_survive_iff {e f : JetsonEncoder} {actions : List EncoderAction}
    (session : ∀ a ∈ actions, a.restarts = false) (runs : run encoderStep e actions = .ok f) :
    (Always encoderStep (fun g => g.circulating.Perm e.circulating) e actions ↔
      EveryStep encoderStep (fun g a => ¬ LosesBuffer g a) e actions) ∧
    (e.circulating.Nodup →
      (Always encoderStep (fun g => ∀ i, Available e i → Available g i) e actions ↔
        EveryStep encoderStep (fun g a => ¬ LosesBuffer g a) e actions)) := by
  refine ⟨circulating_iff session runs, fun distinct => ⟨?_, fun every => ?_⟩⟩
  · rintro always pre a post g rfl before loses
    obtain ⟨h, i, after, lost⟩ := lost_of_losing session runs before loses
    have inside := subperm_of_run (fun b hb => session b (by simp [hb])) before
    have once : (i :: h.circulating).Nodup := by
      obtain ⟨kept, same, sub⟩ := lost.trans inside
      exact same.nodup (sub.nodup distinct)
    have there : Available e i :=
      available_iff.mpr ((lost.trans inside).subset List.mem_cons_self)
    have still := always (pre ++ [a]) post h (by simp) after i there
    exact (List.nodup_cons.mp once).1 (available_iff.mp still)
  · intro pre post g split before i there
    have same := (circulating_iff session runs).mpr every pre post g split before
    exact available_iff.mpr (same.mem_iff.mpr (available_iff.mp there))

def allFinished : JetsonEncoder where
  ctx := {
    enc := some {
      outputPlane := { numBuffers := 10, done := List.range 10 }
      capturePlane := {}
      outputBuffers := List.replicate 10 blankBuffer }
    encodedImages := some 0 }
  arrays := [{ images := List.replicate 6 {} }]

theorem refusedFrame_loses :
    ¬ Always encoderStep (fun g => ∀ i, Available allFinished i → Available g i) allFinished
      [.encode blankFrame { allSucceed with accepted := false }] := by
  intro always
  have every := ((buffers_survive_iff (e := allFinished) (by simp [EncoderAction.restarts])
    rfl).2 (by decide)).mp always
  exact every [] _ [] allFinished rfl rfl
    (Or.inl ⟨_, 0, _, blankBuffer, rfl, rfl, rfl, Or.inr rfl⟩)

/-- One failing synchronisation: the call returns -1 and the buffer is gone. -/
theorem unsynchronised_loses :
    ∃ f result, allFinished.encode blankFrame { allSucceed with sync := fun _ => false } =
        .ok (f, result) ∧ result.code = -1 ∧
      Available allFinished 0 ∧ ¬ Available f 0 := by
  refine ⟨_, .syncFailed, rfl, rfl, available_iff.mpr (by decide), ?_⟩
  rw [available_iff]
  decide

end Wadi
