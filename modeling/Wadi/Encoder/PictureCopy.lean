import Wadi.Encoder.OutputPlane

/-!
The picture in the device buffer. `Encode` copies each plane of a frame as one block of
`bytesused` bytes and knows neither the row stride of the frame nor that of the device.
A layout fixes the sizes and strides on both sides. For a given layout the picture
arrives for all contents exactly when the block lies within both planes, covers every
row, and the strides agree as soon as there is a second row.
-/

namespace Wadi
open Runs JetsonEncoder

/-- One plane of a picture: its size, where its rows begin in the frame and in the device
buffer, how many bytes each side has, and the device's `bytesused`. -/
structure PlaneLayout where
  width : Nat
  height : Nat
  sourceStride : Nat
  deviceStride : Nat
  size : Nat
  room : Nat
  bytesused : Nat
  width_le_source : width ≤ sourceStride
  width_le_device : width ≤ deviceStride
  source_fits : ∀ r < height, ∀ c < width, r * sourceStride + c < size
  device_fits : ∀ r < height, ∀ c < width, r * deviceStride + c < room

/-- The planes of an I420 picture; the colour planes have half the size, rounded up. -/
structure Layout where
  y : PlaneLayout
  u : PlaneLayout
  v : PlaneLayout
  u_size : u.width = (y.width + 1) / 2 ∧ u.height = (y.height + 1) / 2
  v_size : v.width = (y.width + 1) / 2 ∧ v.height = (y.height + 1) / 2

namespace PlaneLayout

def Describes (l : PlaneLayout) (data : List UInt8) (plane : BufferPlane) : Prop :=
  data.length = l.size ∧ plane.data.length = l.room ∧ plane.bytesused = l.bytesused

/-- Every byte of the picture stands where the device looks for it. -/
def Shows (l : PlaneLayout) (data : List UInt8) (plane : BufferPlane) : Prop :=
  ∀ r < l.height, ∀ c < l.width,
    plane.data[r * l.deviceStride + c]? = data[r * l.sourceStride + c]?

/-- The block lies within both planes, covers every row, and the rows begin at the same
places unless there is only one. -/
structure Fits (l : PlaneLayout) : Prop where
  reads : l.bytesused ≤ l.size
  writes : l.bytesused ≤ l.room
  covers : ∀ r < l.height, ∀ c < l.width, r * l.sourceStride + c < l.bytesused
  strides : 1 < l.height → 0 < l.width → l.sourceStride = l.deviceStride

/-- Copying shows the picture, whatever the contents. -/
def Exact (l : PlaneLayout) : Prop :=
  ∀ data plane, l.Describes data plane →
    ∃ copied, copyPlane plane data = .ok copied ∧ l.Shows data copied

end PlaneLayout

theorem JetsonEncoder.copyPlane_eq_ok {plane copied : BufferPlane} {data : List UInt8} :
    copyPlane plane data = .ok copied ↔
      plane.bytesused ≤ data.length ∧ plane.bytesused ≤ plane.data.length ∧
      copied = { plane with
        data := data.take plane.bytesused ++ plane.data.drop plane.bytesused } := by
  unfold copyPlane
  split
  next outside =>
      constructor
      · intro h
        cases h
      · rintro ⟨reads, writes, -⟩
        omega
  next inside =>
      rw [not_or, Nat.not_lt, Nat.not_lt] at inside
      constructor
      · intro h
        exact ⟨inside.1, inside.2, (Except.ok.inj h).symm⟩
      · rintro ⟨-, -, rfl⟩
        rfl

theorem getElem?_block {data : List UInt8} {n : Nat} (reads : n ≤ data.length)
    (old : List UInt8) (k : Nat) :
    (data.take n ++ old.drop n)[k]? = if k < n then data[k]? else old[k]? := by
  have length : (data.take n).length = n := List.length_take_of_le reads
  by_cases inside : k < n
  · rw [List.getElem?_append_left (by omega), List.getElem?_take_of_lt inside, if_pos inside]
  · rw [List.getElem?_append_right (by omega), length, List.getElem?_drop, if_neg inside]
    congr 1
    omega

namespace PlaneLayout

variable {l : PlaneLayout}

theorem Fits.exact (fits : l.Fits) : l.Exact := by
  rintro data plane ⟨size, room, used⟩
  have reads : plane.bytesused ≤ data.length := by
    rw [used, size]
    exact fits.reads
  have writes : plane.bytesused ≤ plane.data.length := by
    rw [used, room]
    exact fits.writes
  refine ⟨_, copyPlane_eq_ok.mpr ⟨reads, writes, rfl⟩, ?_⟩
  intro r hr c hc
  have sameRow : r * l.deviceStride = r * l.sourceStride := by
    obtain rfl | later := Nat.eq_zero_or_pos r
    · rw [Nat.zero_mul, Nat.zero_mul]
    · rw [fits.strides (by omega) (by omega)]
  have covered : r * l.sourceStride + c < plane.bytesused := by
    rw [used]
    exact fits.covers r hr c hc
  rw [getElem?_block reads, sameRow, if_pos covered]

def blank (l : PlaneLayout) : BufferPlane := ⟨List.replicate l.room 0, l.bytesused⟩

theorem describes_blank {data : List UInt8} (h : data.length = l.size) :
    l.Describes data l.blank :=
  ⟨h, List.length_replicate, rfl⟩

theorem Exact.blank (exact : l.Exact) {data : List UInt8} (h : data.length = l.size) :
    l.bytesused ≤ l.size ∧ l.bytesused ≤ l.room ∧ ∀ r < l.height, ∀ c < l.width,
      (if r * l.deviceStride + c < l.bytesused then data[r * l.deviceStride + c]? else
        (List.replicate l.room (0 : UInt8))[r * l.deviceStride + c]?) =
      data[r * l.sourceStride + c]? := by
  obtain ⟨copied, copy, shows⟩ := exact data l.blank (describes_blank h)
  obtain ⟨reads, writes, rfl⟩ := copyPlane_eq_ok.mp copy
  have room : l.bytesused ≤ l.room := by simpa [PlaneLayout.blank] using writes
  refine ⟨h ▸ reads, room, fun r hr c hc => ?_⟩
  rw [← shows r hr c hc]
  exact (getElem?_block reads _ _).symm

/-- With a picture of ones every byte the device looks at must come from the block. -/
theorem Exact.device_covers (exact : l.Exact) {r c : Nat} (hr : r < l.height)
    (hc : c < l.width) : r * l.deviceStride + c < l.bytesused := by
  obtain ⟨-, -, shows⟩ := exact.blank (List.length_replicate (n := l.size) (a := 1))
  by_contra outside
  have byte := shows r hr c hc
  rw [if_neg outside, List.getElem?_replicate_of_lt (l.device_fits r hr c hc),
    List.getElem?_replicate_of_lt (l.source_fits r hr c hc)] at byte
  cases Option.some.inj byte

/-- With a single one at the start of the second row, both strides lead to it. -/
theorem Exact.strides_eq (exact : l.Exact) (rows : 1 < l.height) (columns : 0 < l.width) :
    l.sourceStride = l.deviceStride := by
  have second : l.sourceStride < l.size := by simpa using l.source_fits 1 rows 0 columns
  have covered : l.deviceStride < l.bytesused := by
    simpa using exact.device_covers rows columns
  have length : ((List.replicate l.size (0 : UInt8)).set l.sourceStride 1).length = l.size := by
    rw [List.length_set, List.length_replicate]
  obtain ⟨reads, -, shows⟩ := exact.blank length
  have byte := shows 1 rows 0 columns
  simp only [Nat.one_mul, Nat.add_zero, if_pos covered] at byte
  by_contra differ
  rw [List.getElem?_set_ne differ, List.getElem?_set_self (by simpa using second),
    List.getElem?_replicate_of_lt (Nat.lt_of_lt_of_le covered reads)] at byte
  cases Option.some.inj byte

theorem exact_iff_fits (l : PlaneLayout) : l.Exact ↔ l.Fits := by
  refine ⟨fun exact => ?_, Fits.exact⟩
  obtain ⟨reads, writes, -⟩ := exact.blank (List.length_replicate (n := l.size) (a := 0))
  refine ⟨reads, writes, fun r hr c hc => ?_, exact.strides_eq⟩
  have device := exact.device_covers hr hc
  obtain rfl | later := Nat.eq_zero_or_pos r
  · simpa using device
  · rw [exact.strides_eq (by omega) (by omega)]
    exact device

end PlaneLayout

namespace Layout

def Describes (l : Layout) (frame : Frame) (buffer : NvBuffer) : Prop :=
  l.y.Describes frame.dataY buffer.y ∧ l.u.Describes frame.dataU buffer.u ∧
    l.v.Describes frame.dataV buffer.v

def Shows (l : Layout) (frame : Frame) (buffer : NvBuffer) : Prop :=
  l.y.Shows frame.dataY buffer.y ∧ l.u.Shows frame.dataU buffer.u ∧
    l.v.Shows frame.dataV buffer.v

/-- For all contents, the copies stay within the planes, and every `Encode` that queues
the buffer has put the picture into it. -/
def CopiedExactly (l : Layout) : Prop :=
  ∀ frame buffer, l.Describes frame buffer →
    (∃ copied, copyFrame buffer frame = .ok copied) ∧
    ∀ (e f : JetsonEncoder) enc o index plane, e.ctx.enc = some enc →
      enc.outputPlane.dqBuffer o.pick = some (index, plane) →
      enc.outputBuffers[index]? = some buffer → e.encode frame o = .ok (f, .queued) →
      ∃ after stored, f.ctx.enc = some after ∧ after.outputBuffers[index]? = some stored ∧
        l.Shows frame stored

end Layout

theorem JetsonEncoder.Reaches.stored {e f : JetsonEncoder} {enc : NvVideoEncoder} {frame : Frame}
    {o : EncodeOutcomes} {index : Nat} {plane : Plane} {copied : NvBuffer}
    (h : Reaches e enc frame o index plane copied)
    (queued : e.encode frame o = .ok (f, .queued)) :
    ∃ after, f.ctx.enc = some after ∧ after.outputBuffers[index]? = some copied := by
  obtain ⟨buffer, slot, -⟩ := h.copy
  obtain ⟨inside, -⟩ := List.getElem?_eq_some_iff.mp slot
  rw [h.encode_eq] at queued
  cases sync : syncPlanes o copied.numPlanes with
  | some failure =>
      rw [sync] at queued
      obtain ⟨rfl, -⟩ := Prod.mk.inj (Except.ok.inj queued)
      exact ⟨_, rfl, List.getElem?_set_self inside⟩
  | none =>
      rw [sync] at queued
      obtain ⟨image, -, queued⟩ := bind_eq_ok queued
      split at queued
      all_goals
        obtain ⟨rfl, -⟩ := Prod.mk.inj (Except.ok.inj queued)
        exact ⟨_, rfl, List.getElem?_set_self inside⟩

def oneReady (buffer : NvBuffer) : JetsonEncoder where
  ctx := {
    enc := some {
      outputPlane := { numBuffers := 10, done := [0] }
      capturePlane := {}
      outputBuffers := [buffer] }
    encodedImages := some 0 }
  arrays := [{ images := List.replicate 6 {} }]

theorem oneReady_queues {buffer copied : NvBuffer} {frame : Frame}
    (copy : copyFrame buffer frame = .ok copied) :
    ∃ f after, (oneReady buffer).encode frame allSucceed = .ok (f, .queued) ∧
      f.ctx.enc = some after ∧ after.outputBuffers[0]? = some copied := by
  have reaches : Reaches (oneReady buffer) _ frame allSucceed 0 { numBuffers := 10 } copied :=
    ⟨rfl, rfl, buffer, rfl, copy⟩
  have sync : syncPlanes allSucceed copied.numPlanes = none := by
    rw [syncPlanes_eq_none]
    rintro ⟨j, -, fails⟩
    simp [allSucceed] at fails
  have queues : ∃ f, (oneReady buffer).encode frame allSucceed = .ok (f, .queued) := by
    rw [reaches.encode_eq, sync]
    exact ⟨_, rfl⟩
  obtain ⟨f, queued⟩ := queues
  obtain ⟨after, enc_eq, slot⟩ := reaches.stored queued
  exact ⟨f, after, queued, enc_eq, slot⟩

namespace Layout

variable {l : Layout}

theorem copiedExactly_iff_copies :
    l.CopiedExactly ↔ ∀ frame buffer, l.Describes frame buffer →
      ∃ copied, copyFrame buffer frame = .ok copied ∧ l.Shows frame copied := by
  constructor
  · intro exact frame buffer described
    obtain ⟨⟨copied, copy⟩, encodes⟩ := exact frame buffer described
    obtain ⟨f, after, queued, enc_eq, slot⟩ := oneReady_queues copy
    obtain ⟨after', stored, enc_eq', slot', shows⟩ :=
      encodes (oneReady buffer) f _ allSucceed 0 { numBuffers := 10 } rfl rfl rfl queued
    obtain rfl := Option.some.inj (enc_eq.symm.trans enc_eq')
    obtain rfl := Option.some.inj (slot.symm.trans slot')
    exact ⟨copied, copy, shows⟩
  · intro copies frame buffer described
    obtain ⟨copied, copy, shows⟩ := copies frame buffer described
    refine ⟨⟨copied, copy⟩, ?_⟩
    intro e f enc o index plane henc dequeued slot queued
    have reaches : Reaches e enc frame o index plane copied :=
      ⟨henc, dequeued, buffer, slot, copy⟩
    obtain ⟨after, enc_eq, stored⟩ := reaches.stored queued
    exact ⟨after, copied, enc_eq, stored, shows⟩

theorem copies_iff_exact :
    (∀ frame buffer, l.Describes frame buffer →
      ∃ copied, copyFrame buffer frame = .ok copied ∧ l.Shows frame copied) ↔
    l.y.Exact ∧ l.u.Exact ∧ l.v.Exact := by
  constructor
  · intro copies
    have apart {dataY dataU dataV : List UInt8} {y u v : BufferPlane}
        (hy : l.y.Describes dataY y) (hu : l.u.Describes dataU u) (hv : l.v.Describes dataV v) :
        (∃ copied, copyPlane y dataY = .ok copied ∧ l.y.Shows dataY copied) ∧
        (∃ copied, copyPlane u dataU = .ok copied ∧ l.u.Shows dataU copied) ∧
        (∃ copied, copyPlane v dataV = .ok copied ∧ l.v.Shows dataV copied) := by
      obtain ⟨copied, copy, showsY, showsU, showsV⟩ :=
        copies { blankFrame with dataY := dataY, dataU := dataU, dataV := dataV }
          ⟨y, u, v, 3⟩ ⟨hy, hu, hv⟩
      obtain ⟨y', u', v', copyY, copyU, copyV, rfl⟩ := copyFrame_eq_ok.mp copy
      exact ⟨⟨y', copyY, showsY⟩, ⟨u', copyU, showsU⟩, ⟨v', copyV, showsV⟩⟩
    have some (p : PlaneLayout) : p.Describes (List.replicate p.size 0) p.blank :=
      p.describes_blank List.length_replicate
    exact ⟨fun data plane h => (apart h (some l.u) (some l.v)).1,
      fun data plane h => (apart (some l.y) h (some l.v)).2.1,
      fun data plane h => (apart (some l.y) (some l.u) h).2.2⟩
  · rintro ⟨exactY, exactU, exactV⟩ frame buffer ⟨hy, hu, hv⟩
    obtain ⟨y, copyY, showsY⟩ := exactY _ _ hy
    obtain ⟨u, copyU, showsU⟩ := exactU _ _ hu
    obtain ⟨v, copyV, showsV⟩ := exactV _ _ hv
    exact ⟨_, copyFrame_eq_ok.mpr ⟨y, u, v, copyY, copyU, copyV, rfl⟩, showsY, showsU, showsV⟩

end Layout

/-- A successful `Encode` copies every picture of a layout exactly when the block of each
plane fits. -/
theorem copiedExactly_iff_fits (l : Layout) :
    l.CopiedExactly ↔ l.y.Fits ∧ l.u.Fits ∧ l.v.Fits := by
  rw [Layout.copiedExactly_iff_copies, Layout.copies_iff_exact, PlaneLayout.exact_iff_fits,
    PlaneLayout.exact_iff_fits, PlaneLayout.exact_iff_fits]

/-- Two by two pixels without padding in the frame, in a device buffer that pads the rows
of the first plane to four bytes. -/
def paddedRows : Layout where
  y := ⟨2, 2, 2, 4, 4, 8, 4, by decide, by decide, by decide, by decide⟩
  u := ⟨1, 1, 1, 1, 1, 1, 1, by decide, by decide, by decide, by decide⟩
  v := ⟨1, 1, 1, 1, 1, 1, 1, by decide, by decide, by decide, by decide⟩
  u_size := by decide
  v_size := by decide

/-- The second row of the picture lands behind the first one and not in its place. -/
theorem paddedRows_not_copied : ¬ paddedRows.CopiedExactly := by
  intro exact
  obtain ⟨-, encodes⟩ :=
    exact { blankFrame with dataY := [1, 2, 3, 4], dataU := [5], dataV := [6] }
      ⟨⟨List.replicate 8 0, 4⟩, ⟨[0], 1⟩, ⟨[0], 1⟩, 3⟩
      ⟨⟨rfl, rfl, rfl⟩, ⟨rfl, rfl, rfl⟩, ⟨rfl, rfl, rfl⟩⟩
  obtain ⟨after, stored, enc_eq, slot, shows, -⟩ :=
    encodes (oneReady _) _ _ allSucceed 0 _ rfl rfl rfl rfl
  obtain rfl := Option.some.inj enc_eq
  obtain rfl := Option.some.inj slot
  exact absurd (shows 1 (by decide) 0 (by decide)) (by decide)

end Wadi
