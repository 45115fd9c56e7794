import Wadi.Session.Model

/-!
The limits on bitrate and frame rate. `OnSuccess` means to put them on what is sent,
but sets them on the first sender only, and stores unsigned numbers in signed fields.
`wanted` says what the limits ask of an encoding, as numbers; the senders end up that way
exactly when the later senders carry the limits already and the first has nothing to
store a too large number in.
-/

namespace Wadi
open SizeString Runs

section
variable {Rest Answer : Type}

/-- An encoding with the limits that are set, and otherwise as it was. -/
def Session.wanted (s : Session Rest Answer) (e : Encoding Rest) : Encoding Rest :=
  { e with
    maxBitrateBps := (s.maxBitrate.map (fun n => (n.toNat : Int))).or e.maxBitrateBps
    maxFramerate := (s.maxFramerate.map (fun n => (n.toNat : Int))).or e.maxFramerate }

/-- Every encoding of every sender has the limits, and nothing else has changed. -/
def LimitsReached (senders : List (Sender Rest)) (s t : Session Rest Answer) : Prop :=
  ∃ pc, t.pc = some pc ∧ pc.senders =
    senders.map (fun sender => { sender with encodings := sender.encodings.map s.wanted })

def Session.LimitsFit (s : Session Rest Answer) : Prop :=
  (∀ n, s.maxBitrate = some n → n.toNat < 2 ^ 31) ∧
    ∀ n, s.maxFramerate = some n → n.toNat < 2 ^ 31

def Session.Carries (s : Session Rest Answer) (e : Encoding Rest) : Prop :=
  (∀ n, s.maxBitrate = some n → e.maxBitrateBps = some (n.toNat : Int)) ∧
    ∀ n, s.maxFramerate = some n → e.maxFramerate = some (n.toNat : Int)

theorem toInt_eq_toNat_iff (n : UInt32) : toInt n = (n.toNat : Int) ↔ n.toNat < 2 ^ 31 := by
  have small : n.toNat < 2 ^ 32 := n.toNat_lt
  rw [toInt, BitVec.toInt_eq_toNat_cond, UInt32.toNat_toBitVec]
  split <;> omega

theorem stored_eq_wanted_iff {limit : Option UInt32} {old : Option Int} :
    (if limit.isSome then limit.map toInt else old) =
        (limit.map (fun n => (n.toNat : Int))).or old ↔
      ∀ n, limit = some n → n.toNat < 2 ^ 31 := by
  cases limit with
  | none => simp
  | some n =>
      simp only [Option.isSome_some, if_true, Option.map_some, Option.some_or,
        Option.some.injEq, forall_eq']
      exact toInt_eq_toNat_iff n

theorem limit_eq (s : Session Rest Answer) (e : Encoding Rest) :
    s.limit e = { e with
      maxBitrateBps := if s.maxBitrate.isSome then s.maxBitrate.map toInt else e.maxBitrateBps
      maxFramerate :=
        if s.maxFramerate.isSome then s.maxFramerate.map toInt else e.maxFramerate } := by
  rw [Session.limit]
  cases s.maxBitrate <;> cases s.maxFramerate <;> rfl

theorem limit_eq_wanted_iff (s : Session Rest Answer) (e : Encoding Rest) :
    s.limit e = s.wanted e ↔ s.LimitsFit := by
  rw [limit_eq, Session.wanted, Session.LimitsFit, Encoding.mk.injEq, stored_eq_wanted_iff,
    stored_eq_wanted_iff]
  simp

theorem wanted_eq_self_iff (s : Session Rest Answer) (e : Encoding Rest) :
    s.wanted e = e ↔ s.Carries e := by
  have field (limit : Option UInt32) (old : Option Int) :
      (limit.map (fun n => (n.toNat : Int))).or old = old ↔
        ∀ n, limit = some n → old = some (n.toNat : Int) := by
    cases limit with
    | none => simp
    | some n => simp [eq_comm]
  cases e with
  | mk bitrate framerate rest =>
      rw [Session.wanted, Session.Carries, Encoding.mk.injEq, field, field]
      simp

theorem senders_onSuccess {parseAnswer : Str → Option Answer} {s t : Session Rest Answer}
    {pc : PeerConnection Rest Answer} {desc : Str} {response : Http.Response} (hpc : s.pc = some pc)
    (h : s.onSuccess parseAnswer desc response = .ok t) :
    ∃ first rest pc', pc.senders = first :: rest ∧ t.pc = some pc' ∧
      pc'.senders = { first with encodings := first.encodings.map s.limit } :: rest := by
  cases senders : pc.senders with
  | nil =>
      rw [onSuccess_of_no_sender parseAnswer hpc senders] at h
      cases h
  | cons first rest =>
      have limited : s.limitFirst pc.senders =
          .ok ({ first with encodings := first.encodings.map s.limit } :: rest) := by
        rw [senders, Session.limitFirst]
      rw [onSuccess_of_sender parseAnswer hpc limited] at h
      obtain ⟨text, -, rfl⟩ := map_eq_ok h
      exact ⟨first, rest, _, rfl, rfl, rfl⟩

private theorem map_eq_self_iff {α : Type} {f : α → α} {xs : List α} :
    xs.map f = xs ↔ ∀ x ∈ xs, f x = x := by
  have eq := List.map_inj_left (l := xs) (f := f) (g := id)
  rwa [List.map_id] at eq

theorem limited_eq_wanted_iff (s : Session Rest Answer) (sender : Sender Rest) :
    sender.encodings.map s.limit = sender.encodings.map s.wanted ↔
      sender.encodings = [] ∨ s.LimitsFit := by
  rw [List.map_inj_left]
  constructor
  · intro same
    cases encodings : sender.encodings with
    | nil => exact Or.inl rfl
    | cons e rest => exact Or.inr ((limit_eq_wanted_iff s e).mp (same e (by simp [encodings])))
  · rintro (none | fit) e he
    · simp [none] at he
    · exact (limit_eq_wanted_iff s e).mpr fit

theorem sender_wanted_iff (s : Session Rest Answer) (sender : Sender Rest) :
    { sender with encodings := sender.encodings.map s.wanted } = sender ↔
      ∀ e ∈ sender.encodings, s.Carries e := by
  have fields : { sender with encodings := sender.encodings.map s.wanted } = sender ↔
      sender.encodings.map s.wanted = sender.encodings := by
    cases sender
    simp
  rw [fields, map_eq_self_iff]
  simp only [wanted_eq_self_iff]

/-- The limits reach every encoding exactly when those of all senders but the first have
them already, and the first sender has no encodings or the limits fit an `int`. -/
theorem limitsReached_iff {parseAnswer : Str → Option Answer} {s t : Session Rest Answer}
    {pc : PeerConnection Rest Answer} {desc : Str} {response : Http.Response} (hpc : s.pc = some pc)
    (h : s.onSuccess parseAnswer desc response = .ok t) :
    LimitsReached pc.senders s t ↔
      (∀ sender ∈ pc.senders.head?, sender.encodings = [] ∨ s.LimitsFit) ∧
      ∀ sender ∈ pc.senders.tail, ∀ e ∈ sender.encodings, s.Carries e := by
  obtain ⟨first, rest, pc', senders, hpc', after⟩ := senders_onSuccess hpc h
  have reached : LimitsReached pc.senders s t ↔ pc'.senders = pc.senders.map
      (fun sender => { sender with encodings := sender.encodings.map s.wanted }) := by
    constructor
    · rintro ⟨pc'', same, reached⟩
      obtain rfl := Option.some.inj (hpc'.symm.trans same)
      exact reached
    · exact fun reached => ⟨pc', hpc', reached⟩
  have later : rest = rest.map
        (fun sender => { sender with encodings := sender.encodings.map s.wanted }) ↔
      ∀ sender ∈ rest, ∀ e ∈ sender.encodings, s.Carries e := by
    rw [eq_comm, map_eq_self_iff]
    simp only [sender_wanted_iff]
  rw [reached, after, senders, List.map_cons, List.cons.injEq, Sender.mk.injEq,
    limited_eq_wanted_iff, later]
  simp

end

/-- A session with a bitrate limit and two senders of one encoding each, the second with
the given bitrate. -/
def twoSenders (bitrate : Option Int) : Session Unit Unit :=
  { url := [], maxBitrate := some 800000
    pc := some { senders := [⟨[⟨none, none, ()⟩], ()⟩, ⟨[⟨bitrate, none, ()⟩], ()⟩] } }

def emptyReply : Http.Response := ⟨⟨⟨1, 1⟩, 201, []⟩, [], []⟩

theorem limitedSender_limitsReached :
    ∃ t, (twoSenders (some 800000)).onSuccess (fun _ => none) [] emptyReply = .ok t ∧
      LimitsReached [⟨[⟨none, none, ()⟩], ()⟩, ⟨[⟨some 800000, none, ()⟩], ()⟩]
        (twoSenders (some 800000)) t := by
  have hpc : (twoSenders (some 800000)).pc = some
      { senders := [⟨[⟨none, none, ()⟩], ()⟩, ⟨[⟨some 800000, none, ()⟩], ()⟩] } := rfl
  have returns : ∃ t, (twoSenders (some 800000)).onSuccess (fun _ => none) [] emptyReply = .ok t :=
    ⟨_, rfl⟩
  obtain ⟨t, returned⟩ := returns
  refine ⟨t, returned, (limitsReached_iff hpc returned).mpr ⟨?_, ?_⟩⟩
  · intro sender _
    refine Or.inr ⟨?_, ?_⟩
    · rintro n ⟨rfl⟩
      decide
    · rintro n ⟨⟩
  · intro sender second e member
    obtain rfl := List.mem_singleton.mp second
    obtain rfl := List.mem_singleton.mp member
    refine ⟨?_, ?_⟩
    · rintro n ⟨rfl⟩
      rfl
    · rintro n ⟨⟩

/-- The second sender is left without the limit. -/
theorem twoSenders_not_limitsReached :
    ∃ t, (twoSenders none).onSuccess (fun _ => none) [] emptyReply = .ok t ∧
      ¬ LimitsReached [⟨[⟨none, none, ()⟩], ()⟩, ⟨[⟨none, none, ()⟩], ()⟩]
        (twoSenders none) t := by
  refine ⟨_, rfl, ?_⟩
  rintro ⟨pc, ⟨rfl⟩, reached⟩
  exact absurd reached (by decide)

end Wadi
