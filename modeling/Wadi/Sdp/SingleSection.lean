import Wadi.Sdp.SectionOutput

/-!
The filter on an offer with one video section, the shape WebRTC emits for a
single camera. The media line loses the payload ids it came with and gets those
of the allowed rtpmap lines; these lines and their feedback and format lines
move behind the other lines of the section; all else stays in place.

The ids and codec names are cut out of a line by searching for blanks, slashes and
colons. On well-formed attribute lines these are the fields of the line, so that the
filter can be described on the fields alone.
-/

namespace Wadi
open SizeString LineText SectionFilter

/-- The exact output for one closed video section. -/
theorem sdpForceCodecs_single_section (sdp : Str) (allowed pre body post : List Str)
    (m s : Str) (size : sdp.length < 2 ^ 63)
    (lines : getlines sdp = pre ++ [m] ++ body ++ [s] ++ post)
    (hpre : ∀ l ∈ pre, passThrough l = true) (hpost : ∀ l ∈ post, passThrough l = true)
    (hm : contains m mVideo = true) (blanks : 3 ≤ m.count ' ')
    (hbody : ∀ l ∈ body,
      contains l mVideo = false ∧ contains l aSsrc = false ∧ l ≠ aRtpmap)
    (hs : contains s aSsrc = true ∧ passThrough s = true) :
    sdpForceCodecs sdp allowed = .ok (crlfText
      (pre ++ [beforeThirdSpace m ++ appendIds (allowedIdsOf allowed body)] ++
        otherLines body ++ keptLines allowed body ++ [s] ++ post)) := by
  have short : m.length < 2 ^ 63 := by
    have le := (mem_getlines (s := sdp) (l := m) (by simp [lines])).2
    omega
  have shape : VideoSection (getlines sdp) pre m body s post :=
    ⟨lines, hpre, hm, blanks, hbody, hs, hpost⟩
  rw [sdpForceCodecs_eq sdp allowed shape.noStop, shape.outputLines_eq short, filteredSection]

/-- A well-formed rtpmap line, `a=rtpmap:id name/rest`. -/
def rtpmapLine (id name rest : Str) : Str := aRtpmap ++ ':' :: (id ++ ' ' :: (name ++ '/' :: rest))

/-- A well-formed rtcp-fb or fmtp line, `marker:id rest`. -/
def feedbackLine (marker id rest : Str) : Str := marker ++ ':' :: (id ++ ' ' :: rest)

section
variable {id name rest : Str}

theorem aRtpmap_plain : aRtpmap.length = 8 ∧ ' ' ∉ aRtpmap ∧ '/' ∉ aRtpmap := by
  decide

theorem length_rtpmapLine :
    (rtpmapLine id name rest).length = 11 + id.length + name.length + rest.length := by
  simp only [rtpmapLine, List.length_append, List.length_cons, aRtpmap_plain.1]
  omega

theorem findFirstOf_space (hid : ' ' ∉ id) :
    findFirstOf (rtpmapLine id name rest) ' ' = some (9 + id.length) := by
  have found := find_char_first (aRtpmap ++ ':' :: id) (name ++ '/' :: rest) ' '
    (by simp [aRtpmap_plain.2.1, hid])
  rw [List.append_assoc, List.cons_append] at found
  rw [findFirstOf, rtpmapLine, found, List.length_append, List.length_cons, aRtpmap_plain.1]
  congr 1
  omega

theorem findFirstOf_slash (hid : '/' ∉ id) (hname : '/' ∉ name) :
    findFirstOf (rtpmapLine id name rest) '/' = some (10 + id.length + name.length) := by
  have found := find_char_first (aRtpmap ++ ':' :: (id ++ ' ' :: name)) rest '/'
    (by simp [aRtpmap_plain.2.2, hid, hname])
  simp only [List.append_assoc, List.cons_append] at found
  rw [findFirstOf, rtpmapLine, found]
  simp only [List.length_append, List.length_cons, aRtpmap_plain.1]
  congr 1
  omega

theorem codecIdOf_rtpmapLine (hid : ' ' ∉ id)
    (size : (rtpmapLine id name rest).length < 2 ^ 63) :
    codecIdOf (rtpmapLine id name rest) = id := by
  have cut : substr (rtpmapLine id name rest) 9 id.length = .ok id := by
    have shape : rtpmapLine id name rest =
        (aRtpmap ++ [':']) ++ (id ++ ' ' :: (name ++ '/' :: rest)) := by simp [rtpmapLine]
    rw [shape]
    exact substr_middle _ id _ (by simp [aRtpmap_plain.1]) rfl
  rw [length_rtpmapLine] at size
  rw [codecIdOf, rtpmapCodecId, findFirstOf_space hid, position,
    sizeSub_of_le (by omega) (by omega), Nat.add_sub_cancel_left, cut]
  rfl

theorem codecOf_rtpmapLine (hid : ' ' ∉ id ∧ '/' ∉ id) (hname : '/' ∉ name)
    (size : (rtpmapLine id name rest).length < 2 ^ 63) :
    codecOf (rtpmapLine id name rest) = name := by
  have cut : substr (rtpmapLine id name rest) (10 + id.length) name.length = .ok name := by
    have shape : rtpmapLine id name rest =
        (aRtpmap ++ ':' :: (id ++ [' '])) ++ (name ++ '/' :: rest) := by simp [rtpmapLine]
    rw [shape]
    refine substr_middle _ name _ ?_ rfl
    simp only [List.length_append, List.length_cons, List.length_nil, aRtpmap_plain.1]
    omega
  have start : 9 + id.length + 1 = 10 + id.length := by omega
  have length : 10 + id.length + name.length - (9 + id.length) - 1 = name.length := by omega
  rw [length_rtpmapLine] at size
  rw [codecOf, rtpmapCodec, findFirstOf_space hid.1, findFirstOf_slash hid.2 hname, position,
    position, sizeAdd_of_lt (by omega),
    sizeSub_of_le (a := 10 + id.length + name.length) (by omega) (by omega),
    sizeSub_of_le (by omega) (by omega), start, length, cut]
  rfl

end

theorem feedbackIdOf_feedbackLine (marker id rest : Str) (hmarker : ' ' ∉ marker ∧ ':' ∉ marker)
    (hid : ' ' ∉ id) (size : (feedbackLine marker id rest).length < 2 ^ 63) :
    feedbackIdOf (feedbackLine marker id rest) = id := by
  have space : findFirstOf (feedbackLine marker id rest) ' ' =
      some (marker.length + 1 + id.length) := by
    have found := find_char_first (marker ++ ':' :: id) rest ' ' (by simp [hmarker.1, hid])
    rw [List.append_assoc, List.cons_append] at found
    rw [findFirstOf, feedbackLine, found, List.length_append, List.length_cons]
    congr 1
    omega
  have dots : findFirstOf (feedbackLine marker id rest) ':' = some marker.length :=
    find_char_first marker (id ++ ' ' :: rest) ':' hmarker.2
  have cut : substr (feedbackLine marker id rest) (marker.length + 1) id.length = .ok id := by
    have shape : feedbackLine marker id rest = (marker ++ [':']) ++ (id ++ ' ' :: rest) := by
      simp [feedbackLine]
    rw [shape]
    exact substr_middle _ id _ (by simp) rfl
  have length : marker.length + 1 + id.length - marker.length - 1 = id.length := by omega
  simp only [feedbackLine, List.length_append, List.length_cons] at size
  rw [feedbackIdOf, feedbackCodecId, space, dots, position, position,
    sizeAdd_of_lt (by omega), sizeSub_of_le (a := marker.length + 1 + id.length) (by omega)
      (by omega), sizeSub_of_le (by omega) (by omega), length, cut]
  rfl

/-- A well-formed rtpmap line is kept for its codec name alone. -/
theorem keepsLine_rtpmapLine (allowed earlier : List Str) {id name rest : Str}
    (hid : ' ' ∉ id ∧ '/' ∉ id) (hname : '/' ∉ name)
    (size : (rtpmapLine id name rest).length < 2 ^ 63)
    (video : contains (rtpmapLine id name rest) mVideo = false) :
    keepsLine allowed earlier (rtpmapLine id name rest) = true ↔ name ∈ allowed := by
  have rtpmap : contains (rtpmapLine id name rest) aRtpmap = true :=
    contains_of_isPrefix (List.prefix_append _ _)
  simp [keepsLine, allowedRtpmap, isRtpmap, isFeedback, video, rtpmap,
    codecOf_rtpmapLine hid hname size]

/-- A well-formed rtcp-fb or fmtp line is kept for its id alone. -/
theorem keepsLine_feedbackLine (allowed earlier : List Str) {marker id rest : Str}
    (hmarker : marker = aRtcpFb ∨ marker = aFmtp) (hid : ' ' ∉ id)
    (size : (feedbackLine marker id rest).length < 2 ^ 63)
    (video : contains (feedbackLine marker id rest) mVideo = false)
    (rtpmap : contains (feedbackLine marker id rest) aRtpmap = false) :
    keepsLine allowed earlier (feedbackLine marker id rest) = true ↔
      id ∈ allowedIdsOf allowed earlier := by
  have free : ' ' ∉ marker ∧ ':' ∉ marker := by
    obtain rfl | rfl := hmarker <;> decide
  have feedback : contains (feedbackLine marker id rest) marker = true :=
    contains_of_isPrefix (List.prefix_append _ _)
  have kind : isFeedback (feedbackLine marker id rest) = true := by
    obtain rfl | rfl := hmarker <;> simp [isFeedback, video, rtpmap, feedback]
  simp [keepsLine, allowedRtpmap, isRtpmap, rtpmap, kind,
    feedbackIdOf_feedbackLine marker id rest free hid size]

/-- A line of a section by its fields; `format` tells fmtp from rtcp-fb. -/
inductive Attribute where
  | rtpmap (id name rest : Str)
  | feedback (format : Bool) (id rest : Str)
  | other (text : Str)
  deriving DecidableEq, Repr

namespace Attribute

def text : Attribute → Str
  | rtpmap id name rest => rtpmapLine id name rest
  | feedback format id rest => feedbackLine (if format then aFmtp else aRtcpFb) id rest
  | other text => text

/-- The separators end the fields, and no marker hides in their text. -/
def Proper : Attribute → Prop
  | rtpmap id name rest => (' ' ∉ id ∧ '/' ∉ id) ∧ '/' ∉ name ∧
      contains (rtpmapLine id name rest) mVideo = false ∧
      contains (rtpmapLine id name rest) aSsrc = false
  | feedback format id rest => ' ' ∉ id ∧
      contains (text (feedback format id rest)) mVideo = false ∧
      contains (text (feedback format id rest)) aRtpmap = false ∧
      contains (text (feedback format id rest)) aSsrc = false
  | other text => passThrough text = true ∧ contains text aSsrc = false

instance (a : Attribute) : Decidable a.Proper :=
  match a with
  | rtpmap .. => inferInstanceAs (Decidable (_ ∧ _ ∧ _))
  | feedback .. => inferInstanceAs (Decidable (_ ∧ _ ∧ _))
  | other _ => inferInstanceAs (Decidable (_ ∧ _))

def allowedId? (allowed : List Str) : Attribute → Option Str
  | rtpmap id name _ => if name ∈ allowed then some id else none
  | _ => none

/-- An rtpmap line stays for its codec, another attribute for an rtpmap line in front of it. -/
def stays (allowed : List Str) (earlier : List Attribute) : Attribute → Bool
  | rtpmap _ name _ => decide (name ∈ allowed)
  | feedback _ id _ => decide (id ∈ earlier.filterMap (allowedId? allowed))
  | other _ => false

def isOther : Attribute → Bool
  | other _ => true
  | _ => false

variable {a : Attribute}

theorem Proper.inside (h : a.Proper) : contains a.text mVideo = false ∧
    contains a.text aSsrc = false := by
  cases a with
  | rtpmap id name rest => exact h.2.2
  | feedback format id rest => exact ⟨h.2.1, h.2.2.2⟩
  | other text => exact ⟨not_video_of_passThrough h.1, h.2⟩

theorem Proper.ne_aRtpmap (h : a.Proper) : a.text ≠ aRtpmap := by
  cases a with
  | rtpmap id name rest =>
      intro same
      have colon : ':' ∈ aRtpmap := same ▸ (by simp [text, rtpmapLine])
      exact absurd colon (by decide)
  | feedback format id rest =>
      intro same
      have marked := h.2.2.1
      rw [same] at marked
      exact absurd marked (by decide)
  | other text => exact ne_aRtpmap_of_passThrough h.1

theorem Proper.ids (h : a.Proper) (size : a.text.length < 2 ^ 63) (allowed : List Str) :
    allowedIdsOf allowed [a.text] = (a.allowedId? allowed).toList := by
  cases a with
  | rtpmap id name rest =>
      have marked : contains (rtpmapLine id name rest) aRtpmap = true :=
        contains_of_isPrefix (List.prefix_append _ _)
      have own := codecIdOf_rtpmapLine h.1.1 size
      have codec := codecOf_rtpmapLine h.1 h.2.1 size
      by_cases member : name ∈ allowed <;>
        simp [allowedIdsOf, allowedRtpmap, isRtpmap, text, h.2.2.1, marked, codec, own, member,
          allowedId?]
  | feedback format id rest =>
      simp [allowedIdsOf, allowedRtpmap, isRtpmap, h.2.2.1, allowedId?]
  | other text =>
      have kind : isRtpmap text = false := by
        have pass := h.1
        simp_all [isRtpmap, passThrough]
      simp [allowedIdsOf, allowedRtpmap, Attribute.text, kind, allowedId?]

theorem Proper.stays_iff (h : a.Proper) (size : a.text.length < 2 ^ 63) {allowed : List Str}
    {earlier : List Attribute}
    (ids : allowedIdsOf allowed (earlier.map text) = earlier.filterMap (allowedId? allowed)) :
    keepsLine allowed (earlier.map text) a.text = a.stays allowed earlier := by
  rw [Bool.eq_iff_iff]
  cases a with
  | rtpmap id name rest =>
      rw [text, keepsLine_rtpmapLine _ _ h.1 h.2.1 size h.2.2.1, stays, decide_eq_true_iff]
  | feedback format id rest =>
      have marker : (if format then aFmtp else aRtcpFb) = aRtcpFb ∨
          (if format then aFmtp else aRtcpFb) = aFmtp := by cases format <;> simp
      rw [text, keepsLine_feedbackLine _ _ marker h.1 size h.2.1 h.2.2.1, ids, stays,
        decide_eq_true_iff]
  | other text =>
      have pass := h.1
      simp_all [keepsLine, allowedRtpmap, isRtpmap, isFeedback, passThrough, Attribute.text, stays]

theorem Proper.isOther_iff (h : a.Proper) :
    (!isRtpmap a.text && !isFeedback a.text) = a.isOther := by
  cases a with
  | rtpmap id name rest =>
      have marked : contains (rtpmapLine id name rest) aRtpmap = true :=
        contains_of_isPrefix (List.prefix_append _ _)
      simp [isRtpmap, text, h.2.2.1, marked, isOther]
  | feedback format id rest =>
      have marked : contains (text (feedback format id rest))
          (if format then aFmtp else aRtcpFb) = true :=
        contains_of_isPrefix (List.prefix_append _ _)
      cases format <;> simp_all [isRtpmap, isFeedback, h.2.1, h.2.2.1, isOther]
  | other text =>
      have pass := h.1
      simp_all [isRtpmap, isFeedback, passThrough, Attribute.text, isOther]

end Attribute

section Attributes
variable {attrs : List Attribute}

def keptAttributes (allowed : List Str) (attrs : List Attribute) : List Attribute :=
  ((withEarlier attrs).filter (fun p => p.2.stays allowed p.1)).map Prod.snd

theorem allowedIdsOf_attributes (allowed : List Str)
    (proper : ∀ a ∈ attrs, a.Proper ∧ a.text.length < 2 ^ 63) :
    allowedIdsOf allowed (attrs.map Attribute.text) =
      attrs.filterMap (Attribute.allowedId? allowed) := by
  induction attrs with
  | nil => rfl
  | cons a attrs ih =>
      obtain ⟨here, behind⟩ := List.forall_mem_cons.mp proper
      have split : allowedIdsOf allowed (a.text :: attrs.map Attribute.text) =
          allowedIdsOf allowed [a.text] ++ allowedIdsOf allowed (attrs.map Attribute.text) := by
        rw [allowedIdsOf, allowedIdsOf, allowedIdsOf, ← List.map_append, ← List.filter_append]
        rfl
      rw [List.map_cons, split, here.1.ids here.2, ih behind]
      cases id : a.allowedId? allowed <;> simp [id]

theorem keptLines_attributes (allowed : List Str)
    (proper : ∀ a ∈ attrs, a.Proper ∧ a.text.length < 2 ^ 63) :
    keptLines allowed (attrs.map Attribute.text) =
      (keptAttributes allowed attrs).map Attribute.text := by
  rw [keptLines, withEarlier_map, List.filter_map, List.map_map, keptAttributes, List.map_map]
  congr 1
  apply List.filter_congr
  intro p hp
  obtain ⟨here, size⟩ := proper p.2 (mem_of_withEarlier hp)
  exact here.stays_iff size
    (allowedIdsOf_attributes allowed fun a ha => proper a (earlier_subset hp ha))

theorem otherLines_attributes (proper : ∀ a ∈ attrs, a.Proper ∧ a.text.length < 2 ^ 63) :
    otherLines (attrs.map Attribute.text) =
      (attrs.filter Attribute.isOther).map Attribute.text := by
  rw [otherLines, List.filter_map]
  congr 1
  exact List.filter_congr fun a ha => (proper a ha).1.isOther_iff

end Attributes

/-- The filter on one video section, described on the fields of its lines: an rtpmap line is
kept for its codec name, and an rtcp-fb or fmtp line for the id of a kept rtpmap line in front
of it. -/
theorem sdpForceCodecs_attributes (sdp : Str) (allowed pre post : List Str)
    (attrs : List Attribute) (m s : Str) (size : sdp.length < 2 ^ 63)
    (lines : getlines sdp = pre ++ [m] ++ attrs.map Attribute.text ++ [s] ++ post)
    (hpre : ∀ l ∈ pre, passThrough l = true) (hpost : ∀ l ∈ post, passThrough l = true)
    (hm : contains m mVideo = true) (blanks : 3 ≤ m.count ' ')
    (proper : ∀ a ∈ attrs, a.Proper) (hs : contains s aSsrc = true ∧ passThrough s = true) :
    sdpForceCodecs sdp allowed = .ok (crlfText
      (pre ++ [beforeThirdSpace m ++ appendIds (attrs.filterMap (Attribute.allowedId? allowed))] ++
        (attrs.filter Attribute.isOther).map Attribute.text ++
        (keptAttributes allowed attrs).map Attribute.text ++ [s] ++ post)) := by
  have short {l : Str} (hl : l ∈ getlines sdp) : l.length < 2 ^ 63 :=
    Nat.lt_of_le_of_lt (mem_getlines hl).2 size
  have sized : ∀ a ∈ attrs, a.Proper ∧ a.text.length < 2 ^ 63 := fun a ha =>
    ⟨proper a ha, short (by simp only [lines, List.mem_append, List.mem_map]; grind)⟩
  have shape : VideoSection (getlines sdp) pre m (attrs.map Attribute.text) s post := by
    refine ⟨lines, hpre, hm, blanks, ?_, hs, hpost⟩
    intro l hl
    obtain ⟨a, ha, rfl⟩ := List.mem_map.mp hl
    have inside := (proper a ha).inside
    exact ⟨inside.1, inside.2, (proper a ha).ne_aRtpmap⟩
  rw [sdpForceCodecs_eq sdp allowed shape.noStop,
    shape.outputLines_eq (short (by simp [lines])), filteredSection,
    allowedIdsOf_attributes allowed sized, keptLines_attributes allowed sized,
    otherLines_attributes sized]

def cameraOffer : Str := lfText
  ["v=0".toList, "m=video 9 UDP/TLS/RTP/SAVPF 96 97".toList, "a=mid:0".toList,
    "a=rtpmap:96 H264/90000".toList, "a=rtpmap:97 VP8/90000".toList,
    "a=rtcp-fb:97 nack".toList, "a=fmtp:96 level=1".toList, "a=ssrc:1 cname:c".toList]

theorem cameraOffer_single_section :
    sdpForceCodecs cameraOffer ["H264".toList] = .ok (crlfText
      ["v=0".toList, "m=video 9 UDP/TLS/RTP/SAVPF 96".toList, "a=mid:0".toList,
        "a=rtpmap:96 H264/90000".toList, "a=fmtp:96 level=1".toList,
        "a=ssrc:1 cname:c".toList]) :=
  (sdpForceCodecs_single_section cameraOffer ["H264".toList] ["v=0".toList]
    ["a=mid:0".toList, "a=rtpmap:96 H264/90000".toList, "a=rtpmap:97 VP8/90000".toList,
      "a=rtcp-fb:97 nack".toList, "a=fmtp:96 level=1".toList] []
    "m=video 9 UDP/TLS/RTP/SAVPF 96 97".toList "a=ssrc:1 cname:c".toList
    (by decide +kernel) (by decide +kernel) (by decide +kernel) (by decide +kernel)
    (by decide +kernel) (by decide +kernel) (by decide +kernel) (by decide +kernel)).trans
    (by decide +kernel)

/-- The attributes of the camera's section. -/
def cameraAttributes : List Attribute :=
  [.other "a=mid:0".toList, .rtpmap "96".toList "H264".toList "90000".toList,
    .rtpmap "97".toList "VP8".toList "90000".toList, .feedback false "97".toList "nack".toList,
    .feedback true "96".toList "level=1".toList]

theorem cameraOffer_attributes :
    keptAttributes ["H264".toList] cameraAttributes =
        [.rtpmap "96".toList "H264".toList "90000".toList,
          .feedback true "96".toList "level=1".toList] ∧
      sdpForceCodecs cameraOffer ["H264".toList] = .ok (crlfText
        (["v=0".toList] ++ ["m=video 9 UDP/TLS/RTP/SAVPF 96".toList] ++ ["a=mid:0".toList] ++
          (keptAttributes ["H264".toList] cameraAttributes).map Attribute.text ++
          ["a=ssrc:1 cname:c".toList] ++ [])) :=
  ⟨by decide +kernel, sdpForceCodecs_attributes cameraOffer ["H264".toList] ["v=0".toList] []
    cameraAttributes "m=video 9 UDP/TLS/RTP/SAVPF 96 97".toList "a=ssrc:1 cname:c".toList
    (by decide +kernel) (by decide +kernel) (by decide +kernel) (by decide +kernel)
    (by decide +kernel) (by decide +kernel) (by decide +kernel) (by decide +kernel)⟩

end Wadi
