import Wadi.Sdp.AdmittedLines
import Wadi.Session.Exchange

/-!
The codecs that a session allows, as the server sees them. What the filter guarantees for the
text it returns holds for the body of the request that the server reads, over every network on
which the callback comes to its end.
-/

namespace Wadi
open ByteText LineText Runs SizeString

/-- Only spaces and line ends are new in the filtered text, so it can be sent as bytes if the
offer can. -/
theorem bytes_of_sdpForceCodecs {desc sdp : Str} {allowed : List Str}
    (bytes : ∀ c ∈ desc, c.toNat < 256) (filtered : sdpForceCodecs desc allowed = .ok sdp) :
    ∀ c ∈ sdp, c.toNat < 256 := by
  obtain ⟨-, rfl⟩ := eq_of_sdpForceCodecs filtered
  intro c hc
  obtain ⟨l, hl, hc⟩ := List.mem_flatMap.mp hc
  by_contra large
  have absent : ∀ k ∈ getlines desc, c ∉ k := fun k hk mem =>
    large (bytes c (mem_of_mem_getlines hk mem))
  obtain mem | ending := List.mem_append.mp hc
  · have space : c ≠ ' ' := fun e => large (e ▸ by decide)
    exact not_mem_outputLines space absent l hl mem
  · obtain rfl | rfl : c = '\r' ∨ c = '\n' := by simpa [LineText.crlf] using ending
    · exact large (by decide)
    · exact large (by decide)

/-- Every line about a codec that reaches the server, and every id in a media line, is justified
by the offer and the allowed codecs. -/
theorem server_reads_allowed_codecs {Rest Answer : Type} (parseAnswer : Str → Option Answer)
    (s t : Session Rest Answer) (desc : Str) (allowed : List Str) (uri : Http.Uri)
    (w : Http.World) (codecs : s.allowedCodecs = some allowed)
    (bytes : ∀ c ∈ desc, c.toNat < 256)
    (video : ∀ l ∈ getlines desc, contains l mVideo = true → mVideo <+: l)
    (address : Http.parseUri (ofStr s.url) = .ok uri)
    (target : 0x20 ∉ Http.requestTarget uri ∧ ¬ ByteText.crlf <:+: Http.requestTarget uri)
    (returns : s.onSuccessOver parseAnswer desc w = .ok t) :
    ∃ sdp request, s.offerText desc = .ok sdp ∧
      Http.readRequest (postOffer s.url sdp w).wire = some (request, []) ∧
      RtpmapLinesAllowed allowed (getlines desc) (crlfLines (toStr request.body)) ∧
      FeedbackLinesJustified allowed (getlines desc) (crlfLines (toStr request.body)) ∧
      MediaLinesCovered allowed (getlines desc) (crlfLines (toStr request.body)) := by
  obtain ⟨sdp, r, offer, ended, -⟩ := onSuccessOver_eq_ok.mp returns
  obtain ⟨uri', address', written, -⟩ := postOffer_returned ended
  obtain rfl : uri = uri' := Except.ok.inj (address.symm.trans address')
  have read := Http.readRequest_encodeHtml written sdpFields_own ⟨by decide, by decide⟩ target []
  rw [List.append_nil] at read
  have filtered : sdpForceCodecs desc allowed = .ok sdp := by
    rw [Session.offerText, codecs] at offer
    exact mapError_eq_ok offer
  refine ⟨sdp, _, offer, read, ?_⟩
  rw [toStr_ofStr (bytes_of_sdpForceCodecs bytes filtered)]
  obtain ⟨-, rfl⟩ := eq_of_sdpForceCodecs filtered
  rw [crlfLines_outputLines]
  exact ⟨rtpmapLinesAllowed_output video, feedbackLinesJustified_output video,
    mediaLinesCovered_output⟩

def codecSession : Session Unit Unit :=
  { trackSession with allowedCodecs := some ["H264".toList] }

def codecWorld : Http.World :=
  { writes := [.accepted 300], reads := [.data answerWhole] }

theorem server_reads_allowed_codecs_marked :
    ∃ t sdp request, codecSession.onSuccessOver parsePlain markedOffer codecWorld = .ok t ∧
      codecSession.offerText markedOffer = .ok sdp ∧
      Http.readRequest (postOffer codecSession.url sdp codecWorld).wire = some (request, []) ∧
      RtpmapLinesAllowed ["H264".toList] (getlines markedOffer)
        (crlfLines (toStr request.body)) ∧
      FeedbackLinesJustified ["H264".toList] (getlines markedOffer)
        (crlfLines (toStr request.body)) ∧
      MediaLinesCovered ["H264".toList] (getlines markedOffer)
        (crlfLines (toStr request.body)) := by
  have filtered : sdpForceCodecs markedOffer ["H264".toList] =
      .ok (crlfText (getlines markedOffer)) := by decide +kernel
  have offer : codecSession.offerText markedOffer = .ok (crlfText (getlines markedOffer)) := by
    rw [Session.offerText]
    exact congrArg (Except.mapError _) filtered
  have posting : Posting codecSession markedOffer (crlfText (getlines markedOffer))
      { scheme := ascii "http", host := ascii "h", path := ascii "/w" }
      (ascii ("POST /w HTTP/1.1\r\nContent-Type: application/sdp\r\nHost: h\r\n" ++
        "Content-Length: 59\r\n\r\n") ++ ofStr (crlfText (getlines markedOffer))) codecWorld :=
    ⟨⟨_, rfl, by simp⟩, offer, rfl, by decide +kernel, rfl, rfl, rfl, [300], rfl,
      by decide +kernel⟩
  have ascii_only : markedOffer.all (fun c => decide (c.toNat < 256)) = true := by decide +kernel
  obtain ⟨t, returns, -⟩ := posting.applies parsePlain (receive_answerWhole [])
  obtain ⟨sdp, request, rest⟩ := server_reads_allowed_codecs parsePlain codecSession t markedOffer
    ["H264".toList] _ codecWorld rfl
    (fun c hc => of_decide_eq_true (List.all_eq_true.mp ascii_only c hc)) (by decide +kernel)
    posting.address ⟨by decide, by decide⟩ returns
  exact ⟨t, sdp, request, returns, rest⟩

end Wadi
