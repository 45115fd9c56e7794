import Wadi.Library.LineText

/-!
The SDP codec filter `WHIPSession::SDPForceCodecs`.

The loop reads the offer line by line and keeps three output streams, the
video media line that has not been written yet and the payload ids of the
codecs it has let through. Line kinds are told apart by substring search in a
fixed order. Ids and codec names are cut out with `size_t` positions that may
be `npos` or out of order, exactly as in the source.
-/

namespace Wadi
open SizeString LineText

def mVideo : Str := "m=video".toList
def aRtpmap : Str := "a=rtpmap".toList
def aRtcpFb : Str := "a=rtcp-fb".toList
def aFmtp : Str := "a=fmtp".toList
def aSsrc : Str := "a=ssrc".toList

structure ForceState where
  osdpstream : Str := []
  rtmapstream : Str := []
  midstream : Str := []
  currentMline : Str := []
  allowedIds : List Str := []
  deriving DecidableEq, Repr

/-- `codec_id` of an rtpmap line: what follows the nine bytes of `a=rtpmap:`. -/
def rtpmapCodecId (line : Str) : Except OutOfRange Str :=
  let space := position (findFirstOf line ' ')
  substr line 9 (sizeSub space 9)

def rtpmapCodec (line : Str) : Except OutOfRange Str :=
  let space := position (findFirstOf line ' ')
  let slash := position (findFirstOf line '/')
  substr line (sizeAdd space 1) (sizeSub (sizeSub slash space) 1)

/-- `codec_id` of an rtcp-fb or fmtp line: what stands between colon and space. -/
def feedbackCodecId (line : Str) : Except OutOfRange Str :=
  let space := position (findFirstOf line ' ')
  let dots := position (findFirstOf line ':')
  substr line (sizeAdd dots 1) (sizeSub (sizeSub space dots) 1)

/-- `mline_no_codecs`: three chained searches, each starting one past the last. -/
def mlineNoCodecs (currentMline : Str) : Except OutOfRange Str :=
  let space := position (find currentMline [' '] 0)
  let space := position (find currentMline [' '] (sizeAdd space 1))
  let space := position (find currentMline [' '] (sizeAdd space 1))
  substr currentMline 0 space

def appendIds (ids : List Str) : Str := ids.flatMap (' ' :: ·)

/-- The branch taken at an `a=ssrc` line while a media line is pending. The ids
are not reset together with the streams. -/
def ForceState.flush (st : ForceState) : Except OutOfRange ForceState := do
  let mline ← mlineNoCodecs st.currentMline
  return {
    osdpstream := st.osdpstream ++ mline ++ appendIds st.allowedIds ++ crlf ++
      st.midstream ++ st.rtmapstream
    allowedIds := st.allowedIds }

def ForceState.put (st : ForceState) (line : Str) : ForceState :=
  if st.currentMline.isEmpty then { st with osdpstream := st.osdpstream ++ line ++ crlf }
  else { st with midstream := st.midstream ++ line ++ crlf }

/-- One turn of the loop. -/
def forceLine (allowedCodecs : List Str) (st : ForceState) (line : Str) :
    Except OutOfRange ForceState :=
  if contains line mVideo then
    .ok { st with currentMline := line }
  else if contains line aRtpmap then do
    let codecId ← rtpmapCodecId line
    let codec ← rtpmapCodec line
    if codec ∈ allowedCodecs then
      .ok { st with
        allowedIds := st.allowedIds ++ [codecId]
        rtmapstream := st.rtmapstream ++ line ++ crlf }
    else .ok st
  else if contains line aRtcpFb || contains line aFmtp then do
    let codecId ← feedbackCodecId line
    if codecId ∈ st.allowedIds then
      .ok { st with rtmapstream := st.rtmapstream ++ line ++ crlf }
    else .ok st
  else if contains line aSsrc && !st.currentMline.isEmpty then do
    let st ← st.flush
    .ok (st.put line)
  else .ok (st.put line)

def sdpForceCodecs (sdp : Str) (allowedCodecs : List Str) : Except OutOfRange Str := do
  let st ← (getlines sdp).foldlM (forceLine allowedCodecs) {}
  return st.osdpstream

end Wadi
