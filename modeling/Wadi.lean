import Wadi.Library.SizeString
import Wadi.Library.Separators
import Wadi.Library.LineText
import Wadi.Library.Numerals
import Wadi.Library.PackedBytes
import Wadi.Library.Runs
import Wadi.Library.Draining
import Wadi.Library.ByteText
import Wadi.Library.SectionFilter
import Wadi.Library.SectionFilterOrigin
import Wadi.Library.SectionFilterBody
import Wadi.Library.SectionFilterOrder
import Wadi.Library.SectionFilterHeaders
import Wadi.Library.SectionFilterComposition
import Wadi.Library.SectionFilterPlacement
import Wadi.Library.SectionFilterTags
import Wadi.Library.SectionFilterReordering
import Wadi.Library.SectionFilterSwap
import Wadi.Library.SectionFilterEarlyClose
import Wadi.Sdp.ForceCodecs
import Wadi.Sdp.Refinement
import Wadi.Sdp.MediaLine
import Wadi.Sdp.LineKinds
import Wadi.Sdp.SectionOutput
import Wadi.Sdp.SingleSection
import Wadi.Sdp.AdmittedLines
import Wadi.Sdp.Confinement
import Wadi.Sdp.MediaLineLoss
import Wadi.Sdp.Composition
import Wadi.Sdp.PassThrough
import Wadi.Sdp.Terminators
import Wadi.Sdp.Retransmission
import Wadi.Sdp.AttributeOrder
import Wadi.Sdp.FreeText
import Wadi.Http.Grammar
import Wadi.Http.StatusLine
import Wadi.Http.Receive
import Wadi.Http.ChunkedCoding
import Wadi.Http.Segmentation
import Wadi.Http.Base64
import Wadi.Http.Uri
import Wadi.Http.Encoding
import Wadi.Http.HeaderFields
import Wadi.Http.HeadGrammar
import Wadi.Http.Responses
import Wadi.Http.Framing
import Wadi.Http.Requests
import Wadi.Http.Send
import Wadi.Session.Model
import Wadi.Session.Answer
import Wadi.Session.StartUp
import Wadi.Session.Limits
import Wadi.Session.Exchange
import Wadi.Session.CodecPolicy
import Wadi.Device.Model
import Wadi.Device.Descriptors
import Wadi.Device.PixelFormat
import Wadi.Device.TrackSource
import Wadi.Config.Arguments
import Wadi.Config.WadiConfig
import Wadi.Config.Items
import Wadi.Config.Positional
import Wadi.Encoder.Model
import Wadi.Encoder.Steps
import Wadi.Encoder.OutputPlane
import Wadi.Encoder.Driver
import Wadi.Encoder.LifeCycle
import Wadi.Encoder.Indexing
import Wadi.Encoder.BufferLoss
import Wadi.Encoder.CapturePlane
import Wadi.Encoder.PictureCopy
import Wadi.Encoder.Pipeline
import Wadi.Program
