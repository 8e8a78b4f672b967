import RingRtc.Proto.Wire
import RingRtc.Proto.Utf8
import RingRtc.Proto.Field
import RingRtc.Proto.Signaling
import RingRtc.Core.Signaling
import RingRtc.Proto.Unknown
import RingRtc.Core.Hangup
import RingRtc.Core.Platform
import RingRtc.Ios.Platform
import RingRtc.Ios.CallManager
import RingRtc.Native.Platform
import RingRtc.Regex.Syntax
import RingRtc.Regex.Semantics
import RingRtc.Regex.Analysis
import RingRtc.Regex.Words
import RingRtc.Regex.Search
import RingRtc.Regex.Rewrite
import RingRtc.Core.Util
import RingRtc.Core.Hex
import RingRtc.Core.Ipv6Pattern
import RingRtc.Core.Ipv4Pattern
import RingRtc.Core.Redact
import RingRtc.Core.Exhaustive
import RingRtc.Core.Ipv6Compressed
import RingRtc.Core.Ipv6Zone
import RingRtc.Core.Ipv6Quad
