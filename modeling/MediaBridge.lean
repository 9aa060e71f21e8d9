import MediaBridge.Lib.Run
import MediaBridge.Lib.BoundedMap
import MediaBridge.Lib.BitMask
import MediaBridge.Lib.Buffer
import MediaBridge.Lib.Tlv
import MediaBridge.Math.Fields
import MediaBridge.Codec.Vp8Header
import MediaBridge.Bridge.SsrcOutboundContext
import MediaBridge.Bridge.VideoRewrite
import MediaBridge.Bridge.AudioRewrite
import MediaBridge.Transport.RtpReceiveState
import MediaBridge.Rtp.RtcpHeader
import MediaBridge.Rtp.SourceDescription
import MediaBridge.Lib.FiniteMap
import MediaBridge.Bridge.EngineStreamDirector
import MediaBridge.Bridge.StreamDirectorPins
import MediaBridge.Bridge.StreamDirectorForwarding
import MediaBridge.Memory.Map
import MediaBridge.Lib.ProbeIndex
import MediaBridge.Memory.MapIndex
import MediaBridge.Concurrency.MpmcHashmap
import MediaBridge.Lib.BoundedFifo
import MediaBridge.Concurrency.MpmcQueue
import MediaBridge.Concurrency.MpmcQueueThreads
import MediaBridge.Memory.PartialSortExtractor
import MediaBridge.Rtp.RtcpNack
import MediaBridge.Bridge.VideoMissingPacketsTracker
import MediaBridge.Bridge.MissingPacketsJobs
import MediaBridge.Memory.List
import MediaBridge.Bridge.ActiveMediaList
import MediaBridge.Bridge.ActiveMediaListAudio
import MediaBridge.Bridge.ActiveMediaListVideo
import MediaBridge.Bridge.ActiveMediaListRuns
import MediaBridge.Lib.BestSoFar
import MediaBridge.Bridge.StreamDirectorQuality
import MediaBridge.Lib.SerialNumber
import MediaBridge.Rtp.JitterBufferList
import MediaBridge.Rtp.RtpHeader
import MediaBridge.Transport.SctpPacket
import MediaBridge.Transport.SctpReassembly
import MediaBridge.Transport.SctpReassemblyRuns
import MediaBridge.Transport.StunMessage
import MediaBridge.Transport.StunCompose
import MediaBridge.Utils.Time
import MediaBridge.Bridge.ActiveMediaListLevels
import MediaBridge.Rtp.RtcpRemb
import MediaBridge.Transport.SctpCongestionControl
import MediaBridge.Memory.RingAllocator
import MediaBridge.Transport.SctpSend
import MediaBridge.Transport.SctpPrepareSack
import MediaBridge.Transport.SctpOutbound
import MediaBridge.Transport.SctpSackReceived
import MediaBridge.Lib.RecentWindow
import MediaBridge.Memory.RandomAccessBacklog
import MediaBridge.Memory.PacketPool
import MediaBridge.Rtp.AudioLevel
import MediaBridge.Bridge.PacketCache
import MediaBridge.Utils.SimpleJson
import MediaBridge.Utils.Base64
import MediaBridge.Api.DataChannelMessageParser
