import RtcCore.Core.LTS
import RtcCore.Core.BitRow
import RtcCore.Core.Block
import RtcCore.Core.Bytes
import RtcCore.Core.Loop
import RtcCore.Core.Machine
import RtcCore.Core.Memory
import RtcCore.Core.MemoryRing
import RtcCore.Core.Serial
import RtcCore.Core.Circular
import RtcCore.Core.Slots
import RtcCore.Core.StagedQueue
import RtcCore.Core.Keyed
import RtcCore.Core.Returns
import RtcCore.Core.RewindQueue
import RtcCore.Core.Reads
import RtcCore.Core.ComparedMap
import RtcCore.Core.StableSort
import RtcCore.Core.TimedTable
import RtcCore.Core.Walk
import RtcCore.Core.SuffixMinima
import RtcCore.Core.Tiling
import RtcCore.Core.Framing
import RtcCore.Core.Gaps
import RtcCore.Core.Search
import RtcCore.Core.FirstBest
import RtcCore.Core.GreedyRuns
import RtcCore.Core.Heap
import RtcCore.Core.BranchAndBound
import RtcCore.Core.Peeling
import RtcCore.Core.Ranked
import RtcCore.Core.LowerEnvelope
import RtcCore.Core.BackInsert
import RtcCore.Core.Neighbours
import RtcCore.Core.FairShare
import RtcCore.Core.WeightedMean
import RtcCore.Core.FixedPoint
import RtcCore.Core.Int32
import RtcCore.Core.RangeCoder
import RtcCore.L1Wire.VideoHeader
import RtcCore.L1Wire.H264
import RtcCore.L1Wire.Generic
import RtcCore.L1Wire.Vp8Aggregator
import RtcCore.L1Wire.Vp8Optimal
import RtcCore.L1Wire.Vp8
import RtcCore.L1Wire.Vp8Packets
import RtcCore.L1Wire.Vp8Fragments
import RtcCore.L1Wire.Vp8Descriptor
import RtcCore.L1Wire.PayloadFormat
import RtcCore.L1Wire.RtpHeader
import RtcCore.L1Wire.RtpHeaderBounds
import RtcCore.L1Wire.RtpHeaderRoundTrip
import RtcCore.L1Wire.HeaderExtensionUpdate
import RtcCore.L1Wire.Rtx
import RtcCore.L1Wire.RedPacket
import RtcCore.L1Wire.RtpPacket2Frame
import RtcCore.L1Wire.RtpPacket2FrameFaults
import RtcCore.L1Wire.RtcpParser
import RtcCore.L1Wire.RtcpParserSound
import RtcCore.L1Wire.RtcpWalk
import RtcCore.L1Wire.RtcpPacket
import RtcCore.L1Wire.RtcpReads
import RtcCore.L1Wire.RtcpReports
import RtcCore.L1Wire.RtcpFeedback
import RtcCore.L1Wire.RtcpRoundTrip
import RtcCore.L1Wire.RtcpSender
import RtcCore.L1Wire.RtcpBitrate
import RtcCore.L1Wire.RtcpNack
import RtcCore.L1Wire.RtcpRpsi
import RtcCore.L1Wire.Adts
import RtcCore.L1Wire.ByteBuffer
import RtcCore.L1Wire.ByteBufferRuns
import RtcCore.L1Wire.Stun
import RtcCore.L1Wire.StunRoundTrip
import RtcCore.L1Wire.StunAuthentication
import RtcCore.L1Wire.StunIntegrity
import RtcCore.L1Wire.IsacArith
import RtcCore.L1Wire.IsacLogistic
import RtcCore.L1Wire.IsacInterval
import RtcCore.L1Wire.IsacRoundTrip
import RtcCore.L1Wire.IsacSearches
import RtcCore.L1Wire.IsacClipping
import RtcCore.L1Wire.IsacBuffer
import RtcCore.L1Wire.IsacSpectrum
import RtcCore.L2Send.FecMask
import RtcCore.L2Send.PacketHistory
import RtcCore.L2Send.PacedSender
import RtcCore.L2Send.PacerOrder
import RtcCore.L2Send.PacerRate
import RtcCore.L2Send.SendSideBandwidth
import RtcCore.L2Send.BitrateAllocator
import RtcCore.L2Send.LossAggregation
import RtcCore.L2Send.LossIncrease
import RtcCore.L2Send.SendTimeHistory
import RtcCore.L2Receive.FecDecoder
import RtcCore.L2Receive.FecPeeling
import RtcCore.L2Receive.FecOrder
import RtcCore.L2Receive.ReceiveStatistics
import RtcCore.L2Receive.RateStatistics
import RtcCore.L2Receive.TmmbrEnvelope
import RtcCore.L2Receive.TmmbrHelp
import RtcCore.L2Receive.AudioVector
import RtcCore.L2Receive.DtmfBuffer
import RtcCore.L2Receive.InterArrival
import RtcCore.L2Receive.NetEqPacket
import RtcCore.L2Receive.PacketBuffer
import RtcCore.L2Receive.PacketBufferOrder
import RtcCore.L2Receive.TimestampTranslation
import RtcCore.L2Receive.SplitRed
import RtcCore.L2Receive.SplitAudio
import RtcCore.L2Receive.InsertPacket
import RtcCore.L2Receive.TimestampScaling
import RtcCore.L2Receive.DelayManager
import RtcCore.L2Receive.DelayHistogram
import RtcCore.L2Receive.AudioNack
import RtcCore.L2Receive.AudioNackExact
import RtcCore.L2Stream.AsyncStunTcpSocket
import RtcCore.L2Stream.AsyncTcpSocket
import RtcCore.L2Stream.FifoBuffer
import RtcCore.L2Stream.FifoQueue
import RtcCore.L2Stream.MessageQueue
import RtcCore.L2Stream.MessageTimers
import RtcCore.L2Stream.PseudoTcp
import RtcCore.L2Stream.ReceiveWindow
import RtcCore.L2Stream.RingBuffer
import RtcCore.L3Video.Session
import RtcCore.L3Video.SessionBytes
import RtcCore.L3Video.SessionComplete
import RtcCore.L3Video.SessionRejects
import RtcCore.L3Video.Extraction
import RtcCore.L3Video.FrameBuffer
import RtcCore.L3Video.FrameMap
import RtcCore.L3Video.FrameSteps
import RtcCore.L3Video.FrameState
import RtcCore.L3Video.H264Assembly
import RtcCore.L3Video.FrameCapacity
import RtcCore.L3Video.MakeDecodable
import RtcCore.L3Video.Vp8Fragmentation
import RtcCore.L3Video.Vp8Transport
import RtcCore.L3Video.JitterBuffer
import RtcCore.L3Video.JitterPool
import RtcCore.L3Video.JitterPruning
import RtcCore.L3Video.JitterRecycling
import RtcCore.L3Video.JitterNack
import RtcCore.L3Video.TemporalLayers
import RtcCore.L3Video.DefaultTemporalLayers
import RtcCore.L4P2p.StunRequestManager
import RtcCore.L4P2p.TurnServer
import RtcCore.L4P2p.TurnAuthorization
import RtcCore.L4P2p.TurnCoverage
import RtcCore.L4P2p.TurnLifetime
import RtcCore.L4P2p.TurnConnections
import RtcCore.L4P2p.TurnChannels
import RtcCore.L4P2p.TurnNonce
import RtcCore.L4P2p.TurnPermission
import RtcCore.L4P2p.TurnReplies
import RtcCore.L4P2p.IceRole
import RtcCore.L4P2p.P2PTransportChannel
import RtcCore.L4P2p.PairPriority
import RtcCore.L4P2p.ConnectionTimers
import RtcCore.L4P2p.PortStunMessage
import RtcCore.L4P2p.ConnectionPruning
import RtcCore.L4P2p.ConnectionSwitching
