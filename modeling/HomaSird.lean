import HomaSird.Applications.PaperWorkload
import HomaSird.Core.HeapScheduler
import HomaSird.Core.SimulatorOrder
import HomaSird.Data.DoubleRounding
import HomaSird.Homa.AtMostOnce
import HomaSird.Homa.CreditBound
import HomaSird.Homa.CreditExposure
import HomaSird.Homa.GreedyGrants
import HomaSird.Homa.HeaderWire
import HomaSird.Homa.HomaSocket
import HomaSird.Homa.Integrity
import HomaSird.Homa.LoopRuns
import HomaSird.Homa.MemoryModes
import HomaSird.Homa.MsgIds
import HomaSird.Homa.PathRttSamples
import HomaSird.Homa.RemainingBytes
import HomaSird.Homa.ResendReply
import HomaSird.Homa.SrrOrder
import HomaSird.Homa.Stalled
import HomaSird.Homa.TxPacing
import HomaSird.Homa.TxQueueDrain
import HomaSird.Homa.Window
import HomaSird.Internet.ArpRuns
import HomaSird.Internet.Checksums
import HomaSird.Internet.DemuxLookup
import HomaSird.Internet.DemuxSimpleLookup
import HomaSird.Internet.FragmentTimeouts
import HomaSird.Internet.GlobalRouteManager
import HomaSird.Internet.Ipv4AddressGenerator
import HomaSird.Internet.Ipv4StaticRouting
import HomaSird.Internet.Ipv6FragmentChain
import HomaSird.Internet.Ipv6LocalDeliver
import HomaSird.Internet.Ipv6OptionHeader
import HomaSird.Internet.Ipv6OptionLoop
import HomaSird.Internet.Ipv6SendRealOut
import HomaSird.Internet.RipTable
import HomaSird.Network.ByteTagAgreement
import HomaSird.Network.DataRate
import HomaSird.Network.NixVector
import HomaSird.Network.DynamicQueueLimits
import HomaSird.Network.TagListPersistence
import HomaSird.Scripts.Lab2Credits
import HomaSird.Scripts.MsgTrace
import HomaSird.Scripts.Sim1Plot
import HomaSird.Tcp.RxLimit
import HomaSird.Tcp.RxSack
import HomaSird.Tcp.RxStream
import HomaSird.Tcp.SerialArithmetic
import HomaSird.Tcp.TcpHeaderRoundTrip
import HomaSird.Tcp.TcpOptionLoop
import HomaSird.Tcp.TcpPrrRecovery
import HomaSird.Tcp.TxInFlight
import HomaSird.Tcp.TxNextSeg
import HomaSird.TrafficControl.CoDelClock
import HomaSird.TrafficControl.FqCoDelFairness
import HomaSird.TrafficControl.QueueDiscDelivery
import HomaSird.TrafficControl.QueueDiscStats
import HomaSird.TrafficControl.SirdQueueDisc
import HomaSird.TrafficControl.TbfWatchdog
import HomaSird.Wifi.OriginatorBlockAckAgreement
import HomaSird.Wifi.RecipientRun
