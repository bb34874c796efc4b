import Ocudu.Rlc.StatusHandover
import Ocudu.Pdcp.RxReordering
import Ocudu.Pdcp.StatusReport
import Ocudu.Pdcp.TxStale
import Ocudu.Sched.HarqTimeout
import Ocudu.Rlc.UmEndToEnd
import Ocudu.Mac.RlfDetector
import Ocudu.Mac.SibPduAssembler
import Ocudu.Mac.HarqBufferPool
import Ocudu.Mac.UlSchDecode
import Ocudu.Sched.HarqReuse
import Ocudu.F1u.Discard
import Ocudu.F1u.DuBearer
import Ocudu.Sched.DlBoManager
import Ocudu.Sched.UeRepository
import Ocudu.Sched.TaWindow
import Ocudu.Sched.UciRun
import Ocudu.Sched.PucchCollisionRun
import Ocudu.Asn1.ExtGroupsResync
import Ocudu.Nru.NruCodec
import Ocudu.Gtpu.GtpuCodec
import Ocudu.Gtpu.NguRxReordering
import Ocudu.Support.ByteBufferRun
import Ocudu.Ofh.UplaneDecoderRun
import Ocudu.CuCp.DrbAllocation
import Ocudu.E2.KpmUeRecords
import Ocudu.E2.RicControlOutcome
import Ocudu.Du.PucchManager
import Ocudu.Rlc.RxReassemblyTimer
import Ocudu.Rlc.TxPollCount
import Ocudu.Rlc.TxRetx
import Ocudu.Rlc.StatusTrim
import Ocudu.Rlc.SegmentReassembly
import Ocudu.Phy.RxBufferPoolRun
import Ocudu.Phy.LdpcRateMatching
import Ocudu.Pdcp.CountAgreement
import Ocudu.Sched.LogicalChannelTracking
import Ocudu.Sched.ResourceGridViews
import Ocudu.Sched.SlicePriority
import Ocudu.Rlc.RxUmTimer
import Ocudu.Pdcp.TxDiscardTiming
import Ocudu.Rlc.StatusRepeat
import Ocudu.Asn1.RealExact
import Ocudu.Ofh.BfpExact
import Ocudu.E2.SubscriptionExact
import Ocudu.Adt.ContainerRuns
import Ocudu.Ran.Part2Size
