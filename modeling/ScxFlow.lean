import ScxFlow.Proofs.EnqueueLedger
import ScxFlow.Proofs.Bypass
import ScxFlow.Proofs.MissHistory
import ScxFlow.Proofs.PassContract
import ScxFlow.Proofs.Admission
import ScxFlow.Proofs.Stranded
import ScxFlow.Proofs.RunClaim
import ScxFlow.Proofs.Minimum
import ScxFlow.Proofs.Conservation
import ScxFlow.Proofs.Shortcut
import ScxFlow.Proofs.TierOrder
import ScxFlow.Proofs.Rejoin
import ScxFlow.Proofs.Preempt
import ScxFlow.Proofs.StealCover
import ScxFlow.Proofs.Routing
import ScxFlow.Proofs.TaskRanges
import ScxFlow.Proofs.HintCache
import ScxFlow.Proofs.HintWeight
import ScxFlow.Proofs.Counters
import ScxFlow.Proofs.FirstKey
import ScxFlow.Proofs.Leftover
import ScxFlow.Proofs.Converges
import ScxFlow.Proofs.Controller
import ScxFlow.Proofs.RedExact
import ScxFlow.Proofs.FairShare
import ScxFlow.Proofs.SelectOrder
import ScxFlow.Proofs.Slower
import ScxFlow.Proofs.Placement
import ScxFlow.Proofs.OneVerdict
import ScxFlow.Proofs.CpuListParse
import ScxFlow.Proofs.Custody
import ScxFlow.Proofs.QueueOrder
import ScxFlow.Proofs.Progress
import ScxFlow.Proofs.Discovery
import ScxFlow.Proofs.Program
import ScxFlow.Proofs.MinCell
import ScxFlow.Proofs.Gauge
import ScxFlow.Proofs.Journey
import ScxFlow.Proofs.Tells
import ScxFlow.Proofs.Runtime
import ScxFlow.Proofs.Overload
import ScxFlow.Proofs.Virtual
import ScxFlow.Proofs.Backlog
import ScxFlow.Proofs.TierWait
import ScxFlow.Proofs.Overtake
import ScxFlow.Proofs.LedgerCell
