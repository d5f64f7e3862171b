import Paraxiom.ForStd.Scale
import Paraxiom.ForStd.Transactional
import Paraxiom.ForStd.KvStore
import Paraxiom.ForStd.BoundedFifo
import Paraxiom.ForStd.Tiling
import Paraxiom.ForStd.OrderStatistic
import Paraxiom.ForStd.QuorumLog
import Paraxiom.ForStd.Unwinding
import Paraxiom.ForStd.ProgramLoader
import Paraxiom.ForStd.BoundedList
import Paraxiom.ForStd.BudgetedRemoval
import Paraxiom.ForStd.ReservableCurrency
import Paraxiom.Pallets.Frame
import Paraxiom.Pallets.Anchor
import Paraxiom.Pallets.Registry
import Paraxiom.Pallets.Oracle
import Paraxiom.Pallets.Runtime
import Paraxiom.Pallets.ParaOracle
import Paraxiom.Pallets.ParaOracleWorker
import Paraxiom.Pallets.XcmConfig
import Paraxiom.Pallets.CollatorSelection
import Paraxiom.Primitives.ParachainInherent
import Paraxiom.Primitives.AssetTrader
import Paraxiom.Phat.OracleFeed
import Paraxiom.Phat.RollupSetup
import Paraxiom.Spec.AnchorSteps
import Paraxiom.Spec.NameIsolation
import Paraxiom.Spec.Serializable
import Paraxiom.Spec.QueueRefinement
import Paraxiom.Spec.PushRollupCommute
import Paraxiom.Spec.QueueWorkers
import Paraxiom.Spec.QueuePanic
import Paraxiom.Spec.OracleSteps
import Paraxiom.Spec.RequestIds
import Paraxiom.Spec.RequestRedirection
import Paraxiom.Spec.OracleProvenance
import Paraxiom.Spec.OracleAnswers
import Paraxiom.Spec.ResponseDelivery
import Paraxiom.Spec.QueueHandoff
import Paraxiom.Spec.FeedLifecycle
import Paraxiom.Spec.ParaOracleSteps
import Paraxiom.Spec.MedianRobust
import Paraxiom.Spec.QuorumMedian
import Paraxiom.Spec.OneFeedPerBlock
import Paraxiom.Spec.ParaOracleStorage
import Paraxiom.Spec.OracleStrangers
import Paraxiom.Spec.FeedsCommute
import Paraxiom.Spec.WorkerFailures
import Paraxiom.Spec.WorkerSources
import Paraxiom.Spec.XcmBarrier
import Paraxiom.Spec.CollatorSteps
import Paraxiom.Spec.CollatorKick
import Paraxiom.Spec.CollatorSets
import Paraxiom.Spec.CollatorFunds
import Paraxiom.Spec.CollatorActivity
import Paraxiom.ForStd.HashChain
import Paraxiom.ForStd.Reordering
import Paraxiom.Spec.BlockOrder
import Paraxiom.Spec.QueryAnswers
import Paraxiom.Spec.SetupAgreement
import Paraxiom.Spec.MessageQueues
import Paraxiom.Spec.AssetTrader
import Paraxiom.ForStd.EventLog
import Paraxiom.Spec.EventReplay
