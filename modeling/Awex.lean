import Awex.AcceptedMeta
import Awex.Barrier
import Awex.BarrierClients
import Awex.ChunkClones
import Awex.ClientRetries
import Awex.ExpertAgreement
import Awex.FilteredConversion
import Awex.FusedPasses
import Awex.GroupViews
import Awex.LayerRenaming
import Awex.MemoryOccupation
import Awex.OneByOne
import Awex.OneByOneTransfer
import Awex.PartitionDeadlock
import Awex.PipelineAgreement
import Awex.PlainOrder
import Awex.PlanAgreement
import Awex.Pruning
import Awex.QkvRows
import Awex.RankSpace
import Awex.ShardOrder
import Awex.ShardingDispatch
import Awex.StartedUpdates
import Awex.SyncedWeights
import Awex.TwoPhaseDeadlock
import Awex.UnfusedParams
import Awex.UpdateCompletion
import Awex.ValidatedUpdates
import Awex.ValidationSchedule
import Awex.WireSizes
import Awex.WriterNames
