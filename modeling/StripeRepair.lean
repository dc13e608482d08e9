import StripeRepair.Lib.Run
import StripeRepair.Lib.BinaryField
import StripeRepair.Lib.LinearProgram
import StripeRepair.Ec.Computation
import StripeRepair.Ec.GenerateMatrix
import StripeRepair.Ec.ECDAG
import StripeRepair.Lib.Height
import StripeRepair.Lib.PushMap
import StripeRepair.Ec.WellFormed
import StripeRepair.Ec.Levels
import StripeRepair.Ec.FailureSet
import StripeRepair.Ec.RSCONV
import StripeRepair.Ec.HHXORPlus
import StripeRepair.Ec.HHXORPlusDecode
import StripeRepair.Common.Stripe
import StripeRepair.Common.TaskContents
import StripeRepair.Common.SendRecv
import StripeRepair.Common.Worker
import StripeRepair.Common.ReadBlock
import StripeRepair.Sol.BatchQueue
import StripeRepair.Common.QueueBalance
import StripeRepair.Common.Persist
import StripeRepair.Common.Network
import StripeRepair.Common.RepairRun
import StripeRepair.Common.RepairLive
import StripeRepair.Lib.Script
import StripeRepair.Lib.Choreography
import StripeRepair.Lib.StraightLine
import StripeRepair.Common.Coordinator
import StripeRepair.Common.Cluster
import StripeRepair.Common.StripeThreads
import StripeRepair.Common.ClusterRun
import StripeRepair.Ec.Representation
import StripeRepair.Common.Traffic
import StripeRepair.Dist.PRSolution
import StripeRepair.Sim.RepairScheduler
import StripeRepair.Sim.TraceDriven
import StripeRepair.Sim.MLPredictor
import StripeRepair.Sol.Batches
import StripeRepair.Common.RepairDag
import StripeRepair.Ec.TopoIdxs
import StripeRepair.Sol.ChooseColor
import StripeRepair.Sol.Prepare
import StripeRepair.Sol.Coloring
import StripeRepair.Sim.RepairCost
import StripeRepair.Ec.BUTTERFLY
import StripeRepair.Lib.Butterfly
import StripeRepair.Ec.BUTTERFLYEncode
import StripeRepair.Ec.BUTTERFLYDecode
import StripeRepair.Lib.Digits
import StripeRepair.Ec.Clay
import StripeRepair.Ec.ClayIds
import StripeRepair.Ec.ClayGrid
import StripeRepair.Ec.ClayJoins
import StripeRepair.Ec.ClayColumn
import StripeRepair.Ec.ClayRepair
import StripeRepair.Ec.ClayRealIds
import StripeRepair.Ec.ClayLayered
import StripeRepair.Sol.RepairBatch
import StripeRepair.Lib.IntMap
import StripeRepair.Sol.Recolour
import StripeRepair.Sol.ChangeColor
import StripeRepair.Lib.Reads
import StripeRepair.Sol.EvaluateChange
import StripeRepair.Common.Refresh
import StripeRepair.Lib.BestSoFar
import StripeRepair.Sol.Annealing
import StripeRepair.Sol.LoadTable
import StripeRepair.Sol.TrialBatches
import StripeRepair.Sol.GroupPreview
import StripeRepair.Ec.RDP
import StripeRepair.Ec.RDPDecode
import StripeRepair.Ec.RSPIPE
import StripeRepair.Ec.RSPIPEDecode
import StripeRepair.Common.QueueKeys
import StripeRepair.Sol.LeastColor
import StripeRepair.Lib.GrowBuffer
import StripeRepair.Lib.Decoder
import StripeRepair.Common.Command
import StripeRepair.Common.CommandRoundTrip
import StripeRepair.Sol.GreedyPacking
import StripeRepair.Sol.CentColoring
import StripeRepair.Sol.OfflineColoring
import StripeRepair.Ec.ClayIdSpace
import StripeRepair.Common.IdSpaces
import StripeRepair.Dist.Solution
import StripeRepair.Lib.Links
import StripeRepair.Lib.Pareto
import StripeRepair.Dist.TradeoffWalk
import StripeRepair.Dist.TradeoffCurve
import StripeRepair.Dist.TradeoffSearch
import StripeRepair.Dist.GenMLP
import StripeRepair.Dist.ParetoMerge
import StripeRepair.Dist.ParetoSearch
import StripeRepair.Dist.NewgenMLP
import StripeRepair.Sim.StripeRisk
import StripeRepair.Sim.RiskRepair
import StripeRepair.Sol.Hungary
import StripeRepair.Sol.IfInsert
import StripeRepair.Sol.LocalSearch
import StripeRepair.Sol.GreedyReplacement
import StripeRepair.Ec.BUTTERFLYRows
import StripeRepair.Sol.FindRepairBatchs
import StripeRepair.Sol.BatchPartition
import StripeRepair.Lib.LinearCode
import StripeRepair.Ec.ClayCodeword
import StripeRepair.Ec.ClayDecode
import StripeRepair.Common.AnyColoring
import StripeRepair.Common.CodeLayers
import StripeRepair.Common.Layers
