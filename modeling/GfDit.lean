import GfDit.Lib.Dict
import GfDit.Lib.Numerals
import GfDit.Lib.Objects
import GfDit.Lib.Box
import GfDit.Lib.Forall2
import GfDit.Lib.Except
import GfDit.Lib.Unique
import GfDit.Lib.Chains
import GfDit.Lib.Radix
import GfDit.Parallel.RankGenerator
import GfDit.Parallel.RankGroups
import GfDit.Parallel.GroupSession
import GfDit.Parallel.SessionGeometry
import GfDit.Lib.Turns
import GfDit.Lib.Rendezvous
import GfDit.Protocol
import GfDit.Layout
import GfDit.Engine.Basic
import GfDit.Engine.Steps
import GfDit.Engine.Order
import GfDit.Engine.Exclusive
import GfDit.Engine.Handshake
import GfDit.DataPlane.Schedule
import GfDit.DataPlane.ScheduleLaws
import GfDit.DataPlane.Execute
import GfDit.DataPlane.Placement
import GfDit.DataPlane.Transfer
import GfDit.DataPlane.FieldEdges
import GfDit.DataPlane.Reshard
import GfDit.DataPlane.Coverage
import GfDit.Lib.Collective
import GfDit.DataPlane.ShardGather
import GfDit.DataPlane.JoinShards
import GfDit.DataPlane.ShardRuns
import GfDit.DataPlane.ShardRoundTrip
import GfDit.DataPlane.ShardAgreement
import GfDit.Lib.Prog
import GfDit.Lib.Agenda
import GfDit.Tasks
import GfDit.Topology
import GfDit.Lib.Counter
import GfDit.Policies.Accounts
import GfDit.Policies.Ledger
import GfDit.Policies.DynamicStepFcfs
import GfDit.Lib.Roster
import GfDit.Lib.Firsts
import GfDit.Policies.Disaggregate
import GfDit.Policies.EdfGreedy
import GfDit.Policies.EdfBestFit
import GfDit.Policies.WaveStress
import GfDit.Policies.FcfsBooks
import GfDit.Policies.WaveBooks
import GfDit.Policies.EdfBooks
import GfDit.Policies.EdfGroups
import GfDit.Policies.EdfGrants
import GfDit.Policies.EdfFit
import GfDit.Policies.Exclusion
import GfDit.Policies.EdfDemand
import GfDit.Policies.EdfTurns
import GfDit.Policies.DisaggregateBooks
import GfDit.Policies.GroupExclusion
import GfDit.Lib.Backlog
import GfDit.Policies.Work
import GfDit.Policies.Fcfs
import GfDit.Policies.Srtf
import GfDit.Policies.WorkBooks
import GfDit.Policies.Binding
import GfDit.Policies.Backlogs
import GfDit.Policies.FcfsTurns
import GfDit.Policies.SrtfQueues
import GfDit.Policies.SrtfRuns
import GfDit.Policies.SrtfPicks
import GfDit.Policies.SjfTurns
import GfDit.Lib.Table
import GfDit.Adapters.Common
import GfDit.Adapters.Names
import GfDit.Adapters.ChunkedPlan
import GfDit.Adapters.PlanChain
import GfDit.Adapters.Sampling
import GfDit.Adapters.UniformPlan
import GfDit.Adapters.Wan
import GfDit.Adapters.QwenImage
import GfDit.Adapters.EveryStep
import GfDit.Adapters.DeclaredLayouts
import GfDit.Adapters.WanLayouts
import GfDit.Adapters.QwenLayouts
import GfDit.Adapters.StepSegments
import GfDit.Adapters.CfgParallel
import GfDit.Adapters.CfgLockstep
import GfDit.Adapters.StateMetadata
import GfDit.Adapters.MetadataTrip
import GfDit.Adapters.ReshardLayouts
import GfDit.Pool.Aggregate
import GfDit.Pool.Commands
import GfDit.Pool.Fetch
import GfDit.Scheduler.Basic
import GfDit.Scheduler.Code
import GfDit.Scheduler.Machine
import GfDit.Scheduler.Simulation
import GfDit.Scheduler.Runs
import GfDit.Lib.History
import GfDit.Scheduler.Finish
import GfDit.Scheduler.Status
import GfDit.Scheduler.Reports
import GfDit.Scheduler.Held
import GfDit.Scheduler.Balance
import GfDit.Scheduler.Links
import GfDit.Scheduler.Refcounts
import GfDit.Scheduler.Dead
import GfDit.Simulator.LinearTasks
import GfDit.Simulator.GlobalIdle
import GfDit.Lib.BestTable
import GfDit.Lib.BestRow
import GfDit.Simulator.TetriShape
import GfDit.Simulator.ShapeLaws
import GfDit.Simulator.TetriRound
import GfDit.Simulator.RoundSearch
import GfDit.Simulator.RoundProgress
import GfDit.Simulator.TetriRanks
import GfDit.Simulator.RankLaws
import GfDit.Simulator.RoundPlacement
import GfDit.Simulator.Driver
import GfDit.Simulator.StepPreemptive
import GfDit.Simulator.RankDp
import GfDit.Simulator.PreemptiveTakes
import GfDit.Simulator.PreemptiveRuns
import GfDit.Simulator.NoStall
import GfDit.Simulator.SurvivalKnapsack
import GfDit.Simulator.GroupsOnDemand
import GfDit.Simulator.RequestQueues
import GfDit.Simulator.SimPlan
import GfDit.Simulator.Continuous
import GfDit.Simulator.ContinuousTarget
import GfDit.Simulator.PlanGraphs
import GfDit.Simulator.ContinuousTakes
import GfDit.Simulator.ContinuousRuns
import GfDit.FrontEnd.Basic
import GfDit.FrontEnd.Books
import GfDit.FrontEnd.Orderly
import GfDit.FrontEnd.Lifecycle
import GfDit.FrontEnd.Delivery
import GfDit.FrontEnd.Answers
import GfDit.FrontEnd.LostIds
import GfDit.FrontEnd.Order
import GfDit.FrontEnd.Thread
