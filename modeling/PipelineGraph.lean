import PipelineGraph.Graph.Dump
import PipelineGraph.Graph.Reachability
import PipelineGraph.Main
import PipelineGraph.Proofs.Script.DataFlow
import PipelineGraph.Proofs.Graph.Adjacency
import PipelineGraph.Proofs.Graph.Placing
import PipelineGraph.Proofs.Graph.TopologicalOrder
import PipelineGraph.Proofs.Script.Naming
import PipelineGraph.Proofs.Script.Reading
import PipelineGraph.Proofs.Script.Variables
import PipelineGraph.Proofs.Graph.CycleSearch
import PipelineGraph.Proofs.Simulation.Futures
import PipelineGraph.Proofs.Simulation.Soundness
import PipelineGraph.Proofs.Simulation.Turns
import PipelineGraph.Proofs.Simulation.VisitTree
import PipelineGraph.Proofs.Simulation.Waiting
import PipelineGraph.Proofs.Simulation.Orderly
import PipelineGraph.Proofs.Simulation.Endings
import PipelineGraph.Proofs.Simulation.Outcome
import PipelineGraph.Proofs.Simulation.Loads
import PipelineGraph.Proofs.Simulation.Progress
import PipelineGraph.Proofs.Simulation.Lockstep
import PipelineGraph.Proofs.Simulation.Records
import PipelineGraph.Proofs.Simulation.Course
import PipelineGraph.Proofs.Simulation.Verdicts
import PipelineGraph.Proofs.Graph.CycleLoop
import PipelineGraph.Proofs.Simulation.ToldEvents
import PipelineGraph.Proofs.Simulation.Paths
import PipelineGraph.Proofs.Simulation.Fitting
import PipelineGraph.Proofs.Simulation.Requests
import PipelineGraph.Proofs.Simulation.Brackets
import PipelineGraph.Proofs.Simulation.ListenerFailures
import PipelineGraph.Proofs.Simulation.GrantedCancellations
import PipelineGraph.Proofs.Graph.DocumentReload
import PipelineGraph.Proofs.Script.Header
import PipelineGraph.Proofs.Script.Confinement
import PipelineGraph.Proofs.Script.Freshness
import PipelineGraph.Proofs.Simulation.History
import PipelineGraph.Proofs.Simulation.Rejection
import PipelineGraph.Proofs.Simulation.Dangling
import PipelineGraph.Proofs.Simulation.Levels
import PipelineGraph.Proofs.Graph.Downstream
import PipelineGraph.Proofs.Graph.BreadthFirst
import PipelineGraph.Proofs.Graph.Shapes
import PipelineGraph.Proofs.Settings.Counts
import PipelineGraph.Proofs.Settings.Usability
import PipelineGraph.Proofs.Script.Returning
import PipelineGraph.Proofs.Simulation.Arrivals
import PipelineGraph.Proofs.CommandLine.Exits
import PipelineGraph.Proofs.Number.Integers
import PipelineGraph.Proofs.Script.Imports
import PipelineGraph.Proofs.CommandLine.Splitting
import PipelineGraph.Proofs.Graph.Tables
import PipelineGraph.Proofs.Settings.Reports
import PipelineGraph.Proofs.Script.NameSearch
