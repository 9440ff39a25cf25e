import FlowTour.Main
import FlowTour.MinCostFlow.Planned
import FlowTour.Proofs.MaximumFlow.Duality
import FlowTour.Proofs.MinCostFlow.Feasibility
import FlowTour.Proofs.MinCostFlow.Alternatives
import FlowTour.Proofs.MinCostFlow.Verdict
import FlowTour.Proofs.MinCostFlow.Loose
import FlowTour.Proofs.MinCostFlow.Exact
import FlowTour.Proofs.Tour.BranchAndBound
import FlowTour.Proofs.Tour.Budget
import FlowTour.Proofs.Tour.Recognition
import FlowTour.Proofs.Tour.Feasibility
import FlowTour.Proofs.Graph.Rearranged
import FlowTour.Proofs.Graph.Indexed
import FlowTour.Proofs.MaximumFlow.Overflow
import FlowTour.Proofs.MaximumFlow.SourceSide
import FlowTour.Proofs.MaximumFlow.Rearranged
import FlowTour.Proofs.MaximumFlow.Values
import FlowTour.Proofs.MaximumFlow.Augmentations
import FlowTour.Proofs.MaximumFlow.Verdict
import FlowTour.Proofs.MinCostFlow.Transfer
import FlowTour.Proofs.Graph.Distance
import FlowTour.Proofs.Tour.Answers
import FlowTour.Proofs.Tour.Improvement
import FlowTour.Proofs.MinCostFlow.Planned
import FlowTour.Proofs.MinCostFlow.Distances
import FlowTour.Proofs.Tour.DeadEnd
import FlowTour.Proofs.Tour.Additions
import FlowTour.Proofs.Tour.Consistency
import FlowTour.Proofs.Tour.BestFirst
import FlowTour.Proofs.Tour.Pushes
import FlowTour.Proofs.MinCostFlow.Iterations
import FlowTour.Proofs.Residual.Twins
import FlowTour.Proofs.Residual.Tracing
import FlowTour.Proofs.Graph.Rotation
import FlowTour.Proofs.Tour.Retelling
import FlowTour.Proofs.Graph.PathOutcome
import FlowTour.Proofs.Graph.Listing
import FlowTour.Proofs.CommandLine.FlowTable
