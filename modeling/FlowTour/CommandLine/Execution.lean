import FlowTour.CommandLine.Arguments
import FlowTour.Csv.Reader
import FlowTour.Csv.Writer
import FlowTour.Graph.Building
import FlowTour.MaximumFlow
import FlowTour.MinCostFlow.PrimalDual
import FlowTour.Weight.Float

/-!
Commands executed on the contents of files. Weights are doubles and keys are strings. What is to be
printed and written comes back as a value, so the outer layer only moves text.
-/

namespace FlowTour.CommandLine

inductive Fault where
  | inaccessible
  | table (fault : Csv.Fault)
  | unsolved (failure : Failure String Float)

/-- Lines to print, and a file to write after that. -/
structure Output where
  lines : List String
  file : Option (String × String)

/-- The contents of the files that can be opened. What opens but cannot be read, such as a directory,
is empty. -/
abbrev Files := String → Option String

def readTable {Entry : Type} (files : Files) (entry : Csv.Row → Except Csv.Fault Entry)
    (path : String) : Except Fault (List Entry) :=
  match files path with
  | none => .error .inaccessible
  | some text => (Csv.read entry text).mapError .table

def readGraph (files : Files) (path : String) : Except Fault (Graph String Float) := do
  let edges ← readTable files (fun row => do
    return (⟨← row.text "source", ← row.text "target", ← row.number "weight"⟩ : Edge String Float))
    path
  return Graph.ofEdges edges

/-- The last supply given for a node counts. -/
def readSupply (files : Files) (path : String) : Except Fault (KeyedWeights String Float) := do
  let entries ← readTable files (fun row => do
    return (← row.text "node", ← row.number "supply")) path
  return Std.TreeMap.ofList entries

def flowTable (flow : Graph String Float) : String :=
  Csv.write (["source", "target", "flow"] ::
    flow.edges.map fun edge => [edge.source, edge.target, Weight.display edge.weight])

/-- The flow goes to a file if one was named, and otherwise its non-zero edges are printed. -/
def flowOutput (summary : String) (flow : Graph String Float) : Option String → Output
  | some path => ⟨[summary], some (path, flowTable flow)⟩
  | none =>
      let carrying := flow.edges.filter fun edge => !(edge.weight == 0)
      ⟨summary :: carrying.map fun edge =>
        edge.source ++ " -> " ++ edge.target ++ ": " ++ Weight.display edge.weight, none⟩

def solved {Event Result : Type} (answer : Traced Event (Failure String Float) Result) :
    Except Fault Result :=
  answer.outcome.mapError .unsolved

def execute (files : Files) : Command → Except Fault Output
  | .maximumFlow edges start finish output => do
      let graph ← readGraph files edges
      let (value, flow) ← solved (graph.maximumFlow start finish)
      return flowOutput ("max flow: " ++ Weight.display value) flow output
  | .minimumCut edges start finish => do
      let graph ← readGraph files edges
      let cut ← solved (graph.minimumCut start finish)
      return ⟨cut.toList.map fun (source, target) => source ++ " -> " ++ target, none⟩
  | .minCostFlow edges supply capacity output => do
      let graph ← readGraph files edges
      let supply ← readSupply files supply
      let capacity ← capacity.mapM (readGraph files)
      let solution ← solved (MinCostFlow.primalDual graph supply capacity)
      return flowOutput ("min cost: " ++ Weight.display solution.cost) solution.flow output
  | .tour edges method budget => do
      let graph ← readGraph files edges
      let tour ← solved (match method with
        | .nearestNeighbor => Tour.greedy graph
        | .branchAndBound => Tour.branchAndBound graph budget)
      return ⟨["distance: " ++ Weight.display tour.distance, "optimal: " ++ toString tour.optimal,
        "tour: " ++ String.intercalate " -> " tour.nodes], none⟩

def Command.inputs : Command → List String
  | .maximumFlow edges _ _ _ => [edges]
  | .minimumCut edges _ _ => [edges]
  | .minCostFlow edges supply capacity _ => edges :: supply :: capacity.toList
  | .tour edges _ _ => [edges]

end FlowTour.CommandLine
