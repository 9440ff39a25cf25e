import FlowTour.CommandLine.Execution
import FlowTour.Proofs.Csv.RoundTrip

/-!
The file that a flow is written to. Its first record names the columns, and one record follows for each
edge, in the order of the edges. Whatever the nodes are called, the table reads back as just these
records, and its entries as the edges, wherever the text of an amount reads as the amount.
-/

namespace FlowTour.CommandLine

def flowHeader : List String := ["source", "target", "flow"]

def flowRow (edge : Edge String Float) : List String :=
  [edge.source, edge.target, Weight.display edge.weight]

def readEdge (column : String) (row : Csv.Row) : Except Csv.Fault (Edge String Float) := do
  return ⟨← row.text "source", ← row.text "target", ← row.number column⟩

theorem records_flow_table (flow : Graph String Float) :
    Csv.records (flowTable flow) = flowHeader :: flow.edges.map flowRow := by
  have filled : [] ∉ flowHeader :: flow.edges.map flowRow := by
    simp [flowHeader, flowRow]
  have first : (flowTable flow).toList.head? = some 's' := by
    rw [flowTable, Csv.write, String.toList_ofList]
    rfl
  have unmarked : (flowTable flow).toList.head? ≠ some '\ufeff' := by
    rw [first]
    decide
  exact Csv.records_write filled unmarked

theorem read_edge_flow_row {edge : Edge String Float}
    (reads : Decimal.readDouble? (Weight.display edge.weight) = some edge.weight) :
    readEdge "flow" ⟨flowHeader, flowRow edge⟩ = .ok edge := by
  have source : Csv.Row.text ⟨flowHeader, flowRow edge⟩ "source" = .ok edge.source := rfl
  have target : Csv.Row.text ⟨flowHeader, flowRow edge⟩ "target" = .ok edge.target := rfl
  have text : Csv.Row.text ⟨flowHeader, flowRow edge⟩ "flow" = .ok (Weight.display edge.weight) :=
    rfl
  have amount : Csv.Row.number ⟨flowHeader, flowRow edge⟩ "flow" = .ok edge.weight := by
    simp only [Csv.Row.number, text, bind, Except.bind, reads]
  simp only [readEdge, source, target, amount, bind, Except.bind, pure, Except.pure]

theorem read_flow_table {flow : Graph String Float}
    (reads : ∀ edge ∈ flow.edges,
      Decimal.readDouble? (Weight.display edge.weight) = some edge.weight) :
    Csv.read (readEdge "flow") (flowTable flow) = .ok flow.edges := by
  rw [Csv.read, records_flow_table]
  dsimp only
  generalize flow.edges = edges at reads
  induction edges with
  | nil => rfl
  | cons edge rest induction =>
      obtain ⟨here, later⟩ := List.forall_mem_cons.mp reads
      have full : (flowRow edge).length = flowHeader.length := rfl
      rw [List.map_cons, List.mapM_cons, if_pos full, read_edge_flow_row here, induction later]
      rfl

theorem read_graph_eq (files : Files) (path : String) :
    readGraph files path = (readTable files (readEdge "weight") path).map Graph.ofEdges := by
  change (readTable files (readEdge "weight") path >>= fun edges => pure (Graph.ofEdges edges)) = _
  cases readTable files (readEdge "weight") path <;> rfl

/-- The file named for a flow holds a header and one record for each edge in order, and its entries read
back as the edges, by the same rules that read a graph's edges from a file. -/
theorem flow_output_reads_back (summary path : String) (flow : Graph String Float) :
    (∀ files source, readGraph files source =
      (readTable files (readEdge "weight") source).map Graph.ofEdges) ∧
    ∃ text, (flowOutput summary flow (some path)).file = some (path, text) ∧
      Csv.records text = ["source", "target", "flow"] :: flow.edges.map (fun edge =>
        [edge.source, edge.target, Weight.display edge.weight]) ∧
      ((∀ edge ∈ flow.edges, Decimal.readDouble? (Weight.display edge.weight) = some edge.weight) →
        ∀ files : Files, files path = some text →
          readTable files (readEdge "flow") path = .ok flow.edges) := by
  refine ⟨read_graph_eq, flowTable flow, rfl, records_flow_table flow, ?_⟩
  intro reads files written
  rw [readTable, written]
  exact congrArg (Except.mapError Fault.table) (read_flow_table reads)

theorem flow_output_reads_back_awkward :
    let flow : Graph String Float := Graph.ofEdges
      [⟨"", "a,b", 2.5⟩, ⟨"a,b", " \"c\" ", 0.1⟩, ⟨" \"c\" ", "d\r\ne\r", 0.0⟩,
        ⟨"d\r\ne\r", "é", 1e21⟩]
    ∃ text, (flowOutput "max flow: 2.5" flow (some "flow.csv")).file = some ("flow.csv", text) ∧
      flow.edges.length = 4 ∧
      readTable (fun _ => some text) (readEdge "flow") "flow.csv" = .ok flow.edges := by
  intro flow
  obtain ⟨-, text, file, -, reads⟩ := flow_output_reads_back "max flow: 2.5" "flow.csv" flow
  exact ⟨text, file, by decide +kernel, reads (by decide +kernel) _ rfl⟩

end FlowTour.CommandLine
