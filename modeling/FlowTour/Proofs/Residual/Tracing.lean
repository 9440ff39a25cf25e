import FlowTour.Proofs.MinCostFlow.Settling

/-!
Paths traced back from what a search has found. Going back along parent arcs ends where the search
began and visits no node twice, whatever the weights are and however they compare, since parents are
marked or settled before their children. A breadth-first search marks what routes lead to, and the
path traced back from its target has the fewest arcs.
-/

namespace FlowTour.Residual

variable {n m : Nat} {W : Type} [Weight W]

/-- Whatever the weights are, a breadth-first search can be traced back from every node that it has marked,
and a search for shortest paths that answers has nothing left to do and can be traced back from every node
that it has settled. -/
theorem searches_trace_back (network : Residual n m W) :
    (∀ start target node, ((network.breadthFirst start target).get node).isSeen = true →
      TracesBack network (fun other => ((network.breadthFirst start target).get other).arc?) start
        node) ∧
    ∀ potential source sink labels,
      MinCostFlow.shortestPaths network potential source sink = some labels →
        (∃ offers, MinCostFlow.explore network potential sink ⟨labels, offers⟩ = some none) ∧
        ∀ node, MinCostFlow.isSettled labels node = true →
          TracesBack network (fun other => (labels.get other).bind MinCostFlow.Label.parent) source
            node := by
  refine ⟨fun _ _ _ => network.traces_back_of_is_seen, ?_⟩
  intro potential source sink labels searched
  obtain ⟨rank, clock, offers, -, ended⟩ := MinCostFlow.shortest_paths_settling searched
  exact ⟨⟨offers, ended⟩, fun node => MinCostFlow.traces_back_of_is_settled searched⟩

/-- The integers and one more weight, which compares with nothing, itself included, the way floating-point
types have one. Whatever is computed from it is that weight again. -/
inductive Clouded where
  | clear (value : Int)
  | cloud
  deriving DecidableEq

namespace Clouded

def combine (operation : Int → Int → Int) : Clouded → Clouded → Clouded
  | clear left, clear right => clear (operation left right)
  | _, _ => cloud

def compares (test : Int → Int → Bool) : Clouded → Clouded → Bool
  | clear left, clear right => test left right
  | _, _ => false

instance : Weight Clouded where
  zero := clear 0
  add := combine (· + ·)
  sub := combine (· - ·)
  neg := combine (· - ·) (clear 0)
  lt left right := compares (· < ·) left right = true
  le left right := compares (· ≤ ·) left right = true
  beq := compares (· == ·)
  decidableLT _ _ := inferInstanceAs (Decidable (_ = true))
  decidableLE _ _ := inferInstanceAs (Decidable (_ = true))
  tryAdd left right := some (combine (· + ·) left right)
  trySub left right := some (combine (· - ·) left right)
  tryMul left right := some (combine (· * ·) left right)
  neutral := clear 0
  isNegligible weight _ := compares (· == ·) weight (clear 0)
  display
    | clear value => value.repr
    | cloud => "cloud"
  rank
    | clear value => value.toNat
    | cloud => 0

end Clouded

/-- The offer of node 3 comes to lie below a clouded one and is taken too late, so node 2 is settled from
node 0 although it is nearer by way of node 3. -/
def overcast : Residual 7 7 Clouded :=
  Residual.ofLinks #v[⟨0, 2, some (.clear 1), .clear 5⟩, ⟨0, 1, none, .cloud⟩,
    ⟨0, 4, some (.clear 1), .clear 6⟩, ⟨0, 3, some (.clear 2), .clear 1⟩,
    ⟨3, 2, some (.clear 1), .clear 1⟩, ⟨2, 5, none, .clear 0⟩, ⟨5, 6, some .cloud, .clear 0⟩]

theorem searches_trace_back_overcast :
    (∃ labels, MinCostFlow.shortestPaths overcast (Vector.replicate 7 0) 0 5 = some labels ∧
      overcast.tracePath (fun other => (labels.get other).bind MinCostFlow.Label.parent) 5 =
        [⟨0, false⟩, ⟨5, false⟩] ∧
      TracesBack overcast (fun other => (labels.get other).bind MinCostFlow.Label.parent) 0 5) ∧
    ((overcast.breadthFirst 0 none).get 5).isSeen = true ∧
      TracesBack overcast (fun other => ((overcast.breadthFirst 0 none).get other).arc?) 0 5 := by
  obtain ⟨marked, settled⟩ := searches_trace_back overcast
  have seen : ((overcast.breadthFirst 0 none).get 5).isSeen = true := by decide +kernel
  refine ⟨?_, seen, marked 0 none 5 seen⟩
  have computed : (MinCostFlow.shortestPaths overcast (Vector.replicate 7 0) 0 5).any (fun labels =>
      MinCostFlow.isSettled labels 5 ∧
        overcast.tracePath (fun other => (labels.get other).bind MinCostFlow.Label.parent) 5 =
          [⟨0, false⟩, ⟨5, false⟩]) = true := by
    decide +kernel
  obtain ⟨labels, searched, test⟩ := (Option.any_eq_true _ _).mp computed
  obtain ⟨atSink, path⟩ := of_decide_eq_true test
  exact ⟨labels, searched, path, (settled _ 0 5 labels searched).2 5 atSink⟩

/-- Without a target, a breadth-first search marks just what can be reached; with one, it marks the target
if that can be reached, and no route there is shorter than the path traced back from it. -/
theorem breadth_first_finds_fewest (network : Residual n m W) (start : Fin n) :
    (∀ node, ((network.breadthFirst start none).get node).isSeen = true ↔
      network.Reaches start node) ∧
    ∀ target,
      let marks := network.breadthFirst start (some target)
      let path := network.tracePath (fun node => (marks.get node).arc?) target
      ((marks.get target).isSeen = true ↔ network.Reaches start target) ∧
        ((marks.get target).isSeen = true →
          Retraced network (fun node => (marks.get node).arc?) start path target ∧
            network.Route path start target ∧
              ∀ other, network.Route other start target → path.length ≤ other.length) := by
  refine ⟨network.breadth_first_is_seen_iff start, ?_⟩
  intro target marks path
  have traces : (marks.get target).isSeen = true →
      TracesBack network (fun node => (marks.get node).arc?) start target :=
    network.traces_back_of_is_seen
  refine ⟨⟨fun seen => ⟨path, (traces seen).route⟩, ?_⟩, fun seen => ?_⟩
  · rintro ⟨other, route⟩
    exact (network.breadth_first_of_route route).1
  · refine ⟨(traces seen).retraced, (traces seen).route, fun other route => ?_⟩
    exact (network.breadth_first_of_route route).2

theorem breadth_first_finds_fewest_overcast :
    ((overcast.breadthFirst 0 (some 5)).get 5).isSeen = true ∧
      overcast.Route [⟨0, false⟩, ⟨5, false⟩] 0 5 ∧
        (∀ other, overcast.Route other 0 5 → 2 ≤ other.length) ∧ ¬overcast.Reaches 0 6 := by
  obtain ⟨reached, aimed⟩ := breadth_first_finds_fewest overcast 0
  have seen : ((overcast.breadthFirst 0 (some 5)).get 5).isSeen = true := by decide +kernel
  have path : overcast.tracePath
      (fun node => ((overcast.breadthFirst 0 (some 5)).get node).arc?) 5 =
        [⟨0, false⟩, ⟨5, false⟩] := by
    decide +kernel
  have unseen : ((overcast.breadthFirst 0 none).get 6).isSeen = false := by decide +kernel
  obtain ⟨-, route, fewest⟩ := (aimed 5).2 seen
  rw [path] at route fewest
  refine ⟨seen, route, fewest, fun reaches => ?_⟩
  rw [(reached 6).mpr reaches] at unseen
  cases unseen

end FlowTour.Residual
