import FlowTour.Proofs.MinCostFlow.Potentials

/-!
What paths cost. Along a path to a settled node the distances make up for the potentials, so the
distance of the node and its potential differ by the cost of the path. A simple path that begins with
an arc at no cost has too few others to cost more than the dearest link once for every node between the
terminals.
-/

namespace FlowTour.MinCostFlow

open IntegerWeight Table Residual

variable {n m : Nat} {W : Type} [IntegerWeight W] {network : Residual n m W} {path : List (Arc m)}
  {source sink origin node : Fin n} {dearest : Int}

/-- What it costs to send one unit along a path. -/
def pathCost (network : Residual n m W) (path : List (Arc m)) : Int :=
  (path.map fun arc => toInt (network.cost arc)).sum

theorem path_cost_cons (arc : Arc m) (rest : List (Arc m)) :
    pathCost network (arc :: rest) = toInt (network.cost arc) + pathCost network rest := by
  rw [pathCost, pathCost, List.map_cons, List.sum_cons]

theorem path_cost_eq_sub (height : Fin n → Int) (leads : network.Leads path origin node)
    (rises : ∀ arc ∈ path, height (network.head arc) =
      height (network.tail arc) + toInt (network.cost arc)) :
    pathCost network path = height node - height origin := by
  induction path generalizing origin with
  | nil =>
      obtain rfl : origin = node := leads
      rw [pathCost, List.map_nil, List.sum_nil, sub_self]
  | cons arc rest induction =>
      have here := rises arc (List.mem_cons_self ..)
      have later := induction leads.2 fun other member => rises other (List.mem_cons_of_mem _ member)
      rw [leads.1] at here
      rw [path_cost_cons, later]
      omega

theorem path_cost_le (each : ∀ arc, toInt (network.cost arc) ≤ dearest) :
    pathCost network path ≤ path.length * dearest := by
  have bound := List.sum_le_card_nsmul (path.map fun arc => toInt (network.cost arc)) dearest
  rw [List.length_map, nsmul_eq_mul] at bound
  apply bound
  intro cost member
  obtain ⟨arc, -, rfl⟩ := List.mem_map.mp member
  exact each arc

theorem link_cost_carriage (costs : ∀ index, 0 ≤ toInt (network.links.get index).cost)
    (path : List (Arc m)) :
    linkCost network.links (Arc.carriage path) = pathCost network path := by
  induction path with
  | nil => simp [linkCost, Arc.carriage, pathCost]
  | cons arc rest induction =>
      have step : ∑ index, toInt (network.links.get index).cost *
          (if arc.link = index then arc.sign else 0) = toInt (network.cost arc) := by
        rw [to_int_cost (costs arc.link), mul_comm]
        simp [Residual.link]
      rw [path_cost_cons, ← induction, ← step, linkCost, linkCost, ← Finset.sum_add_distrib]
      apply Finset.sum_congr rfl
      intro index _
      rw [Arc.carriage, mul_add]

theorem path_cost_le_of_free (each : ∀ arc, toInt (network.cost arc) ≤ dearest)
    (free : ∀ arc, network.tail arc = source → toInt (network.cost arc) = 0) {arc : Arc m}
    {rest : List (Arc m)} (leads : network.Leads (arc :: rest) source node) :
    pathCost network (arc :: rest) ≤ rest.length * dearest := by
  rw [path_cost_cons, free arc leads.1, zero_add]
  exact path_cost_le each

section Settled

variable {potential : Vector W n} {rank : Fin n → Nat} {clock : Nat} {waiting : List (Arc m)}
  {labels : Vector (Option (Label m W)) n} {distance : Int}

/-- The distance in the label of a node, zero where there is none. -/
def labelDistance (labels : Vector (Option (Label m W)) n) (node : Fin n) : Int :=
  ((labels.get node).map fun label => toInt label.distance).getD 0

theorem LabelledAt.label_distance_eq (labelled : LabelledAt labels node distance) :
    labelDistance labels node = distance := by
  obtain ⟨label, found, rfl⟩ := labelled
  rw [labelDistance, found, Option.map_some, Option.getD_some]

theorem Grown.path_cost_eq
    (grown : Grown network (reduced network (price potential)) source sink rank clock waiting labels)
    (start : LabelledAt labels source 0)
    (trace : Trace network (fun node => (labels.get node).bind Label.parent) source
      (fun node => isSettled labels node = true) rank path node)
    (settled : SettledAt labels node distance) :
    pathCost network path = distance - price potential node + price potential source := by
  have rises : ∀ arc ∈ path,
      labelDistance labels (network.head arc) - price potential (network.head arc) =
        labelDistance labels (network.tail arc) - price potential (network.tail arc) +
          toInt (network.cost arc) := by
    intro arc member
    obtain ⟨-, isParent⟩ := trace.parents arc member
    obtain ⟨label, found, parent⟩ := Option.bind_eq_some_iff.mp isParent
    obtain ⟨-, -, tailSettled, -⟩ := grown.parented _ label arc found parent
    have atHead : LabelledAt labels (network.head arc) (toInt label.distance) := ⟨label, found, rfl⟩
    rw [atHead.label_distance_eq, tailSettled.labelled_at.label_distance_eq, reduced]
    omega
  rw [path_cost_eq_sub (fun other => labelDistance labels other - price potential other) trace.leads
    rises, settled.labelled_at.label_distance_eq, start.label_distance_eq]
  omega

/-- As long as the sink is open, going on from a settled node along an arc costs no more than the
dearest link once for every node between the terminals. -/
theorem Grown.outlay_le
    (grown : Grown network (reduced network (price potential)) source sink rank clock waiting labels)
    (start : LabelledAt labels source 0) (sinkOpen : isSettled labels sink = false)
    (different : source ≠ sink) (sourcePrice : price potential source = 0)
    (each : ∀ arc, toInt (network.cost arc) ≤ dearest) (nonneg : 0 ≤ dearest)
    (free : ∀ arc, network.tail arc = source → toInt (network.cost arc) = 0) {arc : Arc m}
    (settled : SettledAt labels (network.tail arc) distance) :
    distance + (toInt (network.cost arc) - price potential (network.tail arc)) ≤
      ((n : Int) - 2) * dearest := by
  have trace := trace_path_traced grown.rooted (is_settled_iff.mpr ⟨distance, settled⟩)
  have cost := grown.path_cost_eq start trace settled
  generalize network.tracePath (fun node => (labels.get node).bind Label.parent)
    (network.tail arc) = path at trace cost
  have avoids : sink ∉ network.stops path source := by
    intro member
    rcases List.mem_cons.mp member with same | later
    · exact different same.symm
    · obtain ⟨other, listed, head⟩ := List.mem_map.mp later
      have known := (trace.parents other listed).1
      rw [head, sinkOpen] at known
      cases known
  have short := length_add_two_le trace.simple avoids
  rw [sourcePrice, add_zero] at cost
  cases path with
  | nil =>
      have atSource : network.tail arc = source := trace.leads.symm
      have nothing : pathCost network [] = 0 := rfl
      have product : 0 ≤ ((n : Int) - 2) * dearest := mul_nonneg (by omega) nonneg
      rw [free arc atSource]
      omega
  | cons first rest =>
      have spent := path_cost_le_of_free each free trace.leads
      have here := each arc
      rw [List.length_cons] at short
      calc distance + (toInt (network.cost arc) - price potential (network.tail arc))
          = pathCost network (first :: rest) + toInt (network.cost arc) := by omega
        _ ≤ rest.length * dearest + dearest := by omega
        _ = (rest.length + 1 : Int) * dearest := by ring
        _ ≤ ((n : Int) - 2) * dearest := mul_le_mul_of_nonneg_right (by omega) nonneg

end Settled

end FlowTour.MinCostFlow
