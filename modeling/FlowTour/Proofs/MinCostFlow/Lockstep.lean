import FlowTour.Proofs.MinCostFlow.Headroom

/-!
Runs side by side, maybe over different weight types. Links that are unlimited and links that can carry
the total answer alike as long as something is still to be routed, since no link carries more than what
has been routed. Once nothing is, the source is closed and both runs stop. A search only asks which arcs
leave a node, where they lead, what they cost and whether they have capacity left, so over one weight
type it takes the same course in any networks that answer alike.
-/

namespace FlowTour.MinCostFlow

open IntegerWeight Residual

variable {n m : Nat} {W V : Type} [IntegerWeight W] [IntegerWeight V]

/-- Networks with the same arcs at the same costs, which have capacity left in both or in neither. -/
structure Alike (network : Residual n m W) (other : Residual n m V) : Prop where
  tail_eq : ∀ arc, network.tail arc = other.tail arc
  head_eq : ∀ arc, network.head arc = other.head arc
  cost_eq : ∀ arc, toInt (network.cost arc) = toInt (other.cost arc)
  arcs_from_eq : ∀ node, network.arcsFrom node = other.arcsFrom node
  open_eq : ∀ arc, network.hasCapacity arc = other.hasCapacity arc

theorem Alike.trace_back_eq {network : Residual n m W} {other : Residual n m V}
    (alike : Alike network other) (parent : Fin n → Option (Arc m)) (fuel : Nat) (node : Fin n)
    (path : List (Arc m)) :
    network.traceBack parent fuel node path = other.traceBack parent fuel node path := by
  induction fuel generalizing node path with
  | zero => rfl
  | succ fuel induction =>
      rw [traceBack, traceBack]
      cases parent node with
      | none => rfl
      | some arc =>
          dsimp only
          rw [induction, alike.tail_eq]

theorem Alike.trace_path_eq {network : Residual n m W} {other : Residual n m V}
    (alike : Alike network other) (parent : Fin n → Option (Arc m)) (node : Fin n) :
    network.tracePath parent node = other.tracePath parent node :=
  alike.trace_back_eq parent n node []

section Search

variable {network other : Residual n m W} (alike : Alike network other)
include alike

theorem Alike.relax_eq : relax network = relax other := by
  have costs : ∀ arc, network.cost arc = other.cost arc := fun arc =>
    to_int_injective (alike.cost_eq arc)
  funext potential distance state arc
  simp only [relax, reducedCost, alike.tail_eq, alike.head_eq, costs, alike.open_eq]

theorem Alike.shortest_paths_eq : shortestPaths network = shortestPaths other := by
  have steps : explore network = explore other := by
    funext potential sink state
    simp only [explore, alike.relax_eq, alike.arcs_from_eq]
  funext potential source sink
  simp only [shortestPaths, steps]

end Search

section Loosened

/-- Links with the same ends at the same costs. What the second ones limit the first ones limit just
so, and their other limits cover the total. -/
structure Loosened (tight : Vector (Link n W) m) (free : Vector (Link n V) m) (total : Int) :
    Prop where
  joins : ∀ index, (tight.get index).tail = (free.get index).tail ∧
    (tight.get index).head = (free.get index).head ∧
      toInt (tight.get index).cost = toInt (free.get index).cost
  keeps : ∀ index limit, (free.get index).capacity = some limit →
    ∃ same, (tight.get index).capacity = some same ∧ toInt same = toInt limit
  covers : ∀ index limit, (tight.get index).capacity = some limit →
    (∃ same, (free.get index).capacity = some same ∧ toInt same = toInt limit) ∨
      total ≤ toInt limit

variable {tight : Vector (Link n W) m} {free : Vector (Link n V) m} {source sink : Fin n}
  {total : Int} {state : State n m W} {other : State n m V}

theorem Loosened.tail_eq (loosened : Loosened tight free total) (index : Fin m) :
    (tight.get index).tail = (free.get index).tail :=
  (loosened.joins index).1

theorem Loosened.head_eq (loosened : Loosened tight free total) (index : Fin m) :
    (tight.get index).head = (free.get index).head :=
  (loosened.joins index).2.1

theorem Loosened.cost_eq (loosened : Loosened tight free total) (index : Fin m) :
    toInt (tight.get index).cost = toInt (free.get index).cost :=
  (loosened.joins index).2.2

theorem Loosened.net_outflow_eq (loosened : Loosened tight free total) (amount : Fin m → Int)
    (node : Fin n) : netOutflow tight amount node = netOutflow free amount node := by
  simp only [netOutflow, loosened.tail_eq, loosened.head_eq]

theorem Loosened.link_cost_eq (loosened : Loosened tight free total) (amount : Fin m → Int) :
    linkCost tight amount = linkCost free amount := by
  simp only [linkCost, loosened.cost_eq]

theorem Loosened.carries (loosened : Loosened tight free total) {amount : Fin m → Int}
    (carries : Carries tight source sink amount) : Carries free source sink amount where
  nonneg := carries.nonneg
  within index limit limited := by
    obtain ⟨same, alsoLimited, exact⟩ := loosened.keeps index limit limited
    rw [← exact]
    exact carries.within index same alsoLimited
  conserved node notSource notSink := by
    rw [← loosened.net_outflow_eq]
    exact carries.conserved node notSource notSink

theorem Loosened.iteration_bound_eq (loosened : Loosened tight free total)
    (posed : Posed free source sink total) :
    iterationBound tight source = iterationBound free source := by
  rw [MinCostFlow.iteration_bound_eq, MinCostFlow.iteration_bound_eq, leavingCapacity,
    leavingCapacity]
  simp only [Finset.sum_filter, loosened.tail_eq]
  apply congrArg (· + 1)
  apply Finset.sum_congr rfl
  intro index _
  split
  · next leaves =>
    obtain ⟨limit, limited⟩ := Option.ne_none_iff_exists'.mp (posed.limited index leaves)
    obtain ⟨same, alsoLimited, exact⟩ := loosened.keeps index limit limited
    rw [limited, alsoLimited, Option.map_some, Option.map_some, Option.getD_some, Option.getD_some,
      rank_eq_to_nat, rank_eq_to_nat, exact]
  · rfl

theorem Loosened.posed (loosened : Loosened tight free total) (posed : Posed free source sink total)
    (inRange : InRange W total) : Posed tight source sink total where
  in_range := inRange
  different := posed.different
  cost_nonneg index := by
    rw [loosened.cost_eq]
    exact posed.cost_nonneg index
  capacity_nonneg index limit limited := by
    rcases loosened.covers index limit limited with ⟨same, alsoLimited, exact⟩ | enough
    · rw [← exact]
      exact posed.capacity_nonneg index same alsoLimited
    · exact posed.total_nonneg.trans enough
  none_enters index := by
    rw [loosened.head_eq]
    exact posed.none_enters index
  limited index leaves := by
    rw [loosened.tail_eq] at leaves
    obtain ⟨limit, limited⟩ := Option.ne_none_iff_exists'.mp (posed.limited index leaves)
    obtain ⟨same, alsoLimited, -⟩ := loosened.keeps index limit limited
    rw [alsoLimited]
    exact Option.some_ne_none same
  free index leaves := by
    rw [loosened.tail_eq] at leaves
    rw [loosened.cost_eq]
    exact posed.free index leaves
  offered := by
    rw [← posed.offered]
    simp only [loosened.tail_eq]
    apply Finset.sum_congr rfl
    intro index member
    obtain ⟨limit, limited⟩ :=
      Option.ne_none_iff_exists'.mp (posed.limited index (Finset.mem_filter.mp member).2)
    obtain ⟨same, alsoLimited, exact⟩ := loosened.keeps index limit limited
    rw [limited, alsoLimited, Option.getD_some, Option.getD_some, exact]

/-- Runs under way that have sent and counted the same and have the same potentials. -/
structure InStep (tight : Vector (Link n W) m) (free : Vector (Link n V) m) (source sink : Fin n)
    (state : State n m W) (other : State n m V) : Prop where
  tight : Underway tight source sink state
  free : Underway free source sink other
  flow_eq : ∀ index, state.network.flow index = other.network.flow index
  price_eq : ∀ node, price state.potential node = price other.potential node
  routed_eq : toInt state.routed = toInt other.routed

theorem InStep.initial (posedTight : Posed tight source sink total)
    (posedFree : Posed free source sink total) :
    InStep tight free source sink (initialState tight) (initialState free) where
  tight := Underway.initial posedTight
  free := Underway.initial posedFree
  flow_eq index := (flow_of_links tight index).trans (flow_of_links free index).symm
  price_eq node := by
    rw [price, price, initialState, initialState, Table.get_replicate, Table.get_replicate,
      to_int_zero, to_int_zero]
  routed_eq := to_int_zero.trans to_int_zero.symm

theorem InStep.admits_iff (inStep : InStep tight free source sink state other)
    (loosened : Loosened tight free total) {amount : Int}
    (within : toInt other.routed + amount ≤ total) (arc : Arc m) :
    state.network.Admits arc amount ↔ other.network.Admits arc amount := by
  have tightEq := inStep.tight.routed.links_eq
  have freeEq := inStep.free.routed.links_eq
  have carried := inStep.free.flow_le arc.link
  unfold Admits
  rw [inStep.flow_eq, tightEq, freeEq]
  cases arc.reversed with
  | true => rfl
  | false =>
      constructor
      · intro admits limit limited
        obtain ⟨same, alsoLimited, exact⟩ := loosened.keeps arc.link limit limited
        have fits := admits same alsoLimited
        omega
      · intro admits limit limited
        rcases loosened.covers arc.link limit limited with ⟨same, alsoLimited, exact⟩ | enough
        · have fits := admits same alsoLimited
          omega
        · omega

theorem InStep.alike (inStep : InStep tight free source sink state other)
    (loosened : Loosened tight free total) (posed : Posed free source sink total)
    (short : toInt other.routed < total) : Alike state.network other.network := by
  have tightEq := inStep.tight.routed.links_eq
  have freeEq := inStep.free.routed.links_eq
  constructor
  · intro arc
    simp only [Residual.tail, Residual.link, tightEq, freeEq, loosened.tail_eq, loosened.head_eq]
  · intro arc
    simp only [Residual.head, Residual.link, tightEq, freeEq, loosened.tail_eq, loosened.head_eq]
  · intro arc
    have nonneg := posed.cost_nonneg arc.link
    have same := loosened.cost_eq arc.link
    rw [to_int_cost, to_int_cost, Residual.link, Residual.link, tightEq, freeEq, same]
    · rwa [Residual.link, freeEq]
    · rwa [Residual.link, tightEq, same]
  · intro node
    simp only [Residual.arcsFrom, tightEq, freeEq, loosened.tail_eq, loosened.head_eq]
  · intro arc
    rw [Bool.eq_iff_iff, inStep.tight.routed.sound.has_capacity_iff,
      inStep.free.routed.sound.has_capacity_iff, inStep.admits_iff loosened (by omega)]

/-- A bottleneck is the most that every arc admits. -/
theorem to_int_bottleneck_le {network : Residual n m W} (sound : network.Sound) {path : List (Arc m)}
    {amount : W} (least : network.bottleneck path = some amount) {value : Int}
    (admits : ∀ arc ∈ path, network.Admits arc value) : value ≤ toInt amount := by
  obtain ⟨arc, member, left⟩ := exists_residual_eq_bottleneck least
  exact (sound.admits_iff arc value).mp (admits arc member) amount left

section Posed

variable (inStep : InStep tight free source sink state other) (loosened : Loosened tight free total)
  (posedTight : Posed tight source sink total) (posedFree : Posed free source sink total)
include inStep loosened posedTight posedFree

/-- A path has the same bottleneck in both runs, since it begins with an arc that is limited to what is
still to be routed. -/
theorem bottleneck_eq {path : List (Arc m)} (leads : state.network.Leads path source sink)
    (otherLeads : other.network.Leads path source sink) {amount : W} {otherAmount : V}
    (least : state.network.bottleneck path = some amount)
    (otherLeast : other.network.bottleneck path = some otherAmount) :
    toInt amount = toInt otherAmount := by
  have sound := inStep.tight.routed.sound
  have otherSound := inStep.free.routed.sound
  have within := routed_add_le posedTight inStep.tight.routed leads least
  have otherWithin := routed_add_le posedFree inStep.free.routed otherLeads otherLeast
  rw [inStep.routed_eq] at within
  apply le_antisymm
  · apply to_int_bottleneck_le otherSound otherLeast
    intro arc member
    exact (inStep.admits_iff loosened within arc).mp (admits_bottleneck sound least arc member)
  · apply to_int_bottleneck_le sound least
    intro arc member
    exact (inStep.admits_iff loosened otherWithin arc).mpr
      (admits_bottleneck otherSound otherLeast arc member)

theorem InStep.moved {labels : Vector (Option (Label m W)) n} {reached : Label m W}
    {otherLabels : Vector (Option (Label m V)) n} {otherReached : Label m V}
    (searched : shortestPaths state.network state.potential source sink = some labels)
    (found : labels.get sink = some reached) (settled : reached.settled = true)
    (otherSearched : shortestPaths other.network other.potential source sink = some otherLabels)
    (otherFound : otherLabels.get sink = some otherReached)
    (otherSettled : otherReached.settled = true)
    (samePath : state.network.tracePath (fun node => (labels.get node).bind Label.parent) sink =
      other.network.tracePath (fun node => (otherLabels.get node).bind Label.parent) sink)
    (sameCapped : ∀ node, capped labels reached.distance node =
      capped otherLabels otherReached.distance node)
    {potential : Vector W n} {otherPotential : Vector V n}
    (lowered : lowerPotentials state.potential labels reached.distance = some potential)
    (otherLowered : lowerPotentials other.potential otherLabels otherReached.distance =
      some otherPotential) :
    ∃ next otherNext, (MinCostFlow.augment source sink state).outcome = .ok (some next) ∧
      (MinCostFlow.augment source sink other).outcome = .ok (some otherNext) ∧
        InStep tight free source sink next otherNext := by
  have guided := inStep.tight.routed.guided searched found settled
  have otherGuided := inStep.free.routed.guided otherSearched otherFound otherSettled
  obtain ⟨amount, least⟩ := exists_bottleneck posedTight inStep.tight.routed guided.leads
  obtain ⟨otherAmount, otherLeast⟩ :=
    exists_bottleneck posedFree inStep.free.routed otherGuided.leads
  obtain ⟨network, counted, pushed, added⟩ :=
    inStep.tight.exists_pushed posedTight searched found settled least
  obtain ⟨otherNetwork, otherCounted, otherPushed, otherAdded⟩ :=
    inStep.free.exists_pushed posedFree otherSearched otherFound otherSettled otherLeast
  have stepped := augment_of_moved searched found settled lowered least pushed added
  have otherStepped := augment_of_moved otherSearched otherFound otherSettled otherLowered
    otherLeast otherPushed otherAdded
  have flow := (guided.pushed inStep.tight.routed.sound least pushed).flow_eq
  have otherFlow := (otherGuided.pushed inStep.free.routed.sound otherLeast otherPushed).flow_eq
  have same : toInt amount = toInt otherAmount :=
    bottleneck_eq inStep loosened posedTight posedFree guided.leads (samePath ▸ otherGuided.leads)
      least (samePath ▸ otherLeast)
  refine ⟨_, _, stepped, otherStepped, inStep.tight.augment posedTight stepped,
    inStep.free.augment posedFree otherStepped, ?_, ?_, ?_⟩
  · intro index
    dsimp only
    rw [flow, otherFlow, inStep.flow_eq, same, samePath]
  · intro node
    dsimp only
    rw [price_lower_potentials lowered, price_lower_potentials otherLowered, inStep.price_eq,
      sameCapped]
  · dsimp only
    rw [try_add_eq_some_iff.mp added, try_add_eq_some_iff.mp otherAdded, inStep.routed_eq, same]

end Posed

end Loosened

section Paired

variable {tight free : Vector (Link n W) m} {source sink : Fin n} {total : Int}
  {state other : State n m W}

/-- Runs in step over one weight type fail alike, stop together, or stay in step. -/
theorem InStep.augment_paired (inStep : InStep tight free source sink state other)
    (loosened : Loosened tight free total) (posedTight : Posed tight source sink total)
    (posedFree : Posed free source sink total) :
    Paired (Option.Rel (InStep tight free source sink))
      (MinCostFlow.augment source sink state).outcome
      (MinCostFlow.augment source sink other).outcome := by
  rcases lt_or_ge (toInt other.routed) total with short | whole
  · have alike := inStep.alike loosened posedFree short
    have samePotential : state.potential = other.potential := by
      apply Table.eq_of_get
      intro node
      exact to_int_injective (inStep.price_eq node)
    have sameSearch : shortestPaths state.network state.potential source sink =
        shortestPaths other.network other.potential source sink := by
      rw [alike.shortest_paths_eq, samePotential]
    cases searched : shortestPaths other.network other.potential source sink with
    | none =>
        rw [augment_of_unsearched searched, augment_of_unsearched (sameSearch.trans searched)]
        exact .failed _
    | some labels =>
        have alsoSearched := sameSearch.trans searched
        cases arrived : isSettled labels sink with
        | false =>
            rw [augment_of_missed searched arrived, augment_of_missed alsoSearched arrived]
            exact .answered .none
        | true =>
            obtain ⟨_, reached, found, settled, -⟩ := is_settled_iff.mp arrived
            cases lowered : lowerPotentials other.potential labels reached.distance with
            | none =>
                rw [augment_of_unlowered searched found settled lowered,
                  augment_of_unlowered alsoSearched found settled (samePotential ▸ lowered)]
                exact .failed _
            | some potential =>
                obtain ⟨next, otherNext, stepped, otherStepped, moved⟩ := inStep.moved loosened
                  posedTight posedFree alsoSearched found settled searched found settled
                  (alike.trace_path_eq _ sink) (fun _ => rfl) (samePotential ▸ lowered) lowered
                rw [stepped, otherStepped]
                exact .answered (.some moved)
  · rw [inStep.free.augment_of_whole posedFree whole,
      inStep.tight.augment_of_whole posedTight (inStep.routed_eq ▸ whole)]
    exact .answered .none

theorem Loosened.route_paired (loosened : Loosened tight free total)
    (posedTight : Posed tight source sink total) (posedFree : Posed free source sink total) :
    Paired (InStep tight free source sink) (route tight source sink).outcome
      (route free source sink).outcome := by
  rw [route_outcome, route_outcome, loosened.iteration_bound_eq posedFree]
  apply Traced.iterate_paired
  · intro state other inStep
    exact inStep.augment_paired loosened posedTight posedFree
  · exact InStep.initial posedTight posedFree

end Paired

end FlowTour.MinCostFlow
