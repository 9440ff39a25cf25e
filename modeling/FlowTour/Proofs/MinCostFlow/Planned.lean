import FlowTour.MinCostFlow.Planned
import FlowTour.Proofs.MinCostFlow.Cheapest
import FlowTour.Proofs.MinCostFlow.Exact

/-!
Planned flows beside routed ones. A planner is only asked to plan a cheapest maximum flow of the
network it is given. That network limits every link, and the run that routes the supply does the same
over it as over the network without these limits, so the plan carries what the run has routed, and at
the same cost.
-/

namespace FlowTour.MinCostFlow

open IntegerWeight Residual

section Legs

variable {m : Nat} {plan : Plan m} {narrowed : List (Fin m × Int32)}

def Plan.sent (plan : Plan m) (index : Fin m) : Int :=
  ((plan.legs.filter fun leg => leg.link = index).map Leg.amount).sum

theorem sum_sent (plan : Plan m) (counts : Fin m → Bool) :
    (∑ index with counts index = true, plan.sent index) =
      ((plan.legs.filter fun leg => counts leg.link).map Leg.amount).sum := by
  obtain ⟨cost, legs⟩ := plan
  simp only [Plan.sent]
  induction legs with
  | nil => simp
  | cons leg rest induction =>
      have first : ∀ index, (((leg :: rest).filter fun leg => leg.link = index).map
          Leg.amount).sum = (if leg.link = index then leg.amount else 0) +
            ((rest.filter fun leg => leg.link = index).map Leg.amount).sum := by
        intro index
        by_cases here : leg.link = index <;> simp [here]
      simp only [first, Finset.sum_add_distrib, induction]
      by_cases counted : counts leg.link <;> simp [counted]

theorem exists_narrowed {legs : List (Leg m)} (fits : ∀ leg ∈ legs, InRange Int32 leg.amount) :
    ∃ narrowed, legs.mapM Leg.narrow? = some narrowed ∧
      narrowed.map (fun leg => Leg.mk leg.1 (toInt leg.2)) = legs := by
  induction legs with
  | nil => exact ⟨[], rfl, rfl⟩
  | cons leg rest induction =>
      obtain ⟨weight, exact⟩ := fits leg (List.mem_cons_self ..)
      obtain ⟨later, found, widened⟩ :=
        induction fun other member => fits other (List.mem_cons_of_mem _ member)
      have here : leg.narrow? = some (leg.link, weight) := by
        rw [Leg.narrow?, of_int?_eq_some_iff.mpr exact, Option.map_some]
      refine ⟨(leg.link, weight) :: later, ?_, ?_⟩
      · rw [List.mapM_cons, here, found]
        rfl
      · rw [List.map_cons, widened, exact]

theorem to_int_carried (widened : narrowed.map (fun leg => Leg.mk leg.1 (toInt leg.2)) = plan.legs)
    (nonneg : ∀ leg ∈ plan.legs, 0 ≤ leg.amount) {counts : Fin m → Bool}
    (inRange : InRange Int32 (∑ index with counts index = true, plan.sent index)) :
    toInt (carried narrowed counts) = ∑ index with counts index = true, plan.sent index := by
  have sum : (((narrowed.filter fun leg => counts leg.1).map Prod.snd).map toInt).sum =
      ∑ index with counts index = true, plan.sent index := by
    rw [sum_sent, ← widened, List.filter_map, List.map_map, List.map_map]
    rfl
  have amountsNonneg : ∀ amount ∈ (narrowed.filter fun leg => counts leg.1).map Prod.snd,
      0 ≤ toInt amount := by
    intro amount member
    obtain ⟨leg, listed, rfl⟩ := List.mem_map.mp member
    apply nonneg ⟨leg.1, toInt leg.2⟩
    rw [← widened]
    exact List.mem_map_of_mem (List.mem_filter.mp listed).1
  obtain ⟨weight, fits⟩ := inRange
  rw [carried, to_int_total amountsNonneg (sum.trans fits.symm).le, sum]

end Legs

section Exact

variable {n m : Nat} {links : Vector (Link n Int32) m} {source sink : Fin n} {total : Int}
  {plan : Plan m}

/-- A plan that is a cheapest maximum flow in legs, with its cost if that is a weight. -/
structure Plan.Exact (plan : Plan m) (links : Vector (Link n Int32) m) (source sink : Fin n) :
    Prop where
  nonneg : ∀ leg ∈ plan.legs, 0 ≤ leg.amount
  cheapest : CheapestMaximum links source sink plan.sent
  cost_eq : InRange Int32 (linkCost links plan.sent) → toInt plan.cost = linkCost links plan.sent

/-- A planner that finds such a plan for limited links between two terminals. -/
def Planner.Exact (planner : Planner) : Prop :=
  ∀ {n m : Nat} (links : Vector (Link n Int32) m) (source sink : Fin n) (total : Int),
    Posed links source sink total → (∀ index, (links.get index).capacity ≠ none) →
      (planner.plan links source sink).Exact links source sink

theorem Plan.Exact.sent_in_range (exact : plan.Exact links source sink)
    (limited : ∀ index, (links.get index).capacity ≠ none) (index : Fin m) :
    InRange Int32 (plan.sent index) := by
  obtain ⟨limit, found⟩ := Option.ne_none_iff_exists'.mp (limited index)
  have carries := exact.cheapest.carries
  exact (in_range_to_int limit).of_nonneg_of_le (carries.nonneg index)
    (carries.within index limit found)

theorem Plan.Exact.narrows (exact : plan.Exact links source sink)
    (limited : ∀ index, (links.get index).capacity ≠ none) :
    ∃ narrowed, plan.legs.mapM Leg.narrow? = some narrowed ∧
      narrowed.map (fun leg => Leg.mk leg.1 (toInt leg.2)) = plan.legs := by
  apply exists_narrowed
  intro leg member
  have part : leg.amount ≤ plan.sent leg.link := by
    apply List.single_le_sum
    · intro amount listed
      obtain ⟨other, filtered, rfl⟩ := List.mem_map.mp listed
      exact exact.nonneg other (List.mem_filter.mp filtered).1
    · apply List.mem_map_of_mem
      exact List.mem_filter.mpr ⟨member, decide_eq_true rfl⟩
  exact (exact.sent_in_range limited leg.link).of_nonneg_of_le (exact.nonneg leg member) part

end Exact

section Unlimited

variable {n m : Nat} {links : Vector (Link n Int32) m} {source sink : Fin n} {total : Int}
  {amount : Fin m → Int}

theorem get_exact_links (index : Fin m) :
    (exactLinks links).get index = exactLink (links.get index) :=
  Table.get_map links _ index

theorem CheapestMaximum.of_exact_links
    (cheapest : CheapestMaximum (exactLinks links) source sink amount) :
    CheapestMaximum links source sink amount := by
  have tighter : Loosened (exactLinks links) links 0 := loosened_of_exact get_exact_links
  have looser : Loosened links (exactLinks links) 0 := loosened_by_exact get_exact_links
  constructor
  · exact tighter.carries cheapest.carries
  · intro other carries
    have most := cheapest.most other (looser.carries carries)
    rwa [tighter.net_outflow_eq, tighter.net_outflow_eq] at most
  · intro other carries
    have least := cheapest.least other (looser.carries carries)
    rwa [tighter.net_outflow_eq, tighter.net_outflow_eq, tighter.link_cost_eq,
      tighter.link_cost_eq] at least

theorem Posed.exists_exact_route (posed : Posed links source sink total) :
    ∃ final, (route (exactLinks links) source sink).outcome = .ok final := by
  have exactPosed : Posed (exactLinks links) source sink total := posed.exact get_exact_links
  have nonneg := exactPosed.cost_nonneg
  have each : ∀ index, toInt ((exactLinks links).get index).cost ≤
      ∑ other, toInt ((exactLinks links).get other).cost := by
    intro index
    exact Finset.single_le_sum (fun other _ => nonneg other) (Finset.mem_univ index)
  exact exactPosed.exists_route each (Finset.sum_nonneg fun index _ => nonneg index)
    (in_range_unbounded _)

section Ended

variable {final : State n m Unbounded}
  (ended : (route (exactLinks links) source sink).outcome = .ok final)
include ended

theorem legs_exact_plan : (exactPlan links source sink).legs =
    (List.finRange m).map fun index => ⟨index, final.network.flow index⟩ := by
  simp only [exactPlan, ended]
  rfl

theorem sent_exact_plan : (exactPlan links source sink).sent = final.network.flow := by
  funext index
  have alone : (List.finRange m).filter (fun other => other = index) = [index] := by
    rw [List.filter_eq, List.count_eq_one_of_mem (List.nodup_finRange m) (List.mem_finRange index),
      List.replicate_one]
  rw [Plan.sent, legs_exact_plan ended, List.filter_map, List.map_map]
  change ((List.filter (fun other => other = index) (List.finRange m)).map
    final.network.flow).sum = _
  rw [alone, List.map_singleton, List.sum_singleton]

theorem cost_exact_plan (posed : Posed links source sink total)
    (inRange : InRange Int32 (linkCost links final.network.flow)) :
    toInt (exactPlan links source sink).cost = linkCost links final.network.flow := by
  have exactPosed : Posed (exactLinks links) source sink total := posed.exact get_exact_links
  have tighter : Loosened (exactLinks links) links total := loosened_of_exact get_exact_links
  have routed := (exactPosed.underway_of_route ended).routed
  let shares : List Unbounded := (List.finRange m).map fun index =>
    Int.mul (final.network.links.get index).cost (final.network.sent.get index)
  have costEq : (exactPlan links source sink).cost = Int32.ofInt (toInt (Weight.total shares)) := by
    simp only [exactPlan, ended]
    rfl
  have sharesNonneg : ∀ share ∈ shares, 0 ≤ toInt share := by
    intro share member
    obtain ⟨index, -, rfl⟩ := List.mem_map.mp member
    apply mul_nonneg _ (routed.sound.flow_nonneg index)
    rw [routed.links_eq]
    exact exactPosed.cost_nonneg index
  have sum : (shares.map toInt).sum = linkCost links final.network.flow := by
    rw [← tighter.link_cost_eq, ← routed.links_eq, linkCost, Fin.sum_univ_def]
    exact congrArg List.sum List.map_map
  obtain ⟨high, most⟩ := in_range_unbounded (linkCost links final.network.flow)
  obtain ⟨weight, fits⟩ := inRange
  rw [costEq, to_int_total sharesNonneg (sum.trans most.symm).le, sum, ← fits]
  exact congrArg toInt (Int32.ofInt_toInt weight)

end Ended

theorem exact_planner_exact : exactPlanner.Exact := by
  intro n m links source sink total posed _
  obtain ⟨final, ended⟩ := posed.exists_exact_route
  have exactPosed : Posed (exactLinks links) source sink total := posed.exact get_exact_links
  have cheapest := (exactPosed.cheapest_maximum ended).of_exact_links
  have sent : (exactPlan links source sink).sent = final.network.flow := sent_exact_plan ended
  change (exactPlan links source sink).Exact links source sink
  refine ⟨?_, ?_, ?_⟩
  · intro leg member
    rw [legs_exact_plan ended] at member
    obtain ⟨index, -, rfl⟩ := List.mem_map.mp member
    exact cheapest.carries.nonneg index
  · rw [sent]
    exact cheapest
  · rw [sent]
    exact cost_exact_plan ended posed

end Unlimited

section Problem

variable {N : Type} [NodeKey N] {costs : Graph N Int32} {supply : KeyedWeights N Int32}
  {capacity : Option (Graph N Int32)} {total : Int32}

theorem get_limited_links (index : Fin _) :
    (limitedLinks costs supply capacity total).get index =
      { (extendedLinks costs supply capacity).get index with
        capacity := some (((extendedLinks costs supply capacity).get index).capacity.getD total) } :=
  Table.get_map _ _ index

theorem limited_limited_links (index : Fin _) :
    ((limitedLinks costs supply capacity total).get index).capacity ≠ none := by
  rw [get_limited_links]
  exact Option.some_ne_none _

/-- The limits that the planner is given on top do not matter to the run. -/
theorem loosened_limited_links : Loosened (limitedLinks costs supply capacity total)
    (extendedLinks costs supply capacity) (toInt total) where
  joins index := by
    rw [get_limited_links]
    exact ⟨rfl, rfl, rfl⟩
  keeps index limit limited := by
    rw [get_limited_links, limited]
    exact ⟨limit, rfl, rfl⟩
  covers index limit limited := by
    rw [get_limited_links] at limited
    cases original : ((extendedLinks costs supply capacity).get index).capacity with
    | none =>
        rw [original] at limited
        obtain rfl := Option.some.inj limited
        exact .inr le_rfl
    | some same =>
        rw [original] at limited
        obtain rfl := Option.some.inj limited
        exact .inl ⟨same, rfl, rfl⟩

section Cheapest

variable {amount : Fin (costs.edgeCount + (terminalLinks costs supply).length) → Int}
  {state final : State (costs.nodeCount + 2)
    (costs.edgeCount + (terminalLinks costs supply).length) Int32}
  (valid : Valid costs supply capacity total)
  (cheapest : CheapestMaximum (limitedLinks costs supply capacity total) (Vertex.place .source)
    (Vertex.place .sink) amount)
include valid cheapest

theorem routes_of_cheapest (whole : toInt total ≤ netOutflow
      (limitedLinks costs supply capacity total) amount (Vertex.place .source)) :
    (Routes costs supply capacity fun edge => amount (edge.castAdd _)) ∧
      linkCost (limitedLinks costs supply capacity total) amount =
        exactCost costs fun edge => amount (edge.castAdd _) := by
  have carries := loosened_limited_links.carries cheapest.carries
  rw [loosened_limited_links.net_outflow_eq] at whole
  rw [loosened_limited_links.link_cost_eq]
  exact ⟨routes_of_carries valid carries whole, link_cost_of_carries valid carries whole⟩

/-- A cheapest maximum flow of the limited network carries what the run has routed, at the cost of what
the run has sent over the edges. -/
theorem cheapest_eq_of_in_step
    (ended : (route (limitedLinks costs supply capacity total) (Vertex.place .source)
      (Vertex.place .sink)).outcome = .ok state)
    (inStep : InStep (limitedLinks costs supply capacity total)
      (extendedLinks costs supply capacity) (Vertex.place .source) (Vertex.place .sink) state final) :
    netOutflow (limitedLinks costs supply capacity total) amount (Vertex.place .source) =
        toInt final.routed ∧
      (toInt total ≤ toInt final.routed →
        linkCost (limitedLinks costs supply capacity total) amount =
          exactCost costs (edgeAmounts final.network)) := by
  have posed := loosened_limited_links.posed valid.posed (in_range_to_int total)
  have alsoCheapest := posed.cheapest_maximum ended
  have routed := inStep.free.routed
  constructor
  · rw [cheapest.value_eq alsoCheapest, inStep.tight.routed.value_eq, inStep.routed_eq]
  · intro whole
    rw [cheapest.cost_eq alsoCheapest, loosened_limited_links.link_cost_eq, funext inStep.flow_eq]
    exact link_cost_of_carries valid routed.carries (whole.trans_eq routed.value_eq.symm)

end Cheapest

section Chosen

variable {planner : Planner} {plan : Plan (costs.edgeCount + (terminalLinks costs supply).length)}
  (checked : validate costs supply capacity = .ok total)
  (chosen : planner.plan (limitedLinks costs supply capacity total) (Vertex.place .source)
    (Vertex.place .sink) = plan)
  (exact : plan.Exact (limitedLinks costs supply capacity total) (Vertex.place .source)
    (Vertex.place .sink))
include checked chosen exact

theorem planned_of_exact {arriving : Int32}
    (value : netOutflow (limitedLinks costs supply capacity total) plan.sent
      (Vertex.place .source) = toInt arriving) :
    ∃ flow : Fin costs.edgeCount → Int32, (planned planner costs supply capacity).outcome =
        (if arriving < total then .error .noFeasibleFlow
          else .ok (plan.cost, costs.reweight flow)) ∧
      ∀ edge, toInt (flow edge) = plan.sent (edge.castAdd _) := by
  have posed := loosened_limited_links.posed (validate_eq_ok checked).posed (in_range_to_int total)
  obtain ⟨legs, narrowed, widened⟩ := exact.narrows limited_limited_links
  have leaving : (∑ index with decide (((limitedLinks costs supply capacity total).get index).tail =
      Vertex.place .source) = true, plan.sent index) = toInt arriving := by
    rw [← value, net_outflow_of_none_enters posed.none_enters]
    simp only [mul_ite, mul_one, mul_zero, ← Finset.sum_filter, decide_eq_true_eq]
  have together : carried legs (fun index =>
      ((limitedLinks costs supply capacity total).get index).tail = Vertex.place .source) =
        arriving := by
    apply to_int_injective
    rw [to_int_carried widened exact.nonneg (leaving ▸ in_range_to_int arriving), leaving]
  refine ⟨fun edge => carried legs (· = edge.castAdd _), ?_, ?_⟩
  · by_cases short : arriving < total
    · simp [planned, checked, chosen, narrowed, together, short, Except.bind]
    · simp [planned, checked, chosen, narrowed, together, short, Except.bind]
  · intro edge
    have alone : (∑ index with decide (index = edge.castAdd (terminalLinks costs supply).length) =
        true, plan.sent index) = plan.sent (edge.castAdd _) := by
      simp only [decide_eq_true_eq, Finset.filter_eq', Finset.mem_univ, if_true,
        Finset.sum_singleton]
    rw [to_int_carried widened exact.nonneg (alone ▸ exact.sent_in_range limited_limited_links _),
      alone]

/-- A run that comes to its end and an exact plan are both answers at one cost, or both carry too
little, unless the cost is out of range. -/
theorem planned_of_in_step
    {state final : State (costs.nodeCount + 2)
      (costs.edgeCount + (terminalLinks costs supply).length) Int32}
    (limited : (route (limitedLinks costs supply capacity total) (Vertex.place .source)
      (Vertex.place .sink)).outcome = .ok state)
    (ended : (route (extendedLinks costs supply capacity) (Vertex.place .source)
      (Vertex.place .sink)).outcome = .ok final)
    (inStep : InStep (limitedLinks costs supply capacity total)
      (extendedLinks costs supply capacity) (Vertex.place .source) (Vertex.place .sink) state final) :
    ((primalDual costs supply capacity).outcome = .error .noFeasibleFlow ∧
        (planned planner costs supply capacity).outcome = .error .noFeasibleFlow) ∨
      (primalDual costs supply capacity).outcome = .error .arithmeticOverflow ∨
      ∃ solution flow, (primalDual costs supply capacity).outcome = .ok solution ∧
        (planned planner costs supply capacity).outcome = .ok (solution.cost, flow) ∧
        Routes costs supply capacity (costs.amountsOn flow) ∧
        toInt solution.cost = exactCost costs (costs.amountsOn flow) := by
  have valid := validate_eq_ok checked
  have routed := inStep.free.routed
  obtain ⟨value, cost⟩ := cheapest_eq_of_in_step valid exact.cheapest limited inStep
  obtain ⟨flow, outcome, sent⟩ := planned_of_exact checked chosen exact value
  rcases lt_or_ge (toInt final.routed) (toInt total) with short | whole
  · rw [if_pos (lt_iff_to_int_lt.mpr short)] at outcome
    have nonneg := routed.routed_nonneg (head_ne_source valid)
    exact .inl ⟨primal_dual_of_short checked ended nonneg short, outcome⟩
  · rw [if_neg (mt lt_iff_to_int_lt.mp whole.not_gt)] at outcome
    have atMost := routed_le_total valid.posed routed
    have computed := primal_dual_of_whole checked ended (le_antisymm atMost whole)
    have amounts : costs.amountsOn (costs.reweight flow) = fun edge => plan.sent (edge.castAdd _) := by
      funext edge
      rw [Graph.amounts_on_reweight, sent]
    obtain ⟨routes, spent⟩ := routes_of_cheapest valid exact.cheapest (whole.trans_eq value.symm)
    rw [← amounts] at routes spent
    cases summed : totalCost? costs (edgeFlow final.network) with
    | none =>
        rw [summed, Option.elim_none] at computed
        exact .inr (.inl computed)
    | some least =>
        rw [summed, Option.elim_some] at computed
        have exactly : linkCost (limitedLinks costs supply capacity total) plan.sent =
            toInt least := (cost whole).trans (to_int_total_cost? summed).symm
        have sameCost : plan.cost = least := by
          apply to_int_injective
          rw [exact.cost_eq (exactly ▸ in_range_to_int least), exactly]
        rw [sameCost] at outcome
        exact .inr (.inr ⟨_, _, computed, outcome, routes, exactly.symm.trans spent⟩)

end Chosen

theorem primal_dual_planned_cases {planner : Planner} (exact : planner.Exact)
    (costs : Graph N Int32) (supply : KeyedWeights N Int32) (capacity : Option (Graph N Int32)) :
    (∃ failure, (primalDual costs supply capacity).outcome = .error failure ∧
        (planned planner costs supply capacity).outcome = .error failure) ∨
      (primalDual costs supply capacity).outcome = .error .arithmeticOverflow ∨
      ∃ solution flow, (primalDual costs supply capacity).outcome = .ok solution ∧
        (planned planner costs supply capacity).outcome = .ok (solution.cost, flow) ∧
        Routes costs supply capacity (costs.amountsOn flow) ∧
        toInt solution.cost = exactCost costs (costs.amountsOn flow) := by
  cases checked : validate costs supply capacity with
  | error failure =>
      refine .inl ⟨failure, ?_, ?_⟩
      · simp [primalDual, checked, Except.bind]
      · simp [planned, checked, Except.bind]
  | ok total =>
      have valid := validate_eq_ok checked
      have posed := loosened_limited_links.posed valid.posed (in_range_to_int total)
      have paired := loosened_limited_links.route_paired posed valid.posed
      generalize limited : (route (limitedLinks costs supply capacity total) (Vertex.place .source)
        (Vertex.place .sink)).outcome = first at paired
      generalize ended : (route (extendedLinks costs supply capacity) (Vertex.place .source)
        (Vertex.place .sink)).outcome = second at paired
      cases paired with
      | failed failure =>
          cases failure
          refine .inr (.inl ?_)
          simp [primalDual, checked, ended, Except.bind, Except.mapError, Failure.ofOverflow]
      | answered inStep =>
          have planExact := exact _ _ _ _ posed limited_limited_links
          rcases planned_of_in_step checked rfl planExact limited ended inStep with
            ⟨stranded, alsoStranded⟩ | others
          · exact .inl ⟨_, stranded, alsoStranded⟩
          · exact .inr others

end Problem

section Agreement

variable {N : Type} [NodeKey N]

/-- Unless the run overflows, an exact planner leads to the same cost or to the same failure. -/
theorem planned_agrees (planner : Planner) (exact : planner.Exact) (costs : Graph N Int32)
    (supply : KeyedWeights N Int32) (capacity : Option (Graph N Int32)) :
    (∀ solution, (primalDual costs supply capacity).outcome = .ok solution →
        ∃ flow, (planned planner costs supply capacity).outcome = .ok (solution.cost, flow) ∧
          Routes costs supply capacity (costs.amountsOn flow) ∧
          toInt solution.cost = exactCost costs (costs.amountsOn flow)) ∧
      ∀ failure, (primalDual costs supply capacity).outcome = .error failure →
        failure ≠ .arithmeticOverflow →
          (planned planner costs supply capacity).outcome = .error failure := by
  rcases primal_dual_planned_cases exact costs supply capacity with
    ⟨cause, failed, alsoFailed⟩ | overflowed | ⟨answer, flow, found, planFound, routes, spent⟩
  · rw [failed, alsoFailed]
    refine ⟨nofun, ?_⟩
    intro failure same _
    rw [Except.error.inj same]
  · rw [overflowed]
    refine ⟨nofun, ?_⟩
    intro failure same different
    exact absurd (Except.error.inj same).symm different
  · rw [found, planFound]
    refine ⟨?_, nofun⟩
    intro solution same
    rw [← Except.ok.inj same]
    exact ⟨flow, rfl, routes, spent⟩

theorem planned_agrees_tolls : exactPlanner.Exact ∧
    (∃ (solution : Solution Int Int32) (flow : Graph Int Int32),
      (primalDual tolls twoUnits (some singleLanes)).outcome = .ok solution ∧ solution.cost = 13 ∧
        (planned exactPlanner tolls twoUnits (some singleLanes)).outcome = .ok (13, flow) ∧
          Routes tolls twoUnits (some singleLanes) (tolls.amountsOn flow)) ∧
    (primalDual tolls threeUnits (some singleLanes)).outcome = .error .noFeasibleFlow ∧
      (planned exactPlanner tolls threeUnits (some singleLanes)).outcome = .error .noFeasibleFlow := by
  have passed : (primalDual tolls twoUnits (some singleLanes)).outcome.toOption.any (fun solution =>
      solution.cost = 13) = true := by
    decide +kernel
  have failed : (primalDual tolls threeUnits (some singleLanes)).outcome =
      .error .noFeasibleFlow := by
    decide +kernel
  obtain ⟨solution, found, tested⟩ := Traced.exists_ok_of_any passed
  have cost : solution.cost = 13 := of_decide_eq_true tested
  obtain ⟨answers, -⟩ :=
    planned_agrees exactPlanner exact_planner_exact tolls twoUnits (some singleLanes)
  obtain ⟨-, refuses⟩ :=
    planned_agrees exactPlanner exact_planner_exact tolls threeUnits (some singleLanes)
  obtain ⟨flow, planFound, routes, -⟩ := answers solution found
  rw [cost] at planFound
  exact ⟨exact_planner_exact, ⟨solution, flow, found, cost, planFound, routes⟩, failed,
    refuses _ failed nofun⟩

end Agreement

end FlowTour.MinCostFlow
