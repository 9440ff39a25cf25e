import FlowTour.MinCostFlow.Problem
import FlowTour.Proofs.Graph.Amounts
import FlowTour.Proofs.Residual.Conservation
import FlowTour.Proofs.Weight.Range
import Mathlib.Algebra.BigOperators.Fin

/-!
Supplies as links of the extended network. A problem passes the checks just when its nodes are known,
it offers as much as it demands and no cost or capacity is negative. Both terminals are attached with
just these amounts: when the terminal links are full, what leaves a node on its edges less what enters
it is its supply.
-/

namespace FlowTour.MinCostFlow

open IntegerWeight Table Residual

variable {N W : Type} [NodeKey N] [IntegerWeight W]

section Entries

variable (supply : KeyedWeights N W)

omit [IntegerWeight W] in
theorem values_eq_map_to_list : supply.values = supply.toList.map Prod.snd := by
  have folded : supply.values = supply.foldr (fun _ amount values => amount :: values) [] := rfl
  rw [folded, Std.TreeMap.foldr_eq_foldr_toList, List.map_eq_foldr]

omit [IntegerWeight W] in
theorem keys_nodup : (supply.toList.map Prod.fst).Nodup := by
  rw [List.Nodup, List.pairwise_map]
  apply List.Pairwise.imp _ supply.distinct_keys_toList
  intro first second different same
  rw [same] at different
  exact different Std.ReflCmp.compare_self

omit [IntegerWeight W] in
theorem to_list_of_list_perm {entries : List (N × W)} (distinct : (entries.map Prod.fst).Nodup) :
    (Std.TreeMap.ofList entries : KeyedWeights N W).toList.Perm entries := by
  have apart : entries.Pairwise fun first second => ¬compare first.1 second.1 = .eq := by
    apply (List.pairwise_map.mp distinct).imp
    intro first second different same
    exact different (Std.LawfulEqCmp.eq_of_compare same)
  have keeps : ∀ entry ∈ entries,
      (Std.TreeMap.ofList entries : KeyedWeights N W)[entry.1]? = some entry.2 :=
    fun entry member => Std.TreeMap.getElem?_ofList_of_mem Std.ReflCmp.compare_self apart member
  rw [List.perm_ext_iff_of_nodup (List.Nodup.of_map _ (keys_nodup _)) (List.Nodup.of_map _ distinct)]
  intro entry
  rw [Std.TreeMap.mem_toList_iff_getElem?_eq_some]
  refine ⟨?_, keeps entry⟩
  intro found
  have listed := Std.TreeMap.mem_iff_isSome_getElem?.mpr (Option.isSome_of_mem found)
  rw [Std.TreeMap.mem_ofList, List.contains_iff_mem] at listed
  obtain ⟨other, member, same⟩ := List.mem_map.mp listed
  have kept := keeps other member
  rw [same, found] at kept
  have equal : entry = other := Prod.ext same.symm (Option.some.inj kept)
  exact equal ▸ member

theorem sum_entries_eq (node : N) :
    (supply.toList.map fun entry => if entry.1 = node then toInt entry.2 else 0).sum =
      toInt (supply.getD node 0) := by
  have distinct := keys_nodup supply
  have zeros : ∀ entries : List (N × W), (∀ entry ∈ entries, entry.1 ≠ node) →
      (entries.map fun entry => if entry.1 = node then toInt entry.2 else 0).sum = 0 := by
    intro entries others
    apply List.sum_eq_zero
    intro share member
    obtain ⟨entry, listed, rfl⟩ := List.mem_map.mp member
    exact if_neg (others entry listed)
  rw [Std.TreeMap.getD_eq_getD_getElem?]
  cases found : supply[node]? with
  | none =>
      rw [Option.getD_none, to_int_zero]
      apply zeros
      rintro ⟨key, amount⟩ member rfl
      rw [Std.TreeMap.mem_toList_iff_getElem?_eq_some, found] at member
      cases member
  | some amount =>
      have member := Std.TreeMap.mem_toList_iff_getElem?_eq_some.mpr found
      obtain ⟨before, after, split⟩ := List.append_of_mem member
      rw [split, List.map_append, List.map_cons, List.nodup_middle, List.nodup_cons] at distinct
      have others : ∀ entry ∈ before ++ after, entry.1 ≠ node := by
        intro entry listed same
        apply distinct.1
        rw [← List.map_append]
        exact List.mem_map.mpr ⟨entry, listed, same⟩
      have early := zeros before fun entry listed => others entry (List.mem_append_left _ listed)
      have late := zeros after fun entry listed => others entry (List.mem_append_right _ listed)
      rw [split, List.map_append, List.map_cons, List.sum_append, List.sum_cons, early, late]
      simp

end Entries

/-- A problem that passes the checks, and its total supply. -/
structure Valid (costs : Graph N W) (supply : KeyedWeights N W) (capacity : Option (Graph N W))
    (total : W) : Prop where
  known : ∀ entry ∈ supply.toList, entry.1 ∈ costs.nodes
  offered : (supply.toList.map fun entry => max (toInt entry.2) 0).sum = toInt total
  demanded : (supply.toList.map fun entry => max (-toInt entry.2) 0).sum = toInt total
  opposite : ∀ entry ∈ supply.toList, toInt entry.2 < 0 → toInt (-entry.2) = -toInt entry.2
  cost_nonneg : ∀ edge ∈ costs.edges, 0 ≤ toInt edge.weight
  capacity_nonneg : ∀ graph, capacity = some graph → ∀ edge ∈ graph.edges, 0 ≤ toInt edge.weight

theorem sum_filter_is_positive (amounts : List W) :
    ((amounts.filter Weight.isPositive).map toInt).sum =
      (amounts.map fun amount => max (toInt amount) 0).sum := by
  induction amounts with
  | nil => rfl
  | cons amount rest induction =>
      rw [List.map_cons, List.sum_cons, List.filter_cons]
      split
      · next positive =>
        rw [is_positive_iff] at positive
        rw [List.map_cons, List.sum_cons, induction]
        omega
      · next notPositive =>
        rw [is_positive_iff] at notPositive
        rw [induction]
        omega

theorem sum_opposites {amounts opposites : List W}
    (found : (amounts.filter Weight.isNegative).mapM (Weight.trySub 0) = some opposites) :
    (opposites.map toInt).sum = (amounts.map fun amount => max (-toInt amount) 0).sum ∧
      ∀ amount ∈ amounts, toInt amount < 0 → toInt (-amount) = -toInt amount := by
  induction amounts generalizing opposites with
  | nil =>
      obtain rfl := Option.some.inj found
      simp
  | cons amount rest induction =>
      rw [List.filter_cons] at found
      split at found
      · next negative =>
        rw [is_negative_iff] at negative
        rw [List.mapM_cons] at found
        obtain ⟨opposite, subtracted, others⟩ := Option.bind_eq_some_iff.mp found
        obtain ⟨later, foundLater, last⟩ := Option.bind_eq_some_iff.mp others
        obtain rfl := Option.some.inj last
        obtain ⟨sum, exact⟩ := induction foundLater
        have value := try_sub_eq_some_iff.mp subtracted
        rw [to_int_zero] at value
        constructor
        · rw [List.map_cons, List.map_cons, List.sum_cons, List.sum_cons, sum]
          omega
        · intro other member below
          rcases List.mem_cons.mp member with same | later
          · have fits : toInt opposite = -toInt amount := by omega
            rw [same]
            exact to_int_neg_of_fits fits
          · exact exact other later below
      · next notNegative =>
        rw [is_negative_iff] at notNegative
        obtain ⟨sum, exact⟩ := induction found
        constructor
        · rw [List.map_cons, List.sum_cons, sum]
          omega
        · intro other member below
          rcases List.mem_cons.mp member with rfl | member
          · exact absurd below notNegative
          · exact exact other member below

omit [NodeKey N] in
theorem refusals_eq_ok {costs : Graph N W} {capacity : Option (Graph N W)} {offered total : W}
    (checked : (do
      costs.refuseNegative .cost
      match capacity with
      | none => return offered
      | some graph => do
          graph.refuseNegative .capacity
          return offered : Except (Failure N W) W) = .ok total) :
    total = offered ∧ (∀ edge ∈ costs.edges, 0 ≤ toInt edge.weight) ∧
      ∀ graph, capacity = some graph → ∀ edge ∈ graph.edges, 0 ≤ toInt edge.weight := by
  cases costsChecked : costs.refuseNegative (W := W) .cost with
  | error failure => simp [costsChecked, bind, Except.bind] at checked
  | ok done =>
      have costNonneg := costs.refuse_negative_eq_ok_iff.mp costsChecked
      cases capacity with
      | none =>
          have same : offered = total := by
            simpa [costsChecked, bind, Except.bind, pure, Except.pure] using checked
          exact ⟨same.symm, costNonneg, by simp⟩
      | some graph =>
          cases capacityChecked : graph.refuseNegative (W := W) .capacity with
          | error failure => simp [costsChecked, capacityChecked, bind, Except.bind] at checked
          | ok alsoDone =>
              have same : offered = total := by
                simpa [costsChecked, capacityChecked, bind, Except.bind, pure, Except.pure]
                  using checked
              refine ⟨same.symm, costNonneg, ?_⟩
              intro other isGraph
              obtain rfl := Option.some.inj isGraph
              exact graph.refuse_negative_eq_ok_iff.mp capacityChecked

theorem validate_eq_ok {costs : Graph N W} {supply : KeyedWeights N W}
    {capacity : Option (Graph N W)} {total : W}
    (checked : validate costs supply capacity = .ok total) : Valid costs supply capacity total := by
  unfold validate at checked
  split at checked
  · cases checked
  · next allKnown =>
    dsimp only at checked
    split at checked
    · next offered demanded offeredEq demandedEq =>
      obtain ⟨opposites, opposed, sum⟩ := Option.bind_eq_some_iff.mp demandedEq
      split at checked
      · cases checked
      · next excess difference =>
        split at checked
        · next balanced =>
          rw [is_negligible_iff, try_sub_eq_some_iff.mp difference] at balanced
          have positives := to_int_total? offeredEq
          have negatives := to_int_total? sum
          obtain ⟨opposedSum, opposite⟩ := sum_opposites opposed
          rw [sum_filter_is_positive, values_eq_map_to_list, List.map_map] at positives
          rw [opposedSum, values_eq_map_to_list, List.map_map] at negatives
          obtain ⟨total_eq, costNonneg, capacityNonneg⟩ := refusals_eq_ok checked
          subst total_eq
          refine ⟨?_, positives.symm, ?_, ?_, costNonneg, capacityNonneg⟩
          · intro entry member
            have listed : entry.1 ∈ supply.keys := by
              rw [← Std.TreeMap.map_fst_toList_eq_keys]
              exact List.mem_map_of_mem member
            simpa [Graph.contains] using List.find?_eq_none.mp allKnown entry.1 listed
          · have same : toInt total = toInt demanded := by omega
            rw [same, negatives]
            rfl
          · intro entry member below
            apply opposite entry.2 _ below
            rw [values_eq_map_to_list]
            exact List.mem_map_of_mem member
        · cases checked
    · cases checked

section Complete

omit [NodeKey N] in
theorem mapm_opposites {amounts : List W}
    (opposite : ∀ amount ∈ amounts, toInt (-amount) = -toInt amount) :
    amounts.mapM (Weight.trySub 0) = some (amounts.map fun amount => -amount) := by
  induction amounts with
  | nil => rfl
  | cons amount rest induction =>
      have here : Weight.trySub 0 amount = some (-amount) := by
        rw [try_sub_eq_some_iff, opposite amount (List.mem_cons_self ..), to_int_zero, zero_sub]
      have later := induction fun other member => opposite other (List.mem_cons_of_mem _ member)
      rw [List.mapM_cons, here, later]
      rfl

variable {costs : Graph N W} {supply : KeyedWeights N W} {capacity : Option (Graph N W)} {total : W}

theorem Valid.offered_eq (valid : Valid costs supply capacity total) :
    Weight.total? (supply.values.filter Weight.isPositive) = some total := by
  apply total?_eq_some
  · intro amount member
    have positive := is_positive_iff.mp (List.mem_filter.mp member).2
    omega
  · rw [sum_filter_is_positive, values_eq_map_to_list, List.map_map]
    exact valid.offered

theorem Valid.demanded_eq (valid : Valid costs supply capacity total) :
    ((supply.values.filter Weight.isNegative).mapM (Weight.trySub 0)).bind Weight.total? =
      some total := by
  have opposite : ∀ amount ∈ supply.values.filter Weight.isNegative,
      toInt (-amount) = -toInt amount := by
    intro amount member
    obtain ⟨listed, negative⟩ := List.mem_filter.mp member
    rw [values_eq_map_to_list] at listed
    obtain ⟨entry, entered, rfl⟩ := List.mem_map.mp listed
    exact valid.opposite entry entered (is_negative_iff.mp negative)
  have opposed := mapm_opposites opposite
  obtain ⟨sum, -⟩ := sum_opposites opposed
  rw [opposed, Option.bind_some]
  apply total?_eq_some
  · intro amount member
    obtain ⟨demand, listed, rfl⟩ := List.mem_map.mp member
    have negative := is_negative_iff.mp (List.mem_filter.mp listed).2
    rw [opposite demand listed]
    omega
  · rw [sum, values_eq_map_to_list, List.map_map]
    exact valid.demanded

theorem Valid.validate_eq (valid : Valid costs supply capacity total) :
    validate costs supply capacity = .ok total := by
  have allKnown : (supply.keys.find? fun node => !costs.contains node) = none := by
    rw [List.find?_eq_none]
    intro node member
    rw [← Std.TreeMap.map_fst_toList_eq_keys] at member
    obtain ⟨entry, listed, rfl⟩ := List.mem_map.mp member
    simpa [Graph.contains] using valid.known entry listed
  have excess : Weight.trySub total total = some 0 := by
    rw [try_sub_eq_some_iff, to_int_zero, sub_self]
  have balanced : Weight.isNegligible 0 total = true := is_negligible_iff.mpr to_int_zero
  have costsAccepted : costs.refuseNegative .cost = .ok () :=
    costs.refuse_negative_eq_ok_iff.mpr valid.cost_nonneg
  unfold validate
  simp only [allKnown, valid.offered_eq, valid.demanded_eq, excess, balanced, if_true, costsAccepted]
  cases capacity with
  | none => rfl
  | some graph =>
      have accepted : graph.refuseNegative .capacity = .ok () :=
        graph.refuse_negative_eq_ok_iff.mpr (valid.capacity_nonneg graph rfl)
      simp only [accepted]
      rfl

end Complete

section Terminals

variable {costs : Graph N W} {supply : KeyedWeights N W} {capacity : Option (Graph N W)} {total : W}

/-- What a full link adds to the net outflow of a vertex. -/
def fullOutflow {n : Nat} (vertex : Fin n) (link : Link n W) : Int :=
  toInt (link.capacity.getD 0) *
    ((if link.tail = vertex then 1 else 0) - if link.head = vertex then 1 else 0)

/-- What an entry adds to the net outflow of a vertex when its link is full. -/
def entryOutflow (costs : Graph N W) : Vertex (Fin costs.nodeCount) → N × W → Int
  | .source, entry => max (toInt entry.2) 0
  | .sink, entry => -max (-toInt entry.2) 0
  | .node index, entry => -if entry.1 = costs.key index then toInt entry.2 else 0

theorem place_injective {nodeCount : Nat} :
    Function.Injective (Vertex.place : Vertex (Fin nodeCount) → Fin (nodeCount + 2)) := by
  intro first second same
  rw [Fin.ext_iff] at same
  cases first <;> cases second <;> simp [Vertex.place] at same ⊢ <;> omega

theorem sum_full_outflow_terminal_links (valid : Valid costs supply capacity total)
    (vertex : Vertex (Fin costs.nodeCount)) :
    ((terminalLinks costs supply).map (fullOutflow (Vertex.place vertex))).sum =
      (supply.toList.map (entryOutflow costs vertex)).sum := by
  rw [terminalLinks, sum_map_filter_map]
  apply congrArg
  apply List.map_congr_left
  intro entry member
  obtain ⟨index, found⟩ : ∃ index, costs.index? entry.1 = some index :=
    ⟨costs.index entry.1 (valid.known entry member),
      costs.index?_eq_some_iff.mpr (costs.key_index _)⟩
  have key := costs.index?_eq_some_iff.mp found
  have sameNode : ∀ other, entry.1 = costs.key other ↔ index = other := by
    intro other
    rw [← key, costs.key_injective.eq_iff]
  dsimp only
  rw [found, Option.bind_some]
  split
  · next positive =>
    rw [is_positive_iff] at positive
    have offers : max (toInt entry.2) 0 = toInt entry.2 := by omega
    have demands : max (-toInt entry.2) 0 = 0 := by omega
    cases vertex with
    | source => simp [fullOutflow, entryOutflow, place_injective.eq_iff, offers]
    | sink => simp [fullOutflow, entryOutflow, place_injective.eq_iff, demands]
    | node other => simp [fullOutflow, entryOutflow, place_injective.eq_iff, sameNode]
  · next notPositive =>
    rw [is_positive_iff] at notPositive
    have offers : max (toInt entry.2) 0 = 0 := by omega
    have demands : max (-toInt entry.2) 0 = -toInt entry.2 := by omega
    split
    · next negative =>
      rw [is_negative_iff] at negative
      have exact := valid.opposite entry member negative
      cases vertex with
      | source => simp [fullOutflow, entryOutflow, place_injective.eq_iff, offers]
      | sink => simp [fullOutflow, entryOutflow, place_injective.eq_iff, demands, exact]
      | node other =>
          simp only [fullOutflow, entryOutflow, Option.map_some, Option.getD_some, exact,
            place_injective.eq_iff, sameNode, Vertex.node.injEq, reduceCtorEq, if_false]
          split <;> omega
    · next notNegative =>
      rw [is_negative_iff] at notNegative
      have zero : toInt entry.2 = 0 := by omega
      cases vertex with
      | source => simp [entryOutflow, zero]
      | sink => simp [entryOutflow, zero]
      | node other => simp [entryOutflow, zero]

/-- Amounts on the edges, with all terminal links full. -/
def withFullTerminals (costs : Graph N W) (supply : KeyedWeights N W)
    (onEdges : Fin costs.edgeCount → Int) :
    Fin (costs.edgeCount + (terminalLinks costs supply).length) → Int :=
  Fin.append onEdges fun index => toInt (((terminalLinks costs supply).get index).capacity.getD 0)

@[simp] theorem extended_links_edge (index : Fin costs.edgeCount) :
    (extendedLinks costs supply capacity).get (index.castAdd _) =
      ⟨Vertex.place (.node (costs.sourceIndex index)),
        Vertex.place (.node (costs.targetIndex index)),
        edgeCapacity capacity (costs.edge index).source (costs.edge index).target,
        (costs.edge index).weight⟩ := by
  rw [extendedLinks, get_append_left, edgeLinks, get_of_fn]

@[simp] theorem extended_links_terminal (index : Fin (terminalLinks costs supply).length) :
    (extendedLinks costs supply capacity).get (index.natAdd _) =
      (terminalLinks costs supply).get index := by
  rw [extendedLinks, get_append_right]
  rfl

theorem net_outflow_with_full_terminals (valid : Valid costs supply capacity total)
    (onEdges : Fin costs.edgeCount → Int) (vertex : Vertex (Fin costs.nodeCount)) :
    netOutflow (extendedLinks costs supply capacity) (withFullTerminals costs supply onEdges)
        (Vertex.place vertex) =
      (∑ index, onEdges index *
        ((if .node (costs.sourceIndex index) = vertex then 1 else 0) -
          if .node (costs.targetIndex index) = vertex then 1 else 0)) +
        (supply.toList.map (entryOutflow costs vertex)).sum := by
  rw [← sum_full_outflow_terminal_links valid, netOutflow, Fin.sum_univ_add]
  apply congrArg₂
  · apply Finset.sum_congr rfl
    intro index _
    rw [extended_links_edge, withFullTerminals, Fin.append_left]
    simp only [place_injective.eq_iff]
  · rw [← Fin.sum_univ_fun_getElem]
    apply Finset.sum_congr rfl
    intro index _
    rw [extended_links_terminal, withFullTerminals, Fin.append_right]
    rfl

omit [NodeKey N] [IntegerWeight W] in
theorem sum_neg_entries (entries : List (N × W)) (share : N × W → Int) :
    (entries.map fun entry => -share entry).sum = -(entries.map share).sum := by
  rw [List.sum_neg, List.map_map]
  rfl

theorem net_outflow_source (valid : Valid costs supply capacity total)
    (onEdges : Fin costs.edgeCount → Int) :
    netOutflow (extendedLinks costs supply capacity) (withFullTerminals costs supply onEdges)
      (Vertex.place .source) = toInt total := by
  have entries : (supply.toList.map (entryOutflow costs .source)).sum = toInt total :=
    valid.offered
  rw [net_outflow_with_full_terminals valid, entries]
  simp

theorem net_outflow_sink (valid : Valid costs supply capacity total)
    (onEdges : Fin costs.edgeCount → Int) :
    netOutflow (extendedLinks costs supply capacity) (withFullTerminals costs supply onEdges)
      (Vertex.place .sink) = -toInt total := by
  have entries : (supply.toList.map (entryOutflow costs .sink)).sum = -toInt total := by
    rw [← valid.demanded]
    exact sum_neg_entries supply.toList fun entry => max (-toInt entry.2) 0
  rw [net_outflow_with_full_terminals valid, entries]
  simp

theorem net_outflow_node (valid : Valid costs supply capacity total)
    (onEdges : Fin costs.edgeCount → Int) (index : Fin costs.nodeCount) :
    netOutflow (extendedLinks costs supply capacity) (withFullTerminals costs supply onEdges)
        (Vertex.place (.node index)) =
      costs.outflow onEdges (costs.key index) - costs.inflow onEdges (costs.key index) -
        toInt (supply.getD (costs.key index) 0) := by
  have entries : (supply.toList.map (entryOutflow costs (.node index))).sum =
      -toInt (supply.getD (costs.key index) 0) := by
    rw [← sum_entries_eq]
    exact sum_neg_entries supply.toList fun entry =>
      if entry.1 = costs.key index then toInt entry.2 else 0
  rw [net_outflow_with_full_terminals valid, entries, costs.outflow_eq_sum, costs.inflow_eq_sum,
    ← Finset.sum_sub_distrib]
  simp only [Vertex.node.injEq, mul_sub]
  rfl

end Terminals

end FlowTour.MinCostFlow
