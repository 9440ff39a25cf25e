import FlowTour.Proofs.Residual.Walk
import FlowTour.Proofs.Table
import FlowTour.Residual.ArcTable
import Mathlib.Data.Nat.Bitwise

/-!
Tables of arcs follow the residual networks that list their links. The table of a network has the arcs of
link `i` at `2 * i` and `2 * i + 1`. Building a table for some links gives the table of their network,
and reading, sending and searching give on the table of a network what they give on the network. The one
thing that a network does not say by itself is whether a residual covers what is sent.
-/

namespace FlowTour

namespace ArcTable

theorem twin_div_two (arc : Nat) : twin arc / 2 = arc / 2 := by
  rw [twin, Nat.xor_div_two]
  exact Nat.xor_zero _

theorem twin_mod_two (arc : Nat) : twin arc % 2 = (arc + 1) % 2 := Nat.xor_mod_two_eq

@[simp] theorem twin_twin (arc : Nat) : twin (twin arc) = arc := by
  have halves := (twin_div_two (twin arc)).trans (twin_div_two arc)
  have first := twin_mod_two arc
  have second := twin_mod_two (twin arc)
  omega

theorem twin_two_mul (index : Nat) : twin (2 * index) = 2 * index + 1 := by
  have halves := twin_div_two (2 * index)
  have last := twin_mod_two (2 * index)
  omega

theorem twin_lt_iff (arc m : Nat) : twin arc < 2 * m ↔ arc < 2 * m := by
  have halves := twin_div_two arc
  omega

variable {Value Result : Type}

theorem ok_bind (value : Value) (next : Value → Except Fault Result) :
    (Except.ok value >>= next) = next value := rfl

theorem checked_eq_ok_iff {found : Option Result} {result : Result} :
    checked found = .ok result ↔ found = some result := by
  cases found with
  | none => simp [checked]
  | some other => simp [checked]

end ArcTable

namespace Arc

variable {m : Nat}

/-- Where the arc stands in the table. -/
def number (arc : Arc m) : Nat := 2 * arc.link.val + arc.reversed.toNat

def ofNumber (number : Fin (2 * m)) : Arc m :=
  ⟨⟨number.val / 2, by omega⟩, number.val % 2 = 1⟩

theorem number_lt (arc : Arc m) : arc.number < 2 * m := by
  have bound := arc.link.isLt
  have bit := arc.reversed.toNat_lt
  rw [number]
  omega

theorem of_number_number (arc : Arc m) : ofNumber ⟨arc.number, arc.number_lt⟩ = arc := by
  obtain ⟨link, reversed⟩ := arc
  cases reversed with
  | false => simp [ofNumber, number]
  | true =>
      have half : (2 * link.val + 1) / 2 = link.val := by omega
      simp [ofNumber, number, half]

theorem number_of_number (index : Fin (2 * m)) : (ofNumber index).number = index.val := by
  have split := Nat.div_add_mod index.val 2
  rw [ofNumber, number]
  rcases Nat.mod_two_eq_zero_or_one index.val with even | odd
  · simp only [even, Nat.zero_ne_one, decide_false, Bool.toNat_false]
    omega
  · simp only [odd, decide_true, Bool.toNat_true]
    omega

theorem exists_number {number : Nat} (inside : number < 2 * m) :
    ∃ arc : Arc m, arc.number = number :=
  ⟨ofNumber ⟨number, inside⟩, number_of_number ⟨number, inside⟩⟩

theorem map_number_ite (arc : Arc m) (present : Prop) [Decidable present] :
    (if present then [arc] else []).map number = if present then [arc.number] else [] := by
  split <;> rfl

theorem number_injective : Function.Injective (number : Arc m → Nat) := by
  intro first second same
  rw [← first.of_number_number, ← second.of_number_number]
  simp only [same]

theorem number_twin (arc : Arc m) : arc.twin.number = ArcTable.twin arc.number := by
  have halves := ArcTable.twin_div_two arc.number
  have last := ArcTable.twin_mod_two arc.number
  obtain ⟨link, reversed⟩ := arc
  cases reversed <;> simp only [number, twin, Bool.not_true, Bool.not_false, Bool.toNat_true,
    Bool.toNat_false] at halves last ⊢ <;> omega

end Arc

namespace Residual

open Table

variable {n m : Nat} {W : Type} [Weight W] (network : Residual n m W)

section Reading

def entry (arc : Arc m) : ArcEntry n W := ⟨network.head arc, network.residual arc, network.cost arc⟩

/-- The network laid out as a table. -/
def table : ArcTable n W where
  entries := Array.ofFn fun index => network.entry (Arc.ofNumber index)
  leaving := Vector.ofFn fun node => (network.arcsFrom node).map Arc.number

theorem size_table : network.table.entries.size = 2 * m := Array.size_ofFn

theorem entry_table (arc : Arc m) : network.table.entry arc.number = .ok (network.entry arc) := by
  have listed : network.table.entries[arc.number]? = some (network.entry arc) := by
    rw [table, Array.getElem?_ofFn, dif_pos arc.number_lt, arc.of_number_number]
  rw [ArcTable.entry, listed]

theorem entry_table_of_le {number : Nat} (outside : 2 * m ≤ number) :
    network.table.entry number = .error .absent := by
  rw [ArcTable.entry, Array.getElem?_eq_none (network.size_table.trans_le outside)]

@[simp] theorem head_table (arc : Arc m) :
    network.table.head arc.number = .ok (network.head arc) := by
  rw [ArcTable.head, entry_table]
  rfl

@[simp] theorem tail_table (arc : Arc m) :
    network.table.tail arc.number = .ok (network.tail arc) := by
  rw [ArcTable.tail, ← arc.number_twin, head_table, head_twin]

@[simp] theorem cost_table (arc : Arc m) :
    network.table.cost arc.number = .ok (network.cost arc) := by
  rw [ArcTable.cost, entry_table]
  rfl

@[simp] theorem residual_table (arc : Arc m) :
    network.table.residual arc.number = .ok (network.residual arc) := by
  rw [ArcTable.residual, entry_table]
  rfl

@[simp] theorem has_capacity_table (arc : Arc m) :
    network.table.hasCapacity arc.number = .ok (network.hasCapacity arc) := by
  rw [ArcTable.hasCapacity, residual_table, hasCapacity]
  cases network.residual arc <;> rfl

theorem flow_table (index : Fin m) :
    network.table.flow (2 * index.val) = .ok (network.sent.get index) := by
  have twin : ArcTable.twin (2 * index.val) = (⟨index, true⟩ : Arc m).number :=
    ArcTable.twin_two_mul index
  rw [ArcTable.flow, twin, residual_table]
  rfl

@[simp] theorem arcs_from_table (node : Fin n) :
    network.table.arcsFrom node = (network.arcsFrom node).map Arc.number :=
  get_of_fn _ node

theorem bottleneck_table (path : List (Arc m)) :
    network.table.bottleneck (path.map Arc.number) = .ok (network.bottleneck path) := by
  have residuals : (path.map Arc.number).mapM network.table.residual =
      .ok (path.map network.residual) := by
    induction path with
    | nil => rfl
    | cons arc rest induction =>
        rw [List.map_cons, List.mapM_cons, residual_table, induction]
        rfl
  have limited : (path.map network.residual).filterMap id = path.filterMap network.residual :=
    List.filterMap_map
  rw [ArcTable.bottleneck, residuals, bottleneck, ← limited]
  rfl

end Reading

section Building

variable (links : Vector (Link n W) m) (link : Link n W)

theorem entry_of_links (arc : Arc m) : (ofLinks links).entry arc =
    if arc.reversed then ⟨(links.get arc.link).tail, some 0, -(links.get arc.link).cost⟩
    else ⟨(links.get arc.link).head, (links.get arc.link).capacity, (links.get arc.link).cost⟩ := by
  obtain ⟨index, reversed⟩ := arc
  cases reversed <;> simp [entry, head, residual, cost, Residual.link, ofLinks]

theorem get_list (leaving : Vector (List Nat) n) (node other : Fin n) (arc : Nat) :
    (ArcTable.list leaving node arc).get other =
      leaving.get other ++ if node = other then [arc] else [] := by
  rw [ArcTable.list, get_set]
  split
  · next same => rw [same]
  · exact (List.append_nil _).symm

omit [Weight W] in
theorem get_push_cast_succ (index : Fin m) :
    (links.push link).get index.castSucc = links.get index :=
  Vector.getElem_push_lt index.isLt

omit [Weight W] in
theorem get_push_last : (links.push link).get (Fin.last m) = link := Vector.getElem_push_last

/-- The numbers listed at a node because of this link. -/
def numbersAt (node : Fin n) (link : Link n W) (index : Nat) : List Nat :=
  (if link.tail = node then [2 * index] else []) ++
    if link.head = node then [2 * index + 1] else []

omit [Weight W] in
theorem map_number_arcs_from (node : Fin n) : (network.arcsFrom node).map Arc.number =
    (List.finRange m).flatMap fun index => numbersAt node (network.links.get index) index.val := by
  simp only [arcsFrom, List.map_flatMap, List.map_append, Arc.map_number_ite]
  rfl

theorem arcs_from_push (node : Fin n) :
    ((ofLinks (links.push link)).arcsFrom node).map Arc.number =
      ((ofLinks links).arcsFrom node).map Arc.number ++ numbersAt node link m := by
  rw [map_number_arcs_from, map_number_arcs_from, List.finRange_succ_last, List.flatMap_append,
    List.flatMap_map, List.flatMap_singleton]
  simp only [ofLinks, get_push_cast_succ, get_push_last]
  rfl

theorem entry_of_links_push (index : Fin (2 * m)) :
    (ofLinks (links.push link)).entry (Arc.ofNumber (index.castAdd 2)) =
      (ofLinks links).entry (Arc.ofNumber index) := by
  have same : (Arc.ofNumber (index.castAdd 2) : Arc (m + 1)).link = (Arc.ofNumber index).link.castSucc :=
    rfl
  rw [entry_of_links, entry_of_links, same, get_push_cast_succ]
  rfl

theorem entries_of_links_push : (ofLinks (links.push link)).table.entries =
    ((ofLinks links).table.entries.push ⟨link.head, link.capacity, link.cost⟩).push
      ⟨link.tail, some 0, -link.cost⟩ := by
  have forward : (ofLinks (links.push link)).entry (Arc.ofNumber ⟨2 * m, by omega⟩) =
      ⟨link.head, link.capacity, link.cost⟩ := by
    have place : (Arc.ofNumber ⟨2 * m, by omega⟩ : Arc (m + 1)) = ⟨Fin.last m, false⟩ :=
      Arc.of_number_number ⟨Fin.last m, false⟩
    rw [place, entry_of_links, get_push_last]
    rfl
  have backward : (ofLinks (links.push link)).entry (Arc.ofNumber ⟨2 * m + 1, by omega⟩) =
      ⟨link.tail, some 0, -link.cost⟩ := by
    have place : (Arc.ofNumber ⟨2 * m + 1, by omega⟩ : Arc (m + 1)) = ⟨Fin.last m, true⟩ :=
      Arc.of_number_number ⟨Fin.last m, true⟩
    rw [place, entry_of_links, get_push_last]
    rfl
  calc (ofLinks (links.push link)).table.entries
      = ((Array.ofFn fun index : Fin (2 * m) =>
            (ofLinks (links.push link)).entry (Arc.ofNumber (index.castAdd 2))).push
          ((ofLinks (links.push link)).entry (Arc.ofNumber ⟨2 * m, by omega⟩))).push
          ((ofLinks (links.push link)).entry (Arc.ofNumber ⟨2 * m + 1, by omega⟩)) := by
        refine (Array.ofFn_succ (n := 2 * m + 1)).trans ?_
        rw [Array.ofFn_succ]
        rfl
    _ = _ := by
        simp only [entry_of_links_push, forward, backward]
        rfl

theorem add_link_table :
    (ofLinks links).table.addLink link = ((ofLinks (links.push link)).table, 2 * m) := by
  have leaving : ArcTable.list (ArcTable.list (ofLinks links).table.leaving link.tail (2 * m)) link.head
      (ArcTable.twin (2 * m)) = (ofLinks (links.push link)).table.leaving := by
    apply eq_of_get
    intro node
    rw [get_list, get_list, ArcTable.twin_two_mul]
    refine .trans ?_ (arcs_from_table _ node).symm
    rw [arcs_from_push, ← arcs_from_table, List.append_assoc]
    rfl
  rw [ArcTable.addLink, size_table, leaving, ← entries_of_links_push]

theorem build_to_list :
    ArcTable.build links.toList = ((ofLinks links).table, (List.range m).map (2 * ·)) := by
  induction m with
  | zero =>
    obtain rfl : links = #v[] := Vector.eq_empty
    have leaving : Vector.replicate n [] = (ofLinks (#v[] : Vector (Link n W) 0)).table.leaving := by
      apply eq_of_get
      intro node
      rw [get_replicate]
      exact (arcs_from_table (ofLinks #v[]) node).symm
    change ((⟨#[], Vector.replicate n []⟩ : ArcTable n W), []) = _
    rw [leaving]
    rfl
  | succ m induction =>
    rw [← links.push_pop_back, Vector.toList_push, ArcTable.build, List.foldl_append, ← ArcTable.build,
      induction, List.foldl_cons, List.foldl_nil, add_link_table, List.range_succ, List.map_append]
    rfl

end Building

section Sending

variable {arc : Arc m} {amount : W}

/-- The network with this amount for the residual of an arc. -/
def withResidual (arc : Arc m) (amount : W) : Residual n m W :=
  if arc.reversed then { network with sent := network.sent.set arc.link.val amount arc.link.isLt }
  else { network with room := network.room.set arc.link.val (some amount) arc.link.isLt }

omit [Weight W] in
theorem residual_with_residual (other : Arc m) :
    (network.withResidual arc amount).residual other =
      if arc = other then some amount else network.residual other := by
  obtain ⟨index, reversed⟩ := arc
  obtain ⟨place, backward⟩ := other
  cases reversed <;> cases backward <;> simp [withResidual, residual, get_set, apply_ite some]

omit [Weight W] in
theorem links_with_residual : (network.withResidual arc amount).links = network.links := by
  unfold withResidual
  split <;> rfl

theorem entry_with_residual (other : Arc m) : (network.withResidual arc amount).entry other =
    if arc = other then { network.entry other with residual := some amount }
    else network.entry other := by
  simp only [entry, residual_with_residual, head, cost, Residual.link, links_with_residual]
  by_cases same : arc = other
  · simp only [if_pos same]
  · simp only [if_neg same]

theorem table_with_residual :
    (network.withResidual arc amount).table = network.table.setResidual arc.number amount := by
  have leaving : (network.withResidual arc amount).table.leaving = network.table.leaving := by
    simp only [table, arcsFrom, links_with_residual]
  have entries : (network.withResidual arc amount).table.entries =
      (network.table.setResidual arc.number amount).entries := by
    apply Array.ext
    · simp [table, ArcTable.setResidual]
    · intro index here _
      have bound : index < 2 * m := (network.withResidual arc amount).size_table ▸ here
      have place : arc = Arc.ofNumber ⟨index, bound⟩ ↔ arc.number = index := by
        rw [← Arc.number_injective.eq_iff, Arc.number_of_number]
      simp only [table, ArcTable.setResidual, Array.getElem_ofFn, Array.getElem_modify,
        entry_with_residual, place]
  exact congrArg₂ ArcTable.mk entries leaving

def shrunk (arc : Arc m) (amount : W) : Residual n m W :=
  match network.residual arc with
  | none => network
  | some left => network.withResidual arc (left - amount)

def grown? (arc : Arc m) (amount : W) : Option (Residual n m W) :=
  match network.residual arc with
  | none => some network
  | some left => (Weight.tryAdd left amount).map (network.withResidual arc)

theorem push_eq (arc : Arc m) (amount : W) :
    network.push arc amount = (network.shrunk arc amount).grown? arc.twin amount := by
  obtain ⟨index, reversed⟩ := arc
  cases reversed with
  | true =>
      simp only [push, if_true, grown?, shrunk, residual, Arc.twin, withResidual, Bool.not_true,
        Bool.false_eq_true, if_false]
      cases network.room.get index <;> rfl
  | false =>
      cases room : network.room.get index with
      | none =>
          have same : network.room.set index.val none index.isLt = network.room := by
            apply eq_of_get
            intro place
            rw [get_set]
            split
            · next here => rw [← here, room]
            · rfl
          simp only [push, grown?, shrunk, residual, Arc.twin, Bool.not_false, Bool.false_eq_true,
            if_true, if_false, room, Option.map_none, same]
          rfl
      | some left =>
          simp only [push, grown?, shrunk, residual, Arc.twin, withResidual, Bool.not_false,
            Bool.false_eq_true, if_true, if_false, room, Option.map_some]
          rfl

theorem shrink_table (arc : Arc m) (amount : W) : network.table.shrink arc.number amount =
    if (network.residual arc).all fun left => amount ≤ left then
      .ok (network.shrunk arc amount).table
    else .error .uncovered := by
  rw [ArcTable.shrink, residual_table, ArcTable.ok_bind, shrunk]
  cases network.residual arc with
  | none => rfl
  | some left =>
      simp only [Option.all_some, decide_eq_true_eq, table_with_residual]
      rfl

theorem grow_table (arc : Arc m) (amount : W) : network.table.grow arc.number amount =
    ArcTable.checked ((network.grown? arc amount).map table) := by
  rw [ArcTable.grow, residual_table, ArcTable.ok_bind, grown?]
  cases network.residual arc with
  | none => rfl
  | some left =>
      dsimp only
      cases Weight.tryAdd left amount with
      | none => rfl
      | some grown => exact congrArg Except.ok network.table_with_residual.symm

/-- Pushing in the table is pushing in the network, as long as the residual covers the amount. -/
theorem push_table (arc : Arc m) (amount : W) : network.table.push arc.number amount =
    if (network.residual arc).all fun left => amount ≤ left then
      ArcTable.checked ((network.push arc amount).map table)
    else .error .uncovered := by
  rw [ArcTable.push, shrink_table]
  split
  · rw [ArcTable.ok_bind, ← arc.number_twin, grow_table, push_eq]
  · rfl

theorem push_all_table {path : List (Arc m)}
    (covered : ∀ front arc rest middle left, path = front ++ arc :: rest →
      network.pushAll front amount = some middle → middle.residual arc = some left → amount ≤ left) :
    network.table.pushAll (path.map Arc.number) amount =
      ArcTable.checked ((network.pushAll path amount).map table) := by
  induction path generalizing network with
  | nil => rfl
  | cons arc rest induction =>
      have first : (network.residual arc).all (fun left => amount ≤ left) = true := by
        cases residual : network.residual arc with
        | none => rfl
        | some left => exact decide_eq_true (covered [] arc rest network left rfl rfl residual)
      rw [ArcTable.pushAll, List.map_cons, List.foldlM_cons, push_table, if_pos first, pushAll,
        List.foldlM_cons]
      cases pushed : network.push arc amount with
      | none => rfl
      | some next =>
          apply induction next
          intro front other rest middle left split later
          subst split
          apply covered (arc :: front) other rest middle left rfl
          rw [pushAll, List.foldlM_cons, pushed]
          exact later

end Sending

section Searching

/-- The parents and marks of a search, each in a table of its own. -/
def Sweep.spread (sweep : Sweep n m) : ArcTable.Sweep n where
  parents := sweep.marks.map fun mark => mark.arc?.map Arc.number
  seen := sweep.marks.map Mark.isSeen
  queue := sweep.queue

theorem follow_table (sweep : Sweep n m) (arc : Arc m) :
    ArcTable.Sweep.follow network.table sweep.spread arc.number =
      .ok (sweep.follow network arc).spread := by
  have seen : sweep.spread.seen.get (network.head arc) =
      (sweep.marks.get (network.head arc)).isSeen := get_map ..
  rw [ArcTable.Sweep.follow, head_table, ArcTable.ok_bind, seen, has_capacity_table,
    ArcTable.ok_bind, Sweep.follow]
  cases (sweep.marks.get (network.head arc)).isSeen with
  | true => rfl
  | false =>
      cases network.hasCapacity arc with
      | false => rfl
      | true =>
          simp only [Sweep.spread, Bool.not_true, Bool.or_self, Bool.false_eq_true, if_false,
            if_true, Vector.map_set]
          rfl

theorem follow_all_table (arcs : List (Arc m)) (sweep : Sweep n m) :
    (arcs.map Arc.number).foldlM (ArcTable.Sweep.follow network.table) sweep.spread =
      .ok (arcs.foldl (Sweep.follow network) sweep).spread := by
  induction arcs generalizing sweep with
  | nil => rfl
  | cons arc rest induction =>
      rw [List.map_cons, List.foldlM_cons, follow_table, ArcTable.ok_bind, induction]
      rfl

theorem run_table (target : Option (Fin n)) (fuel : Nat) (sweep : Sweep n m) :
    ArcTable.Sweep.run network.table target fuel sweep.spread =
      .ok (Sweep.run network target fuel sweep).spread := by
  induction fuel generalizing sweep with
  | zero => rfl
  | succ fuel induction =>
      have same : sweep.spread.queue = sweep.queue := rfl
      rw [ArcTable.Sweep.run, Sweep.run, same]
      cases sweep.queue with
      | nil => rfl
      | cons node rest =>
          dsimp only
          by_cases found : target = some node
          · rw [if_pos found, if_pos found.symm]
            rfl
          · rw [if_neg found, if_neg (Ne.symm found), arcs_from_table]
            have followed := network.follow_all_table (network.arcsFrom node)
              { sweep with queue := rest }
            exact (congrArg (· >>= _) followed).trans (induction _)

/-- What a search leaves behind, but for its queue. -/
theorem breadth_first_table (start : Fin n) (target : Option (Fin n)) :
    ∃ sweep, network.table.breadthFirst start target = .ok sweep ∧
      (∀ node, sweep.parents.get node =
        ((network.breadthFirst start target).get node).arc?.map Arc.number) ∧
      ∀ node, sweep.seen.get node = ((network.breadthFirst start target).get node).isSeen := by
  let initial : Sweep n m :=
    { marks := (Vector.replicate n Mark.unseen).set start.val .start start.isLt, queue := [start] }
  have begun : (⟨Vector.replicate n none, (Vector.replicate n false).set start.val true start.isLt,
      [start]⟩ : ArcTable.Sweep n) = initial.spread := by
    simp [initial, Sweep.spread, Vector.map_set, Mark.arc?, Mark.isSeen]
  refine ⟨(Sweep.run network target n initial).spread, ?_, fun _ => get_map .., fun _ => get_map ..⟩
  rw [ArcTable.breadthFirst, begun, run_table]

theorem trace_back_table {parents : Vector (Option Nat) n} {parent : Fin n → Option (Arc m)}
    (same : ∀ node, parents.get node = (parent node).map Arc.number) (fuel : Nat) (node : Fin n)
    (path : List (Arc m)) :
    ArcTable.traceBack network.table parents fuel node (path.map Arc.number) =
      .ok ((traceBack network parent fuel node path).map Arc.number) := by
  induction fuel generalizing node path with
  | zero => rfl
  | succ fuel induction =>
      rw [ArcTable.traceBack, traceBack, same]
      cases parent node with
      | none => rfl
      | some arc =>
          dsimp only [Option.map_some]
          rw [tail_table, ArcTable.ok_bind]
          exact induction (network.tail arc) (arc :: path)

theorem trace_path_table {parents : Vector (Option Nat) n} {parent : Fin n → Option (Arc m)}
    (same : ∀ node, parents.get node = (parent node).map Arc.number) (node : Fin n) :
    network.table.tracePath parents node = .ok ((network.tracePath parent node).map Arc.number) :=
  network.trace_back_table same n node []

theorem augmenting_path_table (start target : Fin n) :
    network.table.augmentingPath? start target =
      .ok ((network.augmentingPath? start target).map (List.map Arc.number)) := by
  obtain ⟨sweep, searched, parents, seen⟩ := network.breadth_first_table start (some target)
  rw [ArcTable.augmentingPath?, searched, ArcTable.ok_bind, seen, augmentingPath?]
  split
  · exact congrArg (· >>= _) (network.trace_path_table parents target)
  · rfl

end Searching

end Residual

end FlowTour
