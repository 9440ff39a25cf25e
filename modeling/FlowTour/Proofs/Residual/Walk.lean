import FlowTour.Residual.Search
import Mathlib.Data.Fintype.Card
import Mathlib.Data.Fintype.Fin

/-!
Walks in a residual network. A walk is a list of arcs of which each begins where the one before it
ends; a route is a walk along arcs with capacity left. A walk that visits no node twice uses no link
twice, in whichever direction. Tracing parents back gives such a walk as soon as every parent arc
comes from a node of a smaller rank.
-/

namespace FlowTour.Residual

variable {n m : Nat} {W : Type} (network : Residual n m W)

def Leads : List (Arc m) → Fin n → Fin n → Prop
  | [], origin, node => origin = node
  | arc :: rest, origin, node => network.tail arc = origin ∧ Leads rest (network.head arc) node

def stops (path : List (Arc m)) (origin : Fin n) : List (Fin n) := origin :: path.map network.head

@[simp] theorem tail_twin (arc : Arc m) : network.tail arc.twin = network.head arc := by
  cases h : arc.reversed <;> simp [tail, head, link, Arc.twin, h]

@[simp] theorem head_twin (arc : Arc m) : network.head arc.twin = network.tail arc := by
  cases h : arc.reversed <;> simp [tail, head, link, Arc.twin, h]

theorem eq_or_eq_twin {arc other : Arc m} (same : arc.link = other.link) :
    arc = other ∨ arc = other.twin := by
  cases arc with
  | mk link reversed =>
      cases other with
      | mk otherLink otherReversed =>
          obtain rfl : link = otherLink := same
          cases reversed <;> cases otherReversed <;> simp [Arc.twin]

section Leads

variable {network} {path first second : List (Arc m)} {origin node : Fin n}

theorem leads_append :
    network.Leads (first ++ second) origin node ↔
      ∃ middle, network.Leads first origin middle ∧ network.Leads second middle node := by
  induction first generalizing origin with
  | nil => simp [Leads]
  | cons arc rest induction => simp [Leads, induction, and_assoc]

theorem leads_concat {arc : Arc m} :
    network.Leads (path ++ [arc]) origin node ↔
      network.Leads path origin (network.tail arc) ∧ network.head arc = node := by
  simp [leads_append, Leads]

theorem last_mem_stops (leads : network.Leads path origin node) :
    node ∈ network.stops path origin := by
  induction path generalizing origin with
  | nil => simpa [stops] using leads.symm
  | cons arc rest induction => exact List.mem_cons_of_mem _ (induction leads.2)

end Leads

section Simple

variable {network} {path : List (Arc m)} {origin node : Fin n}

theorem head_ne_origin (simple : (network.stops path origin).Nodup) {arc : Arc m}
    (member : arc ∈ path) : network.head arc ≠ origin := by
  intro same
  exact (List.nodup_cons.mp simple).1 (same ▸ List.mem_map_of_mem member)

theorem tail_ne_last (leads : network.Leads path origin node)
    (simple : (network.stops path origin).Nodup) {arc : Arc m} (member : arc ∈ path) :
    network.tail arc ≠ node := by
  induction path generalizing origin with
  | nil => simp at member
  | cons first rest induction =>
      have parts := List.nodup_cons.mp simple
      rcases List.mem_cons.mp member with rfl | later
      · intro same
        apply parts.1
        rw [← leads.1, same]
        exact last_mem_stops leads.2
      · exact induction leads.2 parts.2 later

theorem links_nodup (leads : network.Leads path origin node)
    (simple : (network.stops path origin).Nodup) : (path.map Arc.link).Nodup := by
  induction path generalizing origin with
  | nil => simp
  | cons arc rest induction =>
      have parts := List.nodup_cons.mp simple
      refine List.nodup_cons.mpr ⟨?_, induction leads.2 parts.2⟩
      intro repeated
      obtain ⟨other, later, same⟩ := List.mem_map.mp repeated
      -- The link comes up again in the same direction, or the walk turns back to its origin.
      rcases eq_or_eq_twin same with rfl | rfl
      · exact head_ne_origin parts.2 later rfl
      · apply parts.1
        rw [← leads.1, ← head_twin]
        exact List.mem_cons_of_mem _ (List.mem_map_of_mem later)

theorem twin_not_mem_of_simple (leads : network.Leads path origin node)
    (simple : (network.stops path origin).Nodup) {arc : Arc m} (member : arc ∈ path) :
    arc.twin ∉ path := by
  intro back
  have same : arc = arc.twin := List.inj_on_of_nodup_map (links_nodup leads simple) member back rfl
  have turned : arc.reversed = !arc.reversed := congrArg Arc.reversed same
  simp at turned

theorem length_lt_of_simple (simple : (network.stops path origin).Nodup) : path.length < n := by
  have bound := simple.length_le_card
  simp only [stops, List.length_cons, List.length_map, Fintype.card_fin] at bound
  omega

theorem length_add_two_le (simple : (network.stops path origin).Nodup)
    (avoids : node ∉ network.stops path origin) : path.length + 2 ≤ n := by
  have longer : (node :: network.stops path origin).Nodup := List.nodup_cons.mpr ⟨avoids, simple⟩
  have bound := longer.length_le_card
  simp only [stops, List.length_cons, List.length_map, Fintype.card_fin] at bound
  omega

end Simple

section Trace

variable {network} {parent : Fin n → Option (Arc m)} {known : Fin n → Prop} {rank : Fin n → Nat}
  {root node : Fin n} {path : List (Arc m)}

/-- Going back from a node along parent arcs ends at the root, which has no parent. The path lists what
was passed on the way, in the order from the root. -/
inductive Retraced (network : Residual n m W) (parent : Fin n → Option (Arc m)) (root : Fin n) :
    List (Arc m) → Fin n → Prop
  | root (parentless : parent root = none) : Retraced network parent root [] root
  | back {path : List (Arc m)} {node : Fin n} {arc : Arc m} (found : parent node = some arc)
      (earlier : Retraced network parent root path (network.tail arc)) :
      Retraced network parent root (path ++ [arc]) node

theorem Retraced.trace_back_eq (retraced : Retraced network parent root path node) {fuel : Nat}
    (enough : path.length ≤ fuel) (onward : List (Arc m)) :
    traceBack network parent fuel node onward = path ++ onward := by
  induction retraced generalizing fuel onward with
  | root parentless =>
      cases fuel with
      | zero => rfl
      | succ fuel => simp only [traceBack, parentless, List.nil_append]
  | @back path node arc found earlier induction =>
      rw [List.length_append, List.length_singleton] at enough
      cases fuel with
      | zero => omega
      | succ fuel =>
          simp only [traceBack, found]
          rw [induction (by omega), List.append_assoc, List.singleton_append]

/-- Parent arcs of the known nodes lead back to the root through known nodes of smaller ranks. -/
structure Rooted (network : Residual n m W) (parent : Fin n → Option (Arc m)) (root : Fin n)
    (known : Fin n → Prop) (rank : Fin n → Nat) : Prop where
  of_none : ∀ node, known node → parent node = none → node = root
  head_eq : ∀ node arc, known node → parent node = some arc → network.head arc = node
  known_tail : ∀ node arc, known node → parent node = some arc → known (network.tail arc)
  rank_lt : ∀ node arc, known node → parent node = some arc →
    rank (network.tail arc) < rank node

/-- What tracing back from a node finds. -/
structure Trace (network : Residual n m W) (parent : Fin n → Option (Arc m)) (root : Fin n)
    (known : Fin n → Prop) (rank : Fin n → Nat) (path : List (Arc m)) (node : Fin n) : Prop where
  retraced : Retraced network parent root path node
  leads : network.Leads path root node
  simple : (network.stops path root).Nodup
  parents : ∀ arc ∈ path, known (network.head arc) ∧ parent (network.head arc) = some arc
  rank_le : ∀ stop ∈ network.stops path root, rank stop ≤ rank node

theorem Trace.concat (rooted : Rooted network parent root known rank) {arc : Arc m}
    (isKnown : known node) (found : parent node = some arc)
    (earlier : Trace network parent root known rank path (network.tail arc)) :
    Trace network parent root known rank (path ++ [arc]) node := by
  have lower := rooted.rank_lt node arc isKnown found
  have ends := rooted.head_eq node arc isKnown found
  have stopsEq : network.stops (path ++ [arc]) root = network.stops path root ++ [node] := by
    simp [stops, ends]
  refine ⟨.back found earlier.retraced, leads_concat.mpr ⟨earlier.leads, ends⟩, ?_, ?_, ?_⟩
  · rw [stopsEq, List.nodup_append]
    refine ⟨earlier.simple, by simp, ?_⟩
    intro stop member other here same
    have bound := earlier.rank_le stop member
    rw [same, List.mem_singleton.mp here] at bound
    omega
  · intro other member
    rcases List.mem_append.mp member with member | member
    · exact earlier.parents other member
    · rw [List.mem_singleton.mp member, ends]
      exact ⟨isKnown, found⟩
  · intro stop member
    rw [stopsEq] at member
    rcases List.mem_append.mp member with member | member
    · exact (earlier.rank_le stop member).trans lower.le
    · rw [List.mem_singleton.mp member]

/-- The ranks fall on the way back, so it ends, and that can only be at the root. -/
theorem Rooted.exists_trace (rooted : Rooted network parent root known rank) (isKnown : known node) :
    ∃ path, Trace network parent root known rank path node := by
  induction place : rank node using Nat.strongRecOn generalizing node with
  | ind place induction =>
      cases found : parent node with
      | none =>
          obtain rfl := rooted.of_none node isKnown found
          exact ⟨[], .root found, rfl, by simp [stops], by simp, by simp [stops]⟩
      | some arc =>
          have lower := rooted.rank_lt node arc isKnown found
          obtain ⟨path, earlier⟩ := induction (rank (network.tail arc)) (place ▸ lower)
            (rooted.known_tail node arc isKnown found) rfl
          exact ⟨path ++ [arc], earlier.concat rooted isKnown found⟩

theorem trace_path_traced (rooted : Rooted network parent root known rank) (isKnown : known node) :
    Trace network parent root known rank (network.tracePath parent node) node := by
  obtain ⟨path, trace⟩ := rooted.exists_trace isKnown
  have short := length_lt_of_simple trace.simple
  rw [tracePath, trace.retraced.trace_back_eq short.le, List.append_nil]
  exact trace

end Trace

section Routes

variable [Weight W]

/-- A walk along arcs that have capacity left. -/
structure Route (path : List (Arc m)) (origin node : Fin n) : Prop where
  leads : network.Leads path origin node
  usable : ∀ arc ∈ path, network.hasCapacity arc = true

/-- Some route leads from the origin to the node. -/
def Reaches (origin node : Fin n) : Prop := ∃ path, network.Route path origin node

variable {network} {path first second : List (Arc m)} {origin node : Fin n}

theorem Route.append {middle : Fin n} (early : network.Route first origin middle)
    (late : network.Route second middle node) : network.Route (first ++ second) origin node where
  leads := leads_append.mpr ⟨middle, early.leads, late.leads⟩
  usable arc member := by
    rcases List.mem_append.mp member with member | member
    · exact early.usable arc member
    · exact late.usable arc member

theorem Route.split (route : network.Route (first ++ second) origin node) :
    ∃ middle, network.Route first origin middle ∧ network.Route second middle node := by
  obtain ⟨middle, early, late⟩ := leads_append.mp route.leads
  refine ⟨middle, ⟨early, ?_⟩, ⟨late, ?_⟩⟩
  · intro arc member
    exact route.usable arc (List.mem_append_left _ member)
  · intro arc member
    exact route.usable arc (List.mem_append_right _ member)

theorem route_single {arc : Arc m} (usable : network.hasCapacity arc = true) :
    network.Route [arc] (network.tail arc) (network.head arc) where
  leads := ⟨rfl, rfl⟩
  usable := by simpa using usable

theorem Route.around {arc : Arc m} (route : network.Route path origin node) (member : arc ∈ path) :
    ∃ before after, path = before ++ arc :: after ∧
      network.Route before origin (network.tail arc) ∧
        network.Route after (network.head arc) node := by
  obtain ⟨before, after, rfl⟩ := List.append_of_mem member
  obtain ⟨middle, early, late⟩ := route.split
  obtain ⟨here, onward⟩ := late.leads
  refine ⟨before, after, rfl, here ▸ early, onward, ?_⟩
  intro other later
  exact late.usable other (List.mem_cons_of_mem _ later)

/-- What a search promises of the path traced back from a node: going back along the parents ends at the
start, and the arcs on the way are a route from there that visits no node twice. -/
structure TracesBack (network : Residual n m W) (parent : Fin n → Option (Arc m)) (start node : Fin n) :
    Prop where
  retraced : Retraced network parent start (network.tracePath parent node) node
  route : network.Route (network.tracePath parent node) start node
  simple : (network.stops (network.tracePath parent node) start).Nodup
  untwinned : ∀ arc ∈ network.tracePath parent node, arc.twin ∉ network.tracePath parent node

theorem Rooted.traces_back {parent : Fin n → Option (Arc m)} {known : Fin n → Prop}
    {rank : Fin n → Nat} {start : Fin n} (rooted : Rooted network parent start known rank)
    (usable : ∀ node arc, known node → parent node = some arc → network.hasCapacity arc = true)
    (isKnown : known node) : TracesBack network parent start node := by
  have trace := trace_path_traced rooted isKnown
  refine ⟨trace.retraced, ⟨trace.leads, fun arc member => ?_⟩, trace.simple,
    fun arc => twin_not_mem_of_simple trace.leads trace.simple⟩
  obtain ⟨headKnown, found⟩ := trace.parents arc member
  exact usable (network.head arc) arc headKnown found

end Routes

end FlowTour.Residual
