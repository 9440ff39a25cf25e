import FlowTour.Proofs.Residual.Walk
import FlowTour.Proofs.Table

/-!
What a breadth-first search finds. While it runs, the marked nodes lie in layers: a node is one layer
behind the node it was marked from, the queue is ordered by layers and spans at most two of them. So
the nodes marked in the end are those that routes lead to, and the path traced back to a target is as
short as any route.
-/

namespace FlowTour.Residual

open Table

variable {n m : Nat} {W : Type} [Weight W] (network : Residual n m W)

def Sweep.Seen (sweep : Sweep n m) (node : Fin n) : Prop := (sweep.marks.get node).isSeen = true

theorem Mark.arc?_eq_some_iff {mark : Mark m} {arc : Arc m} : mark.arc? = some arc ↔ mark = .via arc := by
  cases mark <;> simp [arc?]

omit [Weight W] in
theorem mem_arcs_from {node : Fin n} {arc : Arc m} :
    arc ∈ network.arcsFrom node ↔ network.tail arc = node := by
  obtain ⟨index, reversed⟩ := arc
  simp only [arcsFrom, List.mem_flatMap, List.mem_finRange, true_and, List.mem_append]
  cases reversed
  case false =>
    constructor
    · rintro ⟨other, here | here⟩
      · split at here
        · obtain ⟨rfl, -⟩ := by simpa using here
          assumption
        · simp at here
      · split at here <;> simp at here
    · intro same
      exact ⟨index, .inl (by simp [show (network.links.get index).tail = node from same])⟩
  case true =>
    constructor
    · rintro ⟨other, here | here⟩
      · split at here <;> simp at here
      · split at here
        · obtain ⟨rfl, -⟩ := by simpa using here
          assumption
        · simp at here
    · intro same
      exact ⟨index, .inr (by simp [show (network.links.get index).head = node from same])⟩

/-- What scanning some arcs adds to a sweep: `fresh` are the newly marked nodes. -/
structure Sweep.Scanned (arcs : List (Arc m)) (before after : Sweep n m) (fresh : List (Fin n)) :
    Prop where
  queue_eq : after.queue = before.queue ++ fresh
  nodup : fresh.Nodup
  unseen : ∀ node ∈ fresh, ¬before.Seen node
  marked : ∀ node ∈ fresh, ∃ arc ∈ arcs, network.head arc = node ∧
    network.hasCapacity arc = true ∧ after.marks.get node = .via arc
  others : ∀ node, node ∉ fresh → after.marks.get node = before.marks.get node
  complete : ∀ arc ∈ arcs, network.hasCapacity arc = true → after.Seen (network.head arc)

theorem Sweep.Scanned.seen_iff {arcs : List (Arc m)} {before after : Sweep n m}
    {fresh : List (Fin n)} (scanned : Scanned network arcs before after fresh) (node : Fin n) :
    after.Seen node ↔ before.Seen node ∨ node ∈ fresh := by
  by_cases member : node ∈ fresh
  · obtain ⟨arc, -, -, -, mark⟩ := scanned.marked node member
    simp [Seen, mark, Mark.isSeen, member]
  · simp [Seen, scanned.others node member, member]

theorem Sweep.Scanned.skip {arc : Arc m} {rest : List (Arc m)} {before after : Sweep n m}
    {fresh : List (Fin n)} (scanned : Scanned network rest before after fresh)
    (useless : network.hasCapacity arc = true → before.Seen (network.head arc)) :
    Scanned network (arc :: rest) before after fresh := by
  refine ⟨scanned.queue_eq, scanned.nodup, scanned.unseen, ?_, scanned.others, ?_⟩
  · intro node member
    obtain ⟨found, later, facts⟩ := scanned.marked node member
    exact ⟨found, List.mem_cons_of_mem _ later, facts⟩
  · intro other member usable
    rcases List.mem_cons.mp member with rfl | later
    · exact (scanned.seen_iff network _).mpr (.inl (useless usable))
    · exact scanned.complete other later usable

theorem Sweep.Scanned.mark {arc : Arc m} {rest : List (Arc m)} {before after : Sweep n m}
    {fresh : List (Fin n)} (usable : network.hasCapacity arc = true)
    (unseen : ¬before.Seen (network.head arc))
    (scanned : Scanned network rest
      { marks := before.marks.set (network.head arc).val (.via arc) (network.head arc).isLt
        queue := before.queue ++ [network.head arc] } after fresh) :
    Scanned network (arc :: rest) before after (network.head arc :: fresh) := by
  have seenAfter := scanned.seen_iff
  have headNotFresh : network.head arc ∉ fresh := by
    intro member
    apply scanned.unseen _ member
    simp [Seen, get_set, Mark.isSeen]
  have kept : ∀ node, network.head arc ≠ node → (before.marks.set (network.head arc).val (.via arc)
      (network.head arc).isLt).get node = before.marks.get node := by
    intro node different
    simp [get_set, different]
  refine ⟨?_, ?_, ?_, ?_, ?_, ?_⟩
  · rw [scanned.queue_eq, List.append_assoc, List.singleton_append]
  · exact List.nodup_cons.mpr ⟨headNotFresh, scanned.nodup⟩
  · intro node member
    rcases List.mem_cons.mp member with rfl | later
    · exact unseen
    · intro seen
      apply scanned.unseen node later
      rw [Seen, kept node (by rintro rfl; exact headNotFresh later)]
      exact seen
  · intro node member
    rcases List.mem_cons.mp member with rfl | later
    · refine ⟨arc, List.mem_cons_self .., rfl, usable, ?_⟩
      simp [scanned.others _ headNotFresh, get_set]
    · obtain ⟨found, further, facts⟩ := scanned.marked node later
      exact ⟨found, List.mem_cons_of_mem _ further, facts⟩
  · intro node absent
    simp only [List.mem_cons, not_or] at absent
    rw [scanned.others node absent.2, kept node (Ne.symm absent.1)]
  · intro other member otherUsable
    rcases List.mem_cons.mp member with rfl | later
    · refine (seenAfter _).mpr (.inl ?_)
      simp [Seen, get_set, Mark.isSeen]
    · exact scanned.complete other later otherUsable

theorem Sweep.scan (arcs : List (Arc m)) (sweep : Sweep n m) :
    ∃ fresh, Scanned network arcs sweep (arcs.foldl (Sweep.follow network) sweep) fresh := by
  induction arcs generalizing sweep with
  | nil => exact ⟨[], by simp, by simp, by simp, by simp, by simp, by simp⟩
  | cons arc rest induction =>
      obtain ⟨fresh, scanned⟩ := induction (sweep.follow network arc)
      rw [List.foldl_cons]
      by_cases skipped : (sweep.marks.get (network.head arc)).isSeen || !network.hasCapacity arc
      · have same : sweep.follow network arc = sweep := by simp [follow, skipped]
        rw [same] at scanned ⊢
        refine ⟨fresh, scanned.skip network ?_⟩
        intro usable
        simpa [usable, Seen] using skipped
      · have taken : sweep.follow network arc =
            { marks := sweep.marks.set (network.head arc).val (.via arc) (network.head arc).isLt
              queue := sweep.queue ++ [network.head arc] } := by
          simp [follow, skipped]
        rw [taken] at scanned ⊢
        simp only [Bool.or_eq_true, not_or, Bool.not_eq_true', Bool.not_eq_false] at skipped
        exact ⟨network.head arc :: fresh, scanned.mark network skipped.2 skipped.1⟩

/-- The state of a search from `start`, with the layer of every marked node. -/
structure Layered (start : Fin n) (depth : Fin n → Nat) (sweep : Sweep n m) : Prop where
  start_mark : sweep.marks.get start = .start
  start_depth : depth start = 0
  only_start : ∀ node, sweep.marks.get node = .start → node = start
  parent : ∀ node arc, sweep.marks.get node = .via arc →
    network.head arc = node ∧ network.hasCapacity arc = true ∧ sweep.Seen (network.tail arc) ∧
      depth node = depth (network.tail arc) + 1
  queue_seen : ∀ node ∈ sweep.queue, sweep.Seen node
  queue_nodup : sweep.queue.Nodup
  closed : ∀ arc, sweep.Seen (network.tail arc) → network.tail arc ∉ sweep.queue →
    network.hasCapacity arc = true →
      sweep.Seen (network.head arc) ∧ depth (network.head arc) ≤ depth (network.tail arc) + 1
  sorted : sweep.queue.Pairwise fun earlier later => depth earlier ≤ depth later
  span : ∀ first rest, sweep.queue = first :: rest → ∀ node, sweep.Seen node →
    depth node ≤ depth first + 1

theorem Layered.start_seen {start : Fin n} {depth : Fin n → Nat} {sweep : Sweep n m}
    (layered : Layered network start depth sweep) : sweep.Seen start := by
  rw [Sweep.Seen, layered.start_mark]
  rfl

theorem Layered.initial (start : Fin n) :
    Layered network start (fun _ => 0)
      { marks := (Vector.replicate n Mark.unseen).set start.val .start start.isLt
        queue := [start] } := by
  have mark : ∀ node, ((Vector.replicate n (Mark.unseen (m := m))).set start.val .start
      start.isLt).get node = if start = node then .start else .unseen := by
    intro node
    rw [get_set, get_replicate]
  have seen : ∀ node, Sweep.Seen (m := m)
      { marks := (Vector.replicate n Mark.unseen).set start.val .start start.isLt
        queue := [start] } node ↔ start = node := by
    intro node
    rw [Sweep.Seen, mark]
    split <;> simp_all [Mark.isSeen]
  refine ⟨by rw [mark, if_pos rfl], rfl, ?_, ?_, ?_, by simp, ?_, by simp, by simp⟩
  · intro node marked
    rw [mark] at marked
    split at marked
    · next same => exact same.symm
    · cases marked
  · intro node arc marked
    rw [mark] at marked
    split at marked <;> cases marked
  · intro node member
    exact (seen node).mpr (List.mem_singleton.mp member).symm
  · intro arc isSeen notQueued
    exact absurd (List.mem_singleton.mpr ((seen _).mp isSeen).symm) notQueued

section Step

variable {start node : Fin n} {rest fresh : List (Fin n)} {depth : Fin n → Nat}
  {sweep after : Sweep n m}

/-- The layers after a node is taken off the queue: what it marks lies one layer behind it. -/
def deepened (depth : Fin n → Nat) (node : Fin n) (fresh : List (Fin n)) (other : Fin n) : Nat :=
  if fresh.contains other then depth node + 1 else depth other

theorem deepened_fresh {other : Fin n} (member : other ∈ fresh) :
    deepened depth node fresh other = depth node + 1 :=
  if_pos (List.contains_iff_mem.mpr member)

theorem deepened_old {other : Fin n} (absent : other ∉ fresh) :
    deepened depth node fresh other = depth other :=
  if_neg (mt List.contains_iff_mem.mp absent)

variable {network} (layered : Layered network start depth sweep)
  (front : sweep.queue = node :: rest)
  (scanned : Sweep.Scanned network (network.arcsFrom node) { sweep with queue := rest } after fresh)

include scanned in
theorem Sweep.Scanned.seen_step_iff (other : Fin n) :
    after.Seen other ↔ sweep.Seen other ∨ other ∈ fresh :=
  scanned.seen_iff network other

include scanned in
theorem Sweep.Scanned.deepened_seen {other : Fin n} (seen : sweep.Seen other) :
    deepened depth node fresh other = depth other :=
  deepened_old fun member => scanned.unseen other member seen

include layered front in
theorem Layered.front_seen : sweep.Seen node := by
  apply layered.queue_seen
  simp [front]

include layered front in
theorem Layered.rest_seen {other : Fin n} (member : other ∈ rest) : sweep.Seen other := by
  apply layered.queue_seen
  simp [front, member]

include layered front scanned in
theorem Layered.step_parent {other : Fin n} {arc : Arc m}
    (marked : after.marks.get other = .via arc) :
    network.head arc = other ∧ network.hasCapacity arc = true ∧ after.Seen (network.tail arc) ∧
      deepened depth node fresh other = deepened depth node fresh (network.tail arc) + 1 := by
  have nodeSeen := layered.front_seen front
  by_cases member : other ∈ fresh
  · obtain ⟨found, leaves, ends, usable, mark⟩ := scanned.marked other member
    rw [mark] at marked
    cases marked
    have origin := (network.mem_arcs_from).mp leaves
    refine ⟨ends, usable, (scanned.seen_step_iff _).mpr (.inl (origin ▸ nodeSeen)), ?_⟩
    rw [deepened_fresh member, origin, scanned.deepened_seen nodeSeen]
  · rw [scanned.others other member] at marked
    obtain ⟨ends, usable, tailSeen, layer⟩ := layered.parent other arc marked
    refine ⟨ends, usable, (scanned.seen_step_iff _).mpr (.inl tailSeen), ?_⟩
    rw [deepened_old member, scanned.deepened_seen tailSeen, layer]

include layered front scanned in
theorem Layered.step_closed {arc : Arc m} (tailSeen : after.Seen (network.tail arc))
    (notQueued : network.tail arc ∉ rest ++ fresh) (usable : network.hasCapacity arc = true) :
    after.Seen (network.head arc) ∧ deepened depth node fresh (network.head arc) ≤
      deepened depth node fresh (network.tail arc) + 1 := by
  rw [List.mem_append, not_or] at notQueued
  have tailOld : sweep.Seen (network.tail arc) :=
    ((scanned.seen_step_iff _).mp tailSeen).resolve_right notQueued.2
  rw [deepened_old notQueued.2]
  by_cases here : network.tail arc = node
  · have headSeen := scanned.complete arc (network.mem_arcs_from.mpr here) usable
    refine ⟨headSeen, ?_⟩
    rw [here]
    by_cases member : network.head arc ∈ fresh
    · exact (deepened_fresh member).le
    · rw [deepened_old member]
      exact layered.span node rest front _
        (((scanned.seen_step_iff _).mp headSeen).resolve_right member)
  · have notInQueue : network.tail arc ∉ sweep.queue := by simp [front, here, notQueued.1]
    obtain ⟨headSeen, bound⟩ := layered.closed arc tailOld notInQueue usable
    exact ⟨(scanned.seen_step_iff _).mpr (.inl headSeen), by rwa [scanned.deepened_seen headSeen]⟩

include layered front scanned in
theorem Layered.step_sorted : (rest ++ fresh).Pairwise fun earlier later =>
    deepened depth node fresh earlier ≤ deepened depth node fresh later := by
  have sorted := layered.sorted
  rw [front, List.pairwise_cons] at sorted
  rw [List.pairwise_append]
  refine ⟨?_, ?_, ?_⟩
  · refine sorted.2.imp_of_mem ?_
    intro earlier later memberEarlier memberLater bound
    rwa [scanned.deepened_seen (layered.rest_seen front memberEarlier),
      scanned.deepened_seen (layered.rest_seen front memberLater)]
  · refine List.pairwise_of_forall_mem_list ?_
    intro earlier memberEarlier later memberLater
    rw [deepened_fresh memberEarlier, deepened_fresh memberLater]
  · intro earlier memberEarlier later memberLater
    have seen := layered.rest_seen front memberEarlier
    rw [scanned.deepened_seen seen, deepened_fresh memberLater]
    exact layered.span node rest front _ seen

include layered front scanned in
theorem Layered.step_span {first other : Fin n} (member : first ∈ rest ++ fresh)
    (seen : after.Seen other) :
    deepened depth node fresh other ≤ deepened depth node fresh first + 1 := by
  have sorted := layered.sorted
  rw [front, List.pairwise_cons] at sorted
  have firstDepth : depth node ≤ deepened depth node fresh first := by
    by_cases fromFresh : first ∈ fresh
    · rw [deepened_fresh fromFresh]
      omega
    · rw [deepened_old fromFresh]
      exact sorted.1 first ((List.mem_append.mp member).resolve_right fromFresh)
  by_cases isFresh : other ∈ fresh
  · rw [deepened_fresh isFresh]
    omega
  · rw [deepened_old isFresh]
    have near := layered.span node rest front other
      (((scanned.seen_step_iff other).mp seen).resolve_right isFresh)
    omega

include layered front scanned in
/-- Taking one node off the queue keeps the layers. -/
theorem Layered.step : Layered network start (deepened depth node fresh) after := by
  have startSeen := layered.start_seen
  have queueNodup := layered.queue_nodup
  rw [front, List.nodup_cons] at queueNodup
  have queueEq : after.queue = rest ++ fresh := scanned.queue_eq
  refine ⟨?_, ?_, ?_, fun other arc => layered.step_parent front scanned, ?_, ?_, ?_, ?_, ?_⟩
  · rw [scanned.others start fun member => scanned.unseen start member startSeen]
    exact layered.start_mark
  · rw [scanned.deepened_seen startSeen, layered.start_depth]
  · intro other marked
    by_cases member : other ∈ fresh
    · obtain ⟨arc, -, -, -, mark⟩ := scanned.marked other member
      rw [mark] at marked
      cases marked
    · rw [scanned.others other member] at marked
      exact layered.only_start other marked
  · intro other member
    rw [queueEq, List.mem_append] at member
    exact (scanned.seen_step_iff other).mpr (member.imp_left (layered.rest_seen front))
  · rw [queueEq, List.nodup_append]
    refine ⟨queueNodup.2, scanned.nodup, ?_⟩
    rintro other member _ memberFresh rfl
    exact scanned.unseen other memberFresh (layered.rest_seen front member)
  · intro arc tailSeen notQueued usable
    exact layered.step_closed front scanned tailSeen (queueEq ▸ notQueued) usable
  · rw [queueEq]
    exact layered.step_sorted front scanned
  · intro first others newFront other seen
    apply layered.step_span front scanned _ seen
    rw [← queueEq, newFront]
    exact List.mem_cons_self ..

end Step

/-- How many nodes the queue may still give: those in it and those not marked yet. -/
def Sweep.pending (sweep : Sweep n m) : Nat :=
  sweep.queue.length +
    (Finset.univ.filter fun node => (sweep.marks.get node).isSeen = false).card

theorem Sweep.Scanned.pending_eq {arcs : List (Arc m)} {before after : Sweep n m}
    {fresh : List (Fin n)} (scanned : Scanned network arcs before after fresh) :
    after.pending = before.pending := by
  have unseenBefore : (Finset.univ.filter fun node => (before.marks.get node).isSeen = false) =
      (Finset.univ.filter fun node => (after.marks.get node).isSeen = false) ∪ fresh.toFinset := by
    ext node
    have iff := scanned.seen_iff network node
    have unseen := scanned.unseen node
    simp only [Seen, Bool.eq_false_iff, ne_eq, Finset.mem_filter, Finset.mem_univ, true_and,
      Finset.mem_union, List.mem_toFinset] at *
    tauto
  have apart : Disjoint (Finset.univ.filter fun node => (after.marks.get node).isSeen = false)
      fresh.toFinset := by
    rw [Finset.disjoint_left]
    intro node unseenAfter member
    have seen := (scanned.seen_iff network node).mpr (.inr (List.mem_toFinset.mp member))
    rw [Seen, (Finset.mem_filter.mp unseenAfter).2] at seen
    cases seen
  rw [pending, pending, unseenBefore, Finset.card_union_of_disjoint apart, scanned.queue_eq,
    List.toFinset_card_of_nodup scanned.nodup, List.length_append]
  omega

/-- A sweep with fuel for all pending nodes stops with an empty queue or at its target. -/
theorem Layered.run {start : Fin n} (target : Option (Fin n)) {fuel : Nat} {depth : Fin n → Nat}
    {sweep : Sweep n m} (layered : Layered network start depth sweep)
    (enough : sweep.pending ≤ fuel) :
    ∃ depth, Layered network start depth (Sweep.run network target fuel sweep) ∧
      ((Sweep.run network target fuel sweep).queue = [] ∨
        ∃ node rest, target = some node ∧
          (Sweep.run network target fuel sweep).queue = node :: rest) := by
  induction fuel generalizing depth sweep with
  | zero =>
      refine ⟨depth, layered, .inl ?_⟩
      have none : sweep.queue.length = 0 := by
        unfold Sweep.pending at enough
        omega
      exact List.length_eq_zero_iff.mp none
  | succ fuel induction =>
      cases front : sweep.queue with
      | nil =>
          have same : Sweep.run network target (fuel + 1) sweep = sweep := by
            simp [Sweep.run, front]
          rw [same]
          exact ⟨depth, layered, .inl front⟩
      | cons node rest =>
          by_cases reached : target = some node
          · have same : Sweep.run network target (fuel + 1) sweep = sweep := by
              simp [Sweep.run, front, reached]
            rw [same]
            exact ⟨depth, layered, .inr ⟨node, rest, reached, front⟩⟩
          · obtain ⟨fresh, scanned⟩ := Sweep.scan network (network.arcsFrom node)
              { sweep with queue := rest }
            have next := layered.step front scanned
            have fewer := scanned.pending_eq network
            have same : Sweep.run network target (fuel + 1) sweep =
                Sweep.run network target fuel ((network.arcsFrom node).foldl
                  (Sweep.follow network) { sweep with queue := rest }) := by
              simp [Sweep.run, front, reached]
            rw [same]
            apply induction next
            rw [fewer]
            simp only [Sweep.pending, front, List.length_cons] at enough ⊢
            omega

theorem Layered.route_bound {start origin node : Fin n} {depth : Fin n → Nat} {sweep : Sweep n m}
    {path : List (Arc m)} (layered : Layered network start depth sweep)
    (route : network.Route path origin node) (seen : sweep.Seen origin) :
    (sweep.Seen node ∧ node ∉ sweep.queue ∧ depth node ≤ depth origin + path.length) ∨
      ∃ waiting ∈ sweep.queue, depth waiting ≤ depth origin + path.length := by
  by_cases waits : origin ∈ sweep.queue
  · exact .inr ⟨origin, waits, by omega⟩
  induction path generalizing origin with
  | nil =>
      obtain rfl : origin = node := route.leads
      exact .inl ⟨seen, waits, by omega⟩
  | cons arc rest induction =>
      obtain ⟨rfl, onward⟩ := route.leads
      have usable := route.usable arc (List.mem_cons_self ..)
      have later : network.Route rest (network.head arc) node :=
        ⟨onward, fun other member => route.usable other (List.mem_cons_of_mem _ member)⟩
      obtain ⟨headSeen, bound⟩ := layered.closed arc seen waits usable
      rw [List.length_cons]
      by_cases headWaits : network.head arc ∈ sweep.queue
      · exact .inr ⟨network.head arc, headWaits, by omega⟩
      · rcases induction later headSeen headWaits with ⟨nodeSeen, free, near⟩ | ⟨other, member, near⟩
        · exact .inl ⟨nodeSeen, free, by omega⟩
        · exact .inr ⟨other, member, by omega⟩

theorem Layered.rooted {start : Fin n} {depth : Fin n → Nat} {sweep : Sweep n m}
    (layered : Layered network start depth sweep) :
    Rooted network (fun node => (sweep.marks.get node).arc?) start sweep.Seen depth where
  of_none node seen isNone := by
    cases mark : sweep.marks.get node with
    | unseen => simp [Sweep.Seen, mark, Mark.isSeen] at seen
    | start => exact layered.only_start node mark
    | via arc => simp [mark, Mark.arc?] at isNone
  head_eq node arc _ found := (layered.parent node arc (Mark.arc?_eq_some_iff.mp found)).1
  known_tail node arc _ found := (layered.parent node arc (Mark.arc?_eq_some_iff.mp found)).2.2.1
  rank_lt node arc _ found := by
    have layer := (layered.parent node arc (Mark.arc?_eq_some_iff.mp found)).2.2.2
    omega

theorem Layered.traces_back {start node : Fin n} {depth : Fin n → Nat} {sweep : Sweep n m}
    (layered : Layered network start depth sweep) (seen : sweep.Seen node) :
    TracesBack network (fun node => (sweep.marks.get node).arc?) start node :=
  (layered.rooted network).traces_back
    (fun node arc _ found => (layered.parent node arc (Mark.arc?_eq_some_iff.mp found)).2.1) seen

theorem Layered.depth_eq {start node : Fin n} {depth : Fin n → Nat} {sweep : Sweep n m}
    {path : List (Arc m)} (layered : Layered network start depth sweep)
    (retraced : Retraced network (fun node => (sweep.marks.get node).arc?) start path node) :
    depth node = path.length := by
  induction retraced with
  | root _ => exact layered.start_depth
  | @back path node arc found earlier induction =>
      have layer := (layered.parent node arc (Mark.arc?_eq_some_iff.mp found)).2.2.2
      rw [layer, induction, List.length_append, List.length_singleton]

theorem Layered.ended_bound {start node : Fin n} {target : Option (Fin n)} {depth : Fin n → Nat}
    {sweep : Sweep n m} {path : List (Arc m)} (layered : Layered network start depth sweep)
    (stopped : sweep.queue = [] ∨ ∃ node rest, target = some node ∧ sweep.queue = node :: rest)
    (route : network.Route path start node) :
    (sweep.Seen node ∧ depth node ≤ path.length) ∨
      ∃ goal, target = some goal ∧ sweep.Seen goal ∧ depth goal ≤ path.length := by
  have startDepth := layered.start_depth
  rcases layered.route_bound network route layered.start_seen with
    ⟨seen, -, near⟩ | ⟨waiting, member, near⟩
  · exact .inl ⟨seen, by omega⟩
  · rcases stopped with empty | ⟨goal, rest, isTarget, front⟩
    · simp [empty] at member
    · refine .inr ⟨goal, isTarget, layered.queue_seen goal (by simp [front]), ?_⟩
      have sorted := layered.sorted
      rw [front] at sorted member
      -- The queue is in order, so the target in front of it is no farther than what waits.
      rcases List.mem_cons.mp member with rfl | behind
      · omega
      · have := (List.pairwise_cons.mp sorted).1 waiting behind
        omega

/-- The end of a breadth-first search. -/
theorem breadth_first_layered (start : Fin n) (target : Option (Fin n)) :
    ∃ depth sweep, sweep.marks = network.breadthFirst start target ∧
      Layered network start depth sweep ∧
        (sweep.queue = [] ∨ ∃ node rest, target = some node ∧ sweep.queue = node :: rest) := by
  have first := Layered.initial network start
  have enough : Sweep.pending (m := m)
      { marks := (Vector.replicate n Mark.unseen).set start.val .start start.isLt
        queue := [start] } ≤ n := by
    have proper : (Finset.univ.filter fun node => (((Vector.replicate n (Mark.unseen (m := m))).set
        start.val .start start.isLt).get node).isSeen = false).card <
          (Finset.univ : Finset (Fin n)).card := by
      apply Finset.card_lt_card
      rw [Finset.filter_ssubset]
      exact ⟨start, Finset.mem_univ _, by simp [get_set, Mark.isSeen]⟩
    rw [Finset.card_univ, Fintype.card_fin] at proper
    simp only [Sweep.pending, List.length_singleton]
    omega
  obtain ⟨depth, layered, stopped⟩ := first.run network target enough
  exact ⟨depth, _, rfl, layered, stopped⟩

theorem breadth_first_is_seen_iff (start node : Fin n) :
    ((network.breadthFirst start none).get node).isSeen = true ↔ network.Reaches start node := by
  obtain ⟨depth, sweep, same, layered, stopped⟩ := network.breadth_first_layered start none
  rw [← same]
  constructor
  · intro seen
    exact ⟨_, (layered.traces_back network seen).route⟩
  · rintro ⟨path, route⟩
    rcases layered.ended_bound network stopped route with ⟨seen, -⟩ | ⟨goal, isTarget, -⟩
    · exact seen
    · cases isTarget

theorem traces_back_of_is_seen {start node : Fin n} {target : Option (Fin n)}
    (seen : ((network.breadthFirst start target).get node).isSeen = true) :
    TracesBack network (fun node => ((network.breadthFirst start target).get node).arc?) start node := by
  obtain ⟨depth, sweep, same, layered, -⟩ := network.breadth_first_layered start target
  rw [← same] at seen ⊢
  exact layered.traces_back network seen

theorem breadth_first_of_route {start target : Fin n} {other : List (Arc m)}
    (route : network.Route other start target) :
    ((network.breadthFirst start (some target)).get target).isSeen = true ∧
      (network.tracePath (fun node => ((network.breadthFirst start (some target)).get node).arc?)
        target).length ≤ other.length := by
  obtain ⟨depth, sweep, same, layered, stopped⟩ :=
    network.breadth_first_layered start (some target)
  rw [← same]
  obtain ⟨seen, near⟩ : sweep.Seen target ∧ depth target ≤ other.length := by
    rcases layered.ended_bound network stopped route with here | ⟨goal, isTarget, there⟩
    · exact here
    · exact Option.some.inj isTarget ▸ there
  have length := layered.depth_eq network (layered.traces_back network seen).retraced
  exact ⟨seen, length ▸ near⟩

theorem augmenting_path?_eq_none {start target : Fin n}
    (missing : network.augmentingPath? start target = none) : ¬network.Reaches start target := by
  rintro ⟨path, route⟩
  have seen := (network.breadth_first_of_route route).1
  simp [augmentingPath?, seen] at missing

/-- A path that was found is a simple route, and no route to the target is shorter. -/
theorem augmenting_path?_eq_some {start target : Fin n} {path : List (Arc m)}
    (found : network.augmentingPath? start target = some path) :
    network.Route path start target ∧ (network.stops path start).Nodup ∧
      ∀ other, network.Route other start target → path.length ≤ other.length := by
  obtain ⟨seen, rfl⟩ := Option.ite_some_none_eq_some.mp found
  have traces := network.traces_back_of_is_seen seen
  exact ⟨traces.route, traces.simple, fun other route => (network.breadth_first_of_route route).2⟩

end FlowTour.Residual
