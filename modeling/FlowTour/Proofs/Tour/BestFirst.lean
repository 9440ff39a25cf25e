import FlowTour.Proofs.Tour.Answers
import FlowTour.Proofs.Tour.Consistency

/-!
The order in which the search takes paths off its frontier. The heap hands out a path with the smallest
bound, and no longer path has a smaller bound than the one it comes from, so the bounds never decrease
along a run. The best round trip only ever gets shorter, so once a path is discarded all later ones are.
As long as the search runs, every round trip is matched or extends a path on the frontier, so no path
is branched on whose bound exceeds the length of some round trip.
-/

namespace FlowTour.Tour

open IntegerWeight

variable {n : Nat} {W : Type}

section Taking

variable [Weight W] {distances : Distances n W} {start : Fin n} {search next : Search n W}
  {partialTour : Partial n W} {budget : Option Nat} {Cause : Type}

def Search.taken? (search : Search n W) : Option (Partial n W) :=
  if search.stopped then none else (search.frontier.pop? Partial.below).map Prod.fst

/-- The next step branches on this path. -/
structure Search.Expands (search : Search n W) (budget : Option Nat) (partialTour : Partial n W) :
    Prop where
  taken : search.taken? = some partialTour
  beating : search.beats partialTour.bound = true
  unspent : ∀ limit, budget = some limit → search.expansions < limit

/-- The search gets from the one state to the other under this budget. -/
def Leads (Cause : Type) (distances : Distances n W) (start : Fin n) (budget : Option Nat)
    (before after : Search n W) : Prop :=
  Traced.Passes (expand distances start budget :
    Search n W → Traced (Progress W) Cause (Option (Search n W))) before after

theorem Search.taken?_eq_some_iff : search.taken? = some partialTour ↔
    search.stopped = false ∧
      ∃ frontier, search.frontier.pop? Partial.below = some (partialTour, frontier) := by
  unfold Search.taken?
  cases search.stopped <;> simp

theorem Search.mem_of_taken? (taken : search.taken? = some partialTour) :
    partialTour ∈ search.frontier.listed := by
  obtain ⟨-, frontier, popped⟩ := Search.taken?_eq_some_iff.mp taken
  exact (Heap.mem_pop? _ popped).mpr (.inl rfl)

theorem ExpandStep.counted (step : ExpandStep distances start budget search (some next)) :
    (∃ partialTour, search.Expands budget partialTour) ∧
        next.expansions = search.expansions + 1 ∨
      (¬∃ partialTour, search.Expands budget partialTour) ∧
        next.expansions = search.expansions := by
  have same {first second : Partial n W} {frontier : Heap (Partial n W)}
      (popped : search.frontier.pop? Partial.below = some (first, frontier))
      (taken : search.taken? = some second) : first = second := by
    obtain ⟨-, other, again⟩ := Search.taken?_eq_some_iff.mp taken
    exact (Prod.mk.inj (Option.some.inj (popped.symm.trans again))).1
  cases step with
  | discarded running popped notBeating =>
      refine .inr ⟨?_, rfl⟩
      rintro ⟨partialTour, expands⟩
      exact notBeating (same popped expands.taken ▸ expands.beating)
  | cutShort running popped beating limited spent =>
      refine .inr ⟨?_, rfl⟩
      rintro ⟨partialTour, expands⟩
      exact absurd (expands.unspent _ limited) (Nat.not_lt.mpr spent)
  | expanded running popped beating unspent branched =>
      refine .inl ⟨⟨_, ?_, beating, unspent⟩, branched.expansions_eq⟩
      exact Search.taken?_eq_some_iff.mpr ⟨running, _, popped⟩

end Taking

variable [IntegerWeight W] {distances : Distances n W} {ceiling high : W} {start : Fin n}
  {search next before after : Search n W} {partialTour first second other : Partial n W}
  {nodes : List (Fin n)} {node : Fin n} {budget : Option Nat} {floor : Int} {Cause : Type}

section Order

theorem Partial.below_iff : first.below second = true ↔
    toInt second.bound < toInt first.bound ∨
      toInt second.bound = toInt first.bound ∧ first.trail.length ≤ second.trail.length := by
  unfold Partial.below
  split
  · next lower =>
    exact iff_of_true rfl (.inl (lt_iff_to_int_lt.mp lower))
  · next notLower =>
    rw [lt_iff_to_int_lt] at notLower
    split
    · next higher =>
      rw [lt_iff_to_int_lt] at higher
      simp
      omega
    · next notHigher =>
      rw [lt_iff_to_int_lt] at notHigher
      rw [decide_eq_true_iff]
      omega

theorem Partial.ranking : Heap.Ranking (Partial.below : Partial n W → Partial n W → Bool) where
  total first second := by
    rw [Partial.below_iff, Partial.below_iff]
    omega
  trans first second third := by
    rw [Partial.below_iff, Partial.below_iff, Partial.below_iff]
    omega

end Order

section Frontier

/-- A search that has measured its paths and keeps its frontier in order. -/
structure Ranked (distances : Distances n W) (start : Fin n) (search : Search n W) : Prop where
  measured : Measured distances start search
  ordered : Heap.Ordered Partial.below search.frontier.items

def Search.AtLeast (search : Search n W) (floor : Int) : Prop :=
  ∀ partialTour ∈ search.frontier.listed, floor ≤ toInt partialTour.bound

theorem Ranked.at_least (ranked : Ranked distances start search)
    (taken : search.taken? = some partialTour) : search.AtLeast (toInt partialTour.bound) := by
  obtain ⟨-, frontier, popped⟩ := Search.taken?_eq_some_iff.mp taken
  intro other member
  have above := (Heap.pop?_ordered Partial.ranking ranked.ordered popped).2 other member
  rw [Partial.below_iff] at above
  omega

theorem BranchStep.ordered (ordered : Heap.Ordered Partial.below search.frontier.items)
    (step : BranchStep distances start partialTour search node next) :
    Heap.Ordered Partial.below next.frontier.items := by
  cases step with
  | pushed joined unfinished bounded beating =>
      exact Heap.push_ordered Partial.ranking ordered _
  | _ => exact ordered

theorem Ranked.expand (fits : distances.Fits ceiling) (ranked : Ranked distances start search)
    (step : ExpandStep distances start budget search (some next)) : Ranked distances start next := by
  refine ⟨ranked.measured.expand fits step, ?_⟩
  cases step with
  | discarded running popped notBeating =>
      exact (Heap.pop?_ordered Partial.ranking ranked.ordered popped).1
  | cutShort running popped beating limited spent =>
      exact (Heap.pop?_ordered Partial.ranking ranked.ordered popped).1
  | expanded running popped beating unspent branched =>
      apply branched.keep fun later => Heap.Ordered Partial.below later.frontier.items
      · exact fun _ _ _ _ ordered branch => branch.ordered ordered
      · exact (Heap.pop?_ordered Partial.ranking ranked.ordered popped).1

theorem Ranked.initial (fits : distances.Fits ceiling) (several : 1 < n) :
    Ranked distances start (initialSearch distances start) := by
  refine ⟨Measured.initial fits several, ?_⟩
  have empty : Heap.Ordered (Partial.below (n := n) (W := W)) Heap.empty.items :=
    fun place bound => absurd bound (Nat.not_lt_zero place)
  unfold initialSearch Search.beginning
  cases lowerBound? distances start ⟨start, []⟩ 0 with
  | none => exact empty
  | some bound => exact Heap.push_ordered Partial.ranking empty _

/-- A path that is branched on hands its bound on as a floor to all longer ones. -/
theorem BranchStep.at_least (fits : distances.Fits ceiling)
    (entering : distances.FitsEntering high) (promising : Promising distances start partialTour)
    (fresh : node ∈ partialTour.trail.remaining) (below : floor ≤ toInt partialTour.bound)
    (atLeast : search.AtLeast floor)
    (step : BranchStep distances start partialTour search node next) : next.AtLeast floor := by
  cases step with
  | pushed joined unfinished bounded beating =>
      obtain ⟨bound, found, grown⟩ := lower_bound?_le_extend fits entering promising.isPath
        promising.distance_eq fresh joined bounded
      obtain rfl := Option.some.inj (promising.bound_eq.symm.trans found)
      intro other member
      rcases (Heap.mem_push _).mp member with rfl | earlier
      · exact below.trans grown
      · exact atLeast other earlier
  | _ => exact atLeast

theorem ExpandStep.at_least (fits : distances.Fits ceiling)
    (entering : distances.FitsEntering high) (measured : Measured distances start search)
    (atLeast : search.AtLeast floor)
    (step : ExpandStep distances start budget search (some next)) : next.AtLeast floor := by
  have rest {taken : Partial n W} {frontier : Heap (Partial n W)}
      (popped : search.frontier.pop? Partial.below = some (taken, frontier)) :
      ∀ other ∈ frontier.listed, floor ≤ toInt other.bound := by
    intro other member
    exact atLeast other ((Heap.mem_pop? _ popped).mpr (.inr member))
  cases step with
  | discarded running popped notBeating => exact rest popped
  | cutShort running popped beating limited spent => exact rest popped
  | @expanded taken frontier _ running popped beating unspent branched =>
      have member := (Heap.mem_pop? _ popped).mpr (.inl rfl)
      apply branched.keep fun later => later.AtLeast floor
      · intro _ node fresh _ kept branch
        exact branch.at_least fits entering (measured.promising taken member) fresh
          (atLeast taken member) kept
      · exact rest popped

end Frontier

section Runs

theorem Leads.ranked (fits : distances.Fits ceiling) (ranked : Ranked distances start before)
    (leads : Leads Cause distances start budget before after) : Ranked distances start after :=
  leads.keeps (Ranked distances start)
    (fun _ _ kept stepped => kept.expand fits (expand_step_of_expand stepped)) ranked

theorem Leads.bound_le (fits : distances.Fits ceiling) (entering : distances.FitsEntering high)
    (ranked : Ranked distances start before)
    (leads : Leads Cause distances start budget before after)
    (taken : before.taken? = some first) (later : after.taken? = some second) :
    toInt first.bound ≤ toInt second.bound := by
  have kept : Ranked distances start after ∧ after.AtLeast (toInt first.bound) :=
    leads.keeps (fun state => Ranked distances start state ∧ state.AtLeast (toInt first.bound))
      (fun _ _ here stepped => ⟨here.1.expand fits (expand_step_of_expand stepped),
        (expand_step_of_expand stepped).at_least fits entering here.1.measured here.2⟩)
      ⟨ranked, ranked.at_least taken⟩
  exact kept.2 second (Search.mem_of_taken? later)

theorem Leads.improves (leads : Leads Cause distances start budget before after) :
    before.Improves after :=
  leads.keeps before.Improves
    (fun _ _ earlier stepped => earlier.trans (expand_step_of_expand stepped).improves)
    (Search.Improves.refl before)

theorem Search.Improves.not_beats (improves : before.Improves after) {length longer : W}
    (notBeating : ¬before.beats length = true) (atLeast : toInt length ≤ toInt longer) :
    ¬after.beats longer = true := by
  intro beating
  cases found : before.incumbent with
  | none =>
      rw [Search.beats, found] at notBeating
      exact notBeating rfl
  | some best =>
      obtain ⟨shortest, stops, known, shorter⟩ := improves.exists_le found
      have lower := lt_of_beats beating known
      rw [Search.beats, found] at notBeating
      apply notBeating
      exact decide_eq_true (lt_iff_to_int_lt.mpr (by omega))

theorem Leads.searching (fits : distances.Fits ceiling)
    (searching : Searching distances start [] before)
    (leads : Leads Cause distances start budget before after) (running : after.stopped = false) :
    Searching distances start [] after := by
  have kept : after.stopped = false → Searching distances start [] after :=
    leads.keeps (fun state => state.stopped = false → Searching distances start [] state)
      (fun _ _ here stepped going => by
        have step := expand_step_of_expand stepped
        exact (here step.running).step fits step going)
      (fun _ => searching)
  exact kept running

/-- A path that is branched on has a bound that no round trip falls short of. -/
theorem Searching.expands_bound_le (fits : distances.Fits ceiling)
    (ranked : Ranked distances start search) (searching : Searching distances start [] search)
    (expands : search.Expands budget partialTour) {cycle : List (Fin n)}
    (circuit : distances.Circuit start cycle) :
    toInt partialTour.bound ≤ distances.span (roundSteps cycle) := by
  rcases searching.covered cycle circuit with ⟨best, stops, found, atMost⟩ |
    ⟨other, member, extending⟩ | ⟨trail, member, -⟩
  · have shorter := lt_of_beats expands.beating found
    omega
  · have least := ranked.at_least expands.taken other member
    exact least.trans ((searching.promising other member).bound_le fits circuit extending)
  · cases member

theorem Leads.expansions_eq (leads : Leads Cause distances start budget before after)
    (idle : ∀ between, Leads Cause distances start budget before between →
      ¬∃ partialTour, between.Expands budget partialTour) :
    after.expansions = before.expansions := by
  induction leads with
  | first => rfl
  | next earlier stepped induction =>
      rcases (expand_step_of_expand stepped).counted with ⟨expands, -⟩ | ⟨-, same⟩
      · exact absurd expands (idle _ earlier)
      · exact same.trans induction

end Runs

section Graphs

variable {N : Type} [NodeKey N]

/-- The paths come off the frontier in the order of their bounds, none is branched on after one has been
discarded, and none is branched on whose bound exceeds the length of some round trip. -/
theorem search_is_best_first (graph : Graph N W) (distances : Distances graph.nodeCount W)
    (accepted : Distances.ofGraph graph = .ok distances) (several : 1 < graph.nodeCount)
    (start : Fin graph.nodeCount) (budget : Option Nat) (before : Search graph.nodeCount W)
    (reached : Leads Cause distances start budget (initialSearch distances start) before) :
    (∀ first, before.taken? = some first →
        ∀ after second, Leads Cause distances start budget before after →
          after.taken? = some second → toInt first.bound ≤ toInt second.bound) ∧
      (∀ first, before.taken? = some first → ¬before.beats first.bound = true →
        ∀ after, Leads Cause distances start budget before after →
          (¬∃ second, after.Expands budget second) ∧ after.expansions = before.expansions) ∧
      ∀ partialTour, before.Expands budget partialTour →
        ∀ cycle, graph.IsRoundTrip cycle → toInt partialTour.bound ≤ graph.closedLength cycle := by
  obtain ⟨shows, ceiling, fits⟩ := Distances.of_graph_eq_ok accepted
  obtain ⟨high, entering⟩ := Distances.exists_fits_entering accepted
  have ranked : Ranked distances start before := reached.ranked fits (Ranked.initial fits several)
  refine ⟨?_, ?_, ?_⟩
  · intro first taken after second leads later
    exact leads.bound_le fits entering ranked taken later
  · intro first taken notBeating
    have idle : ∀ after, Leads Cause distances start budget before after →
        ¬∃ second, after.Expands budget second := by
      rintro after leads ⟨second, expands⟩
      have grown := leads.bound_le fits entering ranked taken expands.taken
      exact leads.improves.not_beats notBeating grown expands.beating
    exact fun after leads => ⟨idle after leads, leads.expansions_eq idle⟩
  · intro partialTour expands cycle trip
    obtain ⟨indices, circuit, length⟩ := shows.exists_circuit several start trip
    have running := (Search.taken?_eq_some_iff.mp expands.taken).1
    have searching := reached.searching fits (Searching.initial fits several) running
    exact length ▸ searching.expands_bound_le fits ranked expands circuit

/-- Four nodes, each joined to all others, where two paths are left over once the shortest round trip is
found. -/
def contested : Graph Int Int32 :=
  Graph.ofEdges [⟨1, 2, 3⟩, ⟨1, 3, 3⟩, ⟨1, 4, 7⟩, ⟨2, 1, 6⟩, ⟨2, 3, 8⟩, ⟨2, 4, 2⟩, ⟨3, 1, 9⟩,
    ⟨3, 2, 4⟩, ⟨3, 4, 1⟩, ⟨4, 1, 1⟩, ⟨4, 2, 2⟩, ⟨4, 3, 6⟩]

theorem search_is_best_first_contested : ∃ distances : Distances contested.nodeCount Int32,
    Distances.ofGraph contested = .ok distances ∧
      ∃ third fourth fifth, ∃ taken left beyond,
        Leads Unit distances ⟨0, by decide⟩ none (initialSearch distances ⟨0, by decide⟩) third ∧
        third.Expands none taken ∧ toInt taken.bound ≤ contested.closedLength [1, 3, 2, 4] ∧
        Leads Unit distances ⟨0, by decide⟩ none (initialSearch distances ⟨0, by decide⟩) fourth ∧
        fourth.taken? = some left ∧ ¬fourth.beats left.bound = true ∧
        Leads Unit distances ⟨0, by decide⟩ none fourth fifth ∧ fifth.taken? = some beyond ∧
        toInt left.bound ≤ toInt beyond.bound ∧ ¬∃ other, fifth.Expands none other := by
  have trip : contested.IsRoundTrip [1, 3, 2, 4] :=
    ⟨by decide +kernel, fun _ => by decide +kernel⟩
  have expanding : ((Distances.ofGraph contested).toOption.any fun distances =>
      (iterate (expand distances ⟨0, by decide⟩ none) 2
        (initialSearch distances ⟨0, by decide⟩) : Traced (Progress Int32) Unit
          (Search contested.nodeCount Int32)).outcome.toOption.any fun third =>
            third.taken?.any fun taken => third.beats taken.bound) = true := by decide +kernel
  have discarding : ((Distances.ofGraph contested).toOption.any fun distances =>
      (iterate (expand distances ⟨0, by decide⟩ none) 3
        (initialSearch distances ⟨0, by decide⟩) : Traced (Progress Int32) Unit
          (Search contested.nodeCount Int32)).outcome.toOption.any fun fourth =>
            (fourth.taken?.any fun left => !fourth.beats left.bound) &&
            (iterate (expand distances ⟨0, by decide⟩ none) 1 fourth : Traced (Progress Int32) Unit
              (Search contested.nodeCount Int32)).outcome.toOption.any fun fifth =>
                fifth.taken?.isSome) = true := by decide +kernel
  cases table : Distances.ofGraph contested with
  | error failure => simp [table, Except.toOption] at expanding
  | ok distances =>
      rw [table] at expanding discarding
      obtain ⟨third, ranThird, takenThird⟩ := Traced.exists_ok_of_any expanding
      obtain ⟨taken, foundThird, beating⟩ := (Option.any_eq_true _ _).mp takenThird
      obtain ⟨fourth, ranFourth, takenFourth⟩ := Traced.exists_ok_of_any discarding
      obtain ⟨leftThere, further⟩ := (Bool.and_eq_true _ _).mp takenFourth
      obtain ⟨left, foundFourth, dropped⟩ := (Option.any_eq_true _ _).mp leftThere
      obtain ⟨fifth, ranFifth, more⟩ := Traced.exists_ok_of_any further
      obtain ⟨beyond, foundFifth⟩ := Option.isSome_iff_exists.mp more
      have expands : third.Expands none taken :=
        ⟨foundThird, beating, fun limit limited => absurd limited (Option.some_ne_none limit).symm⟩
      have notBeating : ¬fourth.beats left.bound = true := by simpa using dropped
      have toThird := Traced.passes_of_iterate ranThird
      have toFourth := Traced.passes_of_iterate ranFourth
      have onward := Traced.passes_of_iterate ranFifth
      obtain ⟨-, -, bounded⟩ := search_is_best_first contested distances table (by decide)
        ⟨0, by decide⟩ none third toThird
      obtain ⟨ordered, idle, -⟩ := search_is_best_first contested distances table (by decide)
        ⟨0, by decide⟩ none fourth toFourth
      exact ⟨distances, rfl, third, fourth, fifth, taken, left, beyond, toThird, expands,
        bounded taken expands _ trip, toFourth, foundFourth, notBeating, onward, foundFifth,
        ordered left foundFourth fifth beyond onward foundFifth,
        (idle left foundFourth notBeating fifth onward).1⟩

end Graphs

end FlowTour.Tour
