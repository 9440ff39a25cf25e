import FlowTour.Report
import FlowTour.Traced
import FlowTour.Weight.Basic

/-!
What the tour solvers write down as they work. They tell of their progress, and they may also enter every
plain addition of two weights, sums that are dropped later on included. The solvers are written once,
for any journal; which of the two the reader gets to see is up to the journal.
-/

namespace FlowTour.Tour

/-- Two weights that are added to each other. -/
structure Addition (W : Type) where
  left : W
  right : W

/-- The events that stand for an addition and for progress. -/
class Journal (W : outParam Type) (Event : Type) where
  addition : Addition W → List Event
  progress : Progress W → List Event

variable {W Event Cause : Type} [Journal W Event]

instance : Journal W (Progress W) where
  addition _ := []
  progress event := [event]

instance : Journal W (Addition W) where
  addition entry := [entry]
  progress _ := []

namespace Journal

def add [Weight W] (left right : W) : Traced Event Cause W :=
  ⟨Journal.addition ⟨left, right⟩, .ok (left + right)⟩

def tell (event : Progress W) : Traced Event Cause Unit := ⟨Journal.progress event, .ok ()⟩

end Journal

end FlowTour.Tour
