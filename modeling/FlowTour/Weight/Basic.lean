/-!
Edge weights: capacities, costs and distances, depending on who reads them. A weight type has plain
arithmetic, which may wrap or round, and checked arithmetic, which answers `none` where a result
does not fit. Comparisons are the type's own, so two weights may be incomparable.
-/

namespace FlowTour

class Weight (W : Type) extends Zero W, Add W, Sub W, Neg W, LT W, LE W, BEq W where
  decidableLT : DecidableLT W
  decidableLE : DecidableLE W
  tryAdd : W → W → Option W
  trySub : W → W → Option W
  tryMul : W → W → Option W
  /-- Where a plain sum starts: adding it changes no weight, not even the sign of a zero. -/
  neutral : W
  /-- Whether the first weight is zero up to the rounding error gathered over quantities as large as
  the second. -/
  isNegligible : W → W → Bool
  display : W → String
  /-- How many positive weights are at most this one. A positive weight that shrinks and stays
  positive can do so at most this often. -/
  rank : W → Nat

namespace Weight

variable {W : Type} [Weight W]

instance : DecidableLT W := decidableLT
instance : DecidableLE W := decidableLE

def isNegative (weight : W) : Bool := weight < 0

def isPositive (weight : W) : Bool := (0 : W) < weight

/-- The first weight unless the second one is strictly smaller. -/
def smaller (left right : W) : W := if right < left then right else left

def larger (left right : W) : W := if left < right then right else left

/-- The checked sum from zero on. -/
def total? (weights : List W) : Option W := weights.foldlM tryAdd 0

/-- The plain sum from the neutral weight on. -/
def total (weights : List W) : W := weights.foldl (· + ·) neutral

/-- The smallest of some weights, the first one on ties. -/
def least? : List W → Option W
  | [] => none
  | weight :: rest => some (rest.foldl smaller weight)

def greatest? : List W → Option W
  | [] => none
  | weight :: rest => some (rest.foldl larger weight)

end Weight

end FlowTour
