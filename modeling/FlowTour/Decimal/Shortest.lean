/-!
The shortest decimal text of a binary floating-point number: the fewest digits that read back as
the same number, written positionally. Of several such decimals the nearest to the exact value is
taken, and a tie goes away from zero. All steps are exact natural-number arithmetic on the bits.
-/

namespace FlowTour.Decimal

/-- A non-negative decimal number, `digits * 10 ^ exponent`. -/
structure Numeral where
  digits : Nat
  exponent : Int
  deriving DecidableEq, Repr

/-- Written without an exponent and without a point that nothing follows. -/
def Numeral.positional (numeral : Numeral) : String :=
  let digits := Nat.toDigits 10 numeral.digits
  match numeral.exponent with
  | .ofNat zeros => String.ofList (digits ++ List.replicate zeros '0')
  | .negSucc below =>
      let places := below + 1
      let padded := List.replicate (places + 1 - digits.length) '0' ++ digits
      String.ofList
        (padded.take (padded.length - places) ++ '.' :: padded.drop (padded.length - places))

/-- The numbers that read as one value: from `low` to `high`, the ends included when `closed`, with
the value itself between them. All three are counted in units of one over `unit`. -/
structure Rounding where
  low : Nat
  value : Nat
  high : Nat
  unit : Nat
  closed : Bool

def Rounding.scale (rounding : Rounding) : Int → Rounding
  | .ofNat power => { rounding with unit := rounding.unit * Nat.pow 10 power }
  | .negSucc below =>
      let factor := Nat.pow 10 (below + 1)
      { rounding with
        low := rounding.low * factor
        value := rounding.value * factor
        high := rounding.high * factor }

def Rounding.nearest? (rounding : Rounding) : Option Nat :=
  let below := rounding.value / rounding.unit
  let above := below + 1
  let belowReads :=
    if rounding.closed then rounding.low ≤ below * rounding.unit
    else rounding.low < below * rounding.unit
  let aboveReads :=
    if rounding.closed then above * rounding.unit ≤ rounding.high
    else above * rounding.unit < rounding.high
  if belowReads ∧ aboveReads then
    if rounding.value - below * rounding.unit < above * rounding.unit - rounding.value then
      some below
    else some above
  else if belowReads then some below
  else if aboveReads then some above
  else none

/-- Tries coarser grids before finer ones, so the first hit has the fewest digits. -/
def Rounding.shortestFrom (rounding : Rounding) : Nat → Int → Numeral
  | 0, exponent => ⟨rounding.value / rounding.unit, exponent⟩
  | grids + 1, exponent =>
      match (rounding.scale exponent).nearest? with
      | some digits => ⟨digits, exponent⟩
      | none => rounding.shortestFrom grids (exponent - 1)

/-- A power of ten above the value, no more than a few places too high. -/
def Rounding.topExponent (rounding : Rounding) : Int :=
  ((Nat.log2 rounding.value : Int) - Nat.log2 rounding.unit + 2) * 30103 / 100000 + 1

/-- Twenty-four grids reach from above the leading digit to beyond the seventeenth. -/
def Rounding.shortest (rounding : Rounding) : Numeral :=
  rounding.shortestFrom 24 rounding.topExponent

/-- The layout of a binary interchange format: sign, exponent, fraction, most significant first. -/
structure Layout where
  exponentBits : Nat
  fractionBits : Nat

def Layout.single : Layout := ⟨8, 23⟩

def Layout.double : Layout := ⟨11, 52⟩

namespace Layout

variable (layout : Layout)

def fractionSize : Nat := Nat.pow 2 layout.fractionBits

def exponentSize : Nat := Nat.pow 2 layout.exponentBits

def fraction (bits : Nat) : Nat := bits % layout.fractionSize

def biasedExponent (bits : Nat) : Nat :=
  bits / layout.fractionSize % layout.exponentSize

def isSigned (bits : Nat) : Bool :=
  bits / layout.fractionSize / layout.exponentSize % 2 == 1

/-- The interval that reads as the finite non-zero number with these bits. Its value is a significand
times a power of two; a quarter of its last place is the unit, so both midpoints are whole. The lower
neighbour of a power of two is only half as far away. -/
def rounding (bits : Nat) : Rounding :=
  let fraction := layout.fraction bits
  let biased := layout.biasedExponent bits
  let significand := if biased = 0 then fraction else layout.fractionSize + fraction
  let lastPlace : Int :=
    (if biased = 0 then 1 else biased : Nat) - (layout.exponentSize / 2 - 1 : Nat) -
      layout.fractionBits
  let below := if fraction = 0 ∧ 1 < biased then 1 else 2
  let raise := Nat.pow 2 (lastPlace - 2).toNat
  { low := (4 * significand - below) * raise
    value := 4 * significand * raise
    high := (4 * significand + 2) * raise
    unit := Nat.pow 2 (2 - lastPlace).toNat
    closed := significand % 2 == 0 }

def magnitudeText (bits : Nat) : String :=
  if layout.biasedExponent bits = 0 ∧ layout.fraction bits = 0 then "0"
  else (layout.rounding bits).shortest.positional

/-- The text of the number with these bits. A zero keeps its sign, a NaN has none. -/
def text (bits : Nat) : String :=
  let sign := if layout.isSigned bits then "-" else ""
  if layout.biasedExponent bits = layout.exponentSize - 1 then
    if layout.fraction bits = 0 then sign ++ "inf" else "NaN"
  else sign ++ layout.magnitudeText bits

end Layout

end FlowTour.Decimal
