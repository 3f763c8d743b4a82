/-
**The shortest decimal that reads back.**

Among the decimals that round to a given double, this is one with the fewest digits, and of those
the nearest. On each grid of decimals only the two neighbours of the double come into question:
where any point of the grid reads back, so does one of them. All comparisons are exact.

* `Decimal.shortest`: the decimal of a double that is not zero.
* `Grid.candidate?`: the point of one grid that reads back, the nearer of two, and of two at the
  same distance the even one.
-/

import SqlDraft.Decimal.Binary64

namespace SqlDraft

/-- The decimal `digits · 10 ^ exponent`. -/
structure Decimal where
  digits : Nat
  exponent : Int
deriving DecidableEq

/-- A double measured on a grid of decimals: it stands at `position / scale` steps of the grid, and
the reals from `below / scale` steps under it to `above / scale` steps over it round to it, the
ends included if `closed`. -/
structure Grid where
  position : Nat
  below : Nat
  above : Nat
  scale : Nat
  closed : Bool

namespace Grid

/-- Whether a distance stays within a bound, which counts as inside if the range is closed. -/
def within (grid : Grid) (distance bound : Nat) : Bool :=
  if grid.closed then distance ≤ bound else distance < bound

/-- The grid point that reads back as the double, if one does. -/
def candidate? (grid : Grid) : Option Nat :=
  let low := grid.position / grid.scale
  let downward := grid.position % grid.scale
  let upward := grid.scale - downward
  match grid.within downward grid.below, grid.within upward grid.above with
  | true, false => some low
  | false, true => some (low + 1)
  | true, true =>
    if downward < upward then some low
    else if upward < downward then some (low + 1)
    else some (low + low % 2)
  | false, false => none

/-- The point that reads back is one of the two next to the double. -/
theorem candidate?_neighbour {grid : Grid} {point : Nat} (found : grid.candidate? = some point) :
    point = grid.position / grid.scale ∨ point = grid.position / grid.scale + 1 := by
  simp only [candidate?] at found
  split at found
  · exact Or.inl (Option.some.inj found).symm
  · exact Or.inr (Option.some.inj found).symm
  · split at found
    · exact Or.inl (Option.some.inj found).symm
    · split at found
      · exact Or.inr (Option.some.inj found).symm
      · have even := Option.some.inj found
        omega
  · exact absurd found (by simp)

end Grid

namespace Decimal

/-- The number of decimal digits, none for zero. -/
def digitCount (value : Nat) : Nat := if value = 0 then 0 else (Nat.toDigits 10 value).length

/-- The exponent of the first digit of the positive number `numerator / denominator`. -/
def leadingExponent (numerator denominator : Nat) : Int :=
  if denominator ≤ numerator then digitCount (numerator / denominator) - 1
  else -digitCount ((denominator - 1) / numerator)

/-- Powers of a base as a numerator and a denominator. -/
def powerRatio (base : Nat) (exponent : Int) : Nat × Nat :=
  (Nat.pow base exponent.toNat, Nat.pow base (-exponent).toNat)

/-- A double on the grid of the multiples of `10 ^ step`. A quarter of the distance to the number
above is the unit, so that the half distances are whole. -/
def gridOf (number : Binary64) (step : Int) : Grid :=
  let binary := powerRatio 2 (number.exponent - 2)
  let decimal := powerRatio 10 step
  let unit := binary.1 * decimal.2
  { position := 4 * number.significand * unit
    below := (if number.narrowBelow then 1 else 2) * unit
    above := 2 * unit
    scale := binary.2 * decimal.1
    closed := number.significand % 2 = 0 }

/-- Moves the zeros at the end of the digits into the exponent, at most `bound` of them. -/
def stripZeros : (bound : Nat) → Decimal → Decimal
  | 0, decimal => decimal
  | bound + 1, decimal =>
    if decimal.digits % 10 = 0 then stripZeros bound ⟨decimal.digits / 10, decimal.exponent + 1⟩
    else decimal

/-- The decimal on the first of the grids with `count`, `count + 1`, … digits that has a point
which reads back, with the first digit at the given exponent. -/
def firstOnGrids (number : Binary64) (leading : Int) : (tries : Nat) → (count : Nat) → Decimal
  | 0, count =>
    let step := leading - count + 1
    let grid := gridOf number step
    ⟨grid.position / grid.scale, step⟩
  | tries + 1, count =>
    let step := leading - count + 1
    match (gridOf number step).candidate? with
    | some digits => ⟨digits, step⟩
    | none => firstOnGrids number leading tries (count + 1)

/-- The shortest decimal that reads back as a double which is not zero. Seventeen digits are always
enough. -/
def shortest (number : Binary64) : Decimal :=
  let binary := powerRatio 2 number.exponent
  let leading := leadingExponent (number.significand * binary.1) binary.2
  stripZeros 17 (firstOnGrids number leading 17 1)

end Decimal

end SqlDraft
