/-
**Finite binary numbers of double precision.**

A finite double is a sign, a significand below `2^53` and a power of two. The numbers next to it
bound the reals that round to it, and that range is all that its shortest decimal depends on.

* `Binary64.ofFloat?`: the parts of a double, `none` for an infinity and for what is no number.
* `Binary64.narrowBelow`: the number below is half as far away as the number above exactly at the
  powers of two, the smallest numbers left aside.
-/

namespace SqlDraft

/-- The finite double `± significand · 2 ^ exponent`. -/
structure Binary64 where
  negative : Bool
  significand : Nat
  exponent : Int
deriving DecidableEq

namespace Binary64

/-- The least exponent of a double. -/
def leastExponent : Int := -1074

/-- The significand from which on the leading bit is stored implicitly. -/
def leadingBit : Nat := Nat.pow 2 52

/-- The parts of a double by its bits: a sign, eleven bits of exponent and 52 of the significand.
An exponent of zero has no leading bit, and one of all ones is no finite number. -/
def ofFloat? (value : Float) : Option Binary64 :=
  let bits := value.toBits.toNat
  let negative := bits / Nat.pow 2 63 = 1
  let exponent := bits / Nat.pow 2 52 % Nat.pow 2 11
  let fraction := bits % Nat.pow 2 52
  if exponent = Nat.pow 2 11 - 1 then none
  else if exponent = 0 then some ⟨negative, fraction, leastExponent⟩
  else some ⟨negative, leadingBit + fraction, leastExponent + (exponent - 1 : Nat)⟩

/-- Whether the number below is nearer than the number above. -/
def narrowBelow (number : Binary64) : Bool :=
  number.significand = leadingBit && leastExponent < number.exponent

end Binary64

end SqlDraft
