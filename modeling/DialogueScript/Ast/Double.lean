/-!
Numbers of double precision without sign, by their bits: eleven bits of exponent and fifty-two of
fraction. In the order of their bits they also stand in the order of what they are.
-/

namespace DialogueScript

namespace Double

/-- The bits behind all finite numbers. -/
def infinity : Nat := 2047 * Nat.pow 2 52

/-- How many places a number can have behind the binary point. The last of them is the unit in what
follows. -/
@[irreducible] def bitPlaces : Nat := 1074

/-- What some bits stand for, in units. -/
def units (b : Nat) : Nat :=
  let exponent := b / Nat.pow 2 52
  let fraction := b % Nat.pow 2 52
  if exponent = 0 then fraction else (Nat.pow 2 52 + fraction) * Nat.pow 2 (exponent - 1)

/-- A quotient to the nearest whole number, and to the even one where two are as near. -/
def divEven (n m : Nat) : Nat :=
  if 2 * (n % m) < m ∨ 2 * (n % m) = m ∧ n / m % 2 = 0 then n / m else n / m + 1

/-- The bits of the number next to `n / m` units. -/
def next (n m : Nat) : Nat :=
  -- so many bits of the quotient do not fit into the fraction
  let shift := (n / m).log2 - 52
  min (shift * Nat.pow 2 52 + divEven n (m * Nat.pow 2 shift)) infinity

end Double

end DialogueScript
