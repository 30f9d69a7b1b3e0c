/-!
# Ratios

Numbers of the settings are compared, rounded and printed exactly.  Their values
are ratios of integers, or one of the two infinities, or no number at all.

* `Value.le` and `Value.lt` compare by cross multiplication.  What is no number
  is in no relation to anything.
* `roundDiv` rounds a ratio to an integer, a half to the even neighbour.
* `leadingExponent` is the power of ten of the first digit of a ratio.
-/

namespace TagColoring

/-- The value of a number.  The denominator of a ratio is not zero. -/
inductive Value where
  | ratio (num : Int) (den : Nat)
  | infinite (negative : Bool)
  | undefined
deriving DecidableEq, Repr

namespace Value

/-- The value of an integer. -/
def ofInt (n : Int) : Value := .ratio n 1

/-- At most. -/
def le : Value → Value → Bool
  | .undefined, _ => false
  | _, .undefined => false
  | .ratio a b, .ratio c d => a * d ≤ c * b
  | .infinite true, _ => true
  | _, .infinite false => true
  | _, _ => false

/-- Less than. -/
def lt (x y : Value) : Bool := x.le y && !y.le x

/-- The same value. -/
def same (x y : Value) : Bool := x.le y && y.le x

end Value

/-- The integer nearest to `num / den`, the even one if two are equally near. -/
def roundDiv (num den : Nat) : Nat :=
  let quotient := num / den
  let remainder := num % den
  if den < 2 * remainder || (2 * remainder == den && quotient % 2 == 1) then quotient + 1
  else quotient

/-- The number of decimal digits of a natural number.  Zero has one. -/
def digitCount (n : Nat) : Nat := (Nat.toDigits 10 n).length

/-- The exponent `k` with `10 ^ k ≤ num / den < 10 ^ (k + 1)`, for a positive
ratio. -/
def leadingExponent (num den : Nat) : Int :=
  if den ≤ num then (digitCount (num / den) : Int) - 1
  else -(digitCount ((den + num - 1) / num - 1) : Int)

/-- The numerator and denominator of `num / den · b ^ (-e)`. -/
def scaleDown (b num den : Nat) (e : Int) : Nat × Nat :=
  if 0 ≤ e then (num, den * Nat.pow b e.toNat) else (num * Nat.pow b (-e).toNat, den)

end TagColoring
