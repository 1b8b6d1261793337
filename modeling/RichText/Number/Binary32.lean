set_option autoImplicit false

/-!
Binary floating point numbers with a 24-bit significand, as exact pairs of integers.

Only positive numbers in the normal range occur here: quotients between 1/20 and 2^31.
-/
namespace RichText.Number

/-- The number `significand * 2 ^ exponent`. -/
structure Binary32 where
  significand : Nat
  exponent : Int
deriving DecidableEq

/-- The quotient to the nearest integer; a half goes to the even neighbour. -/
def divRound (num den : Nat) : Nat :=
  let q := num / den
  let r := num % den
  if 2 * r < den then q else if den < 2 * r then q + 1 else if q % 2 = 0 then q else q + 1

def unscale (num den : Nat) (e : Int) : Nat × Nat :=
  if e < 0 then (num <<< (-e).toNat, den) else (num, den <<< e.toNat)

namespace Binary32

def exponentOf (num den : Nat) : Int :=
  let e : Int := (num.log2 : Int) - (den.log2 : Int) - 23
  let (n, d) := unscale num den e
  if n / d < 8388608 then e - 1 else e

/-- The fraction to the nearest number of this format, ties to an even significand. -/
def ofFraction (num den : Nat) : Binary32 :=
  let e := exponentOf num den
  let (n, d) := unscale num den e
  let m := divRound n d
  if m < 16777216 then ⟨m, e⟩ else ⟨8388608, e + 1⟩

def ofNat (n : Nat) : Binary32 := ofFraction n 1

def divNat (x : Binary32) (d : Nat) : Binary32 :=
  let (n, k) := unscale x.significand d (-x.exponent)
  ofFraction n k

example : ofNat 16777217 = ⟨8388608, 1⟩ := by decide
example : ofNat 1 = ⟨8388608, -23⟩ := by decide

end Binary32

end RichText.Number
