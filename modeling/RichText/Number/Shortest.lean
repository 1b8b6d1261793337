import RichText.Number.Binary32
set_option autoImplicit false

/-!
The shortest decimal that reads back as a given binary number.

The reals that round to the number form an interval around it, ends included when the significand
is even. Grids of powers of ten are tried from coarse to fine; on the first grid with a point in
the interval, the point nearest to the number is taken, the upper one on a tie. If any point of a
grid lies in the interval, one of the number's two neighbours on that grid does.
-/
namespace RichText.Number

structure Decimal where
  digits : Nat
  exponent : Int
deriving DecidableEq

namespace Decimal

def padded (places : Nat) (ds : List Char) : List Char :=
  List.replicate (places + 1 - ds.length) '0' ++ ds

def chars (d : Decimal) : List Char :=
  let ds := Nat.toDigits 10 d.digits
  if 0 ≤ d.exponent then ds ++ List.replicate d.exponent.toNat '0'
  else
    let places := (-d.exponent).toNat
    let ds := padded places ds
    ds.take (ds.length - places) ++ '.' :: ds.drop (ds.length - places)

end Decimal

/-- The number and the ends of its rounding interval as integers over one denominator. -/
structure Interval where
  low : Nat
  value : Nat
  high : Nat
  denominator : Nat
  closed : Bool

namespace Interval

/-- Below the least significand the numbers are twice as dense, so the lower gap is half as
wide. -/
def of (x : Binary32) : Interval :=
  let m := x.significand
  let low := if m = 8388608 then 4 * m - 1 else 4 * m - 2
  let e := x.exponent - 2
  if e < 0 then ⟨low, 4 * m, 4 * m + 2, 1 <<< (-e).toNat, m % 2 == 0⟩
  else ⟨low <<< e.toNat, (4 * m) <<< e.toNat, (4 * m + 2) <<< e.toNat, 1, m % 2 == 0⟩

def holds (i : Interval) (x : Nat) : Bool :=
  if i.closed then i.low ≤ x && x ≤ i.high else i.low < x && x < i.high

/-- The best point of the grid of spacing `10 ^ p`, if the interval holds one. -/
def pointAt (i : Interval) (p : Int) : Option Decimal :=
  let up := Nat.pow 10 (-p).toNat
  let spacing := Nat.pow 10 p.toNat * i.denominator
  let below := i.value * up / spacing
  let i : Interval := ⟨i.low * up, i.value * up, i.high * up, spacing, i.closed⟩
  let lower := below * spacing
  let upper := lower + spacing
  match i.holds lower, i.holds upper with
  | true, true =>
    if i.value - lower < upper - i.value then some ⟨below, p⟩ else some ⟨below + 1, p⟩
  | true, false => some ⟨below, p⟩
  | false, true => some ⟨below + 1, p⟩
  | false, false => none

def search (i : Interval) : Nat → Int → Option Decimal
  | 0, _ => none
  | count + 1, p =>
    match i.pointAt p with
    | some d => some d
    | none => search i count (p - 1)

end Interval

/-- Nine digits always tell two neighbours apart, so twenty grids from the coarsest are enough. -/
def shortest (x : Binary32) : Decimal :=
  let i := Interval.of x
  let top : Int := (Nat.toDigits 10 (i.high / i.denominator)).length
  (i.search 20 top).getD ⟨0, 0⟩

end RichText.Number
