import RichText.Number.Shortest
set_option autoImplicit false

/-!
Lengths: twips and half points, and how they are written as CSS points.

A twip is a twentieth of a point. The quotient is taken in binary floating point with 24 bits,
so large lengths lose their last digits before they are written.
-/
namespace RichText

abbrev Twips := Int32

namespace Number

/-- `n / d` in binary floating point, with the fewest digits that read back. -/
def quotientChars (n d : Nat) : List Char :=
  if n = 0 then ['0'] else (shortest ((Binary32.ofNat n).divNat d)).chars

def pointsText (t : Twips) : String :=
  let n := t.toInt
  String.ofList
    (if n < 0 then '-' :: quotientChars n.natAbs 20 else quotientChars n.natAbs 20)

def halfPointsText (size : UInt16) : String := String.ofList (quotientChars size.toNat 2)

end Number

def points (t : Twips) : String := Number.pointsText t ++ "pt"

def Twips.clamp (n : Int) : Twips := Int32.ofIntClamp n

namespace Twips

theorem toInt_clamp (n : Int) : (clamp n).toInt = max (-2147483648) (min n 2147483647) := by
  have hmin : Int32.minValue.toInt = -2147483648 := by decide
  have hmax : Int32.maxValue.toInt = 2147483647 := by decide
  unfold clamp Int32.ofIntClamp
  split
  · split
    · rw [Int32.toInt_ofIntLE]
      omega
    · omega
  · omega

theorem toInt_max (a b : Twips) : (max a b).toInt = max a.toInt b.toInt := by
  rw [show max a b = if a ≤ b then b else a from rfl, Int.max_def]
  simp only [Int32.le_iff_toInt_le]
  split <;> rfl

theorem clamp_max (n : Int) : clamp (max 0 n) = max 0 (clamp n) := by
  apply Int32.toInt_inj.1
  rw [toInt_max, toInt_clamp, toInt_clamp]
  have hzero : (0 : Twips).toInt = 0 := rfl
  omega

end Twips

end RichText
