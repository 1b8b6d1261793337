import RichText.Token
set_option autoImplicit false

/-!
Borders: a border position together with the properties that directly follow it.

A border takes the longest run of properties that its side accepts; the first token that it does
not accept is left where it is.
-/
namespace RichText

structure Border where
  side : BorderSide
  style : Option BorderStyle := none
  width : Option Twips := none
  color : Option UInt64 := none
  spacing : Option Twips := none
deriving DecidableEq

/-- The token is a property of borders on this side. The border of a cell has no spacing. -/
def BorderSide.accepts (side : BorderSide) : Token → Bool
  | .atom (.borderStyle _) | .atom (.borderWidth _) | .atom (.borderColor _) => true
  | .atom (.borderSpacing _) => !side.isCell
  | _ => false

theorem BorderSide.accepts_iff (side : BorderSide) (t : Token) :
    side.accepts t = true ↔
      (∃ style, t = .atom (.borderStyle style)) ∨ (∃ width, t = .atom (.borderWidth width)) ∨
        (∃ index, t = .atom (.borderColor index)) ∨
        side.isCell = false ∧ ∃ width, t = .atom (.borderSpacing width) := by
  cases t with
  | group contents => simp [accepts]
  | atom a => cases a <;> simp [accepts]

namespace Border

def isVisible (b : Border) : Bool :=
  match b.style with
  | none | some .none => false
  | some _ => true

def absorb? (b : Border) (t : Token) : Option Border :=
  if b.side.accepts t then
    match t with
    | .atom (.borderStyle style) => some { b with style := some style }
    | .atom (.borderWidth width) => some { b with width := some width }
    | .atom (.borderColor index) => some { b with color := some index }
    | .atom (.borderSpacing width) => some { b with spacing := some width }
    | _ => none
  else none

/-- Absorbs tokens as long as they are accepted, and returns the others. -/
def absorbAll : Border → List Token → Border × List Token
  | b, [] => (b, [])
  | b, t :: ts =>
    match b.absorb? t with
    | some b' => absorbAll b' ts
    | none => (b, t :: ts)

def take? : List Token → Option (Border × List Token)
  | .atom (.borderPosition side) :: ts => some (absorbAll { side := side } ts)
  | _ => none

theorem absorb?_isSome (b : Border) (t : Token) : (b.absorb? t).isSome = b.side.accepts t := by
  unfold absorb?
  split
  · rename_i h
    split <;> simp_all [BorderSide.accepts]
  · simp_all

theorem absorbAll_suffix (b : Border) (ts : List Token) : (b.absorbAll ts).2 <:+ ts := by
  induction ts generalizing b with
  | nil => exact List.suffix_rfl
  | cons t ts ih =>
    unfold absorbAll
    split
    · exact (ih _).trans (List.suffix_cons t ts)
    · exact List.suffix_rfl

theorem length_absorbAll_le (b : Border) (ts : List Token) :
    (b.absorbAll ts).2.length ≤ ts.length :=
  (absorbAll_suffix b ts).length_le

end Border

end RichText
