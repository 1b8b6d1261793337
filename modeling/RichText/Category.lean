set_option autoImplicit false

/-!
Categories: what a token is for, as a set of capability bits.

The format categories all hold the format bit, so "some kind of format token" is a test with
`contains` while "exactly a paragraph format token" is equality.
-/
namespace RichText

structure Category where
  bits : BitVec 13
deriving DecidableEq

namespace Category

def none : Category := ⟨0⟩
def format : Category := ⟨0b1⟩
def characterFormat : Category := ⟨0b11⟩
def paragraphFormat : Category := ⟨0b101⟩
def cellFormat : Category := ⟨0b1001⟩
def rowFormat : Category := ⟨0b10001⟩
def breakTag : Category := ⟨0b100000⟩
def headerTag : Category := ⟨0b1000000⟩
def destination : Category := ⟨0b10000000⟩
def text : Category := ⟨0b100000000⟩
def group : Category := ⟨0b1000000000⟩
def document : Category := ⟨0b10000000000⟩
def picture : Category := ⟨0b100000000000⟩
def borderProperty : Category := ⟨0b1000000000000⟩

def contains (c d : Category) : Bool := c.bits &&& d.bits == d.bits

def union (c d : Category) : Category := ⟨c.bits ||| d.bits⟩

def inter (c d : Category) : Category := ⟨c.bits &&& d.bits⟩

def without (c d : Category) : Category := ⟨c.bits &&& ~~~ d.bits⟩

instance : Union Category := ⟨union⟩
instance : Inter Category := ⟨inter⟩
instance : SDiff Category := ⟨without⟩

def labels : List (Category × String) :=
  [(characterFormat, "CharacterFormat"), (paragraphFormat, "ParagraphFormat"),
   (cellFormat, "CellFormat"), (rowFormat, "RowFormat"), (breakTag, "BreakTag"),
   (headerTag, "HeaderTag"), (destination, "Destination"), (text, "Text"), (group, "Group"),
   (document, "Document"), (picture, "Picture"), (borderProperty, "BorderProperty")]

/-- Goes through `labels`; a label is listed when its bits are all still unclaimed, and claims
them. A format bit that nobody claimed is listed last. -/
def labelsWithin : List (Category × String) → Category → List String
  | [], rest => if rest.contains format then ["Format"] else []
  | (d, name) :: more, rest =>
    if rest.contains d then name :: labelsWithin more (rest \ d) else labelsWithin more rest

/-- The category as text. Since the format bit is claimed only once, a union of two format
categories shows the first of them alone. -/
def label (c : Category) : String :=
  match labelsWithin labels c with
  | [] => "None"
  | names => " | ".intercalate names

theorem contains_self (c : Category) : c.contains c = true := by
  simp [contains]

example : (characterFormat ∪ paragraphFormat).label = "CharacterFormat" := by decide
example : (destination ∪ headerTag).label = "HeaderTag | Destination" := by decide
example : (destination ∪ format).label = "Destination | Format" := by decide

end Category

end RichText
