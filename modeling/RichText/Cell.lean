import RichText.Row
import RichText.Border
set_option autoImplicit false

/-!
Cells: how a run of tokens defines a table cell, and the chain of cells of a row.

A run goes through its right boundary, or to the end of the tokens without one; everything in it
belongs to the cell or is dropped. The cells of a row form a chain from right to left, from which
their positions and widths are read. Main statements: `take_suffix`, a run leaves a rest of the
tokens, and `map_last_initialChains`, a chain lists the cells of its row from left to right.
-/
namespace RichText

inductive CellMerge where
  | none
  | first
  | continues
deriving DecidableEq

structure Cell where
  row : Option Row := none
  rightBoundary : Option Twips := none
  verticalAlign : Option VerticalAlign := none
  background : Option UInt64 := none
  merge : CellMerge := .none
  /-- In the order of their definition. -/
  borders : List Border := []
deriving DecidableEq

namespace Cell

def border? (cell : Cell) (side : BorderSide) : Option Border :=
  (cell.borders.filter (fun b => b.side = side)).getLast?

def describe (cell : Cell) : Token → Cell
  | .atom (.cellVerticalAlign align) => { cell with verticalAlign := some align }
  | .atom (.cellBackground index) => { cell with background := some index }
  | .atom .cellMergeFirst => { cell with merge := .first }
  | .atom .cellMerge => { cell with merge := .continues }
  | _ => cell

/-- Reads the rest of a run into a cell. A border position takes the border's properties with it
before anything else is looked at. -/
def take (cell : Cell) : List Token → Cell × List Token
  | [] => (cell, [])
  | t :: ts =>
    match t with
    | .atom (.borderPosition side) =>
      take { cell with borders := cell.borders ++ [(Border.absorbAll { side := side } ts).1] }
        (Border.absorbAll { side := side } ts).2
    | .atom (.rightCellBoundary position) => ({ cell with rightBoundary := some position }, ts)
    | t => take (cell.describe t) ts
termination_by ts => ts.length
decreasing_by
  · exact Nat.lt_succ_of_le (Border.length_absorbAll_le { side := side } ts)
  · exact Nat.lt_succ_self _

theorem take_suffix (cell : Cell) (ts : List Token) : (cell.take ts).2 <:+ ts := by
  fun_induction take cell ts with
  | case1 => exact List.suffix_rfl
  | case2 cell ts side ih =>
    exact (ih.trans (Border.absorbAll_suffix _ ts)).trans (List.suffix_cons _ _)
  | case3 => exact List.suffix_cons _ _
  | case4 _ _ _ _ _ ih => exact ih.trans (List.suffix_cons _ _)

theorem take_cons_suffix (cell : Cell) (t : Token) (ts : List Token) :
    (cell.take (t :: ts)).2 <:+ ts := by
  rw [take.eq_def]
  simp only
  split
  · exact (take_suffix _ _).trans (Border.absorbAll_suffix _ _)
  · exact List.suffix_rfl
  · exact take_suffix _ _

end Cell

/-- The cells of a row up to one of them: that cell and the ones to its left, nearest first. -/
structure CellChain where
  last : Cell
  previous : List Cell := []
deriving DecidableEq

namespace CellChain

def extend (chain : Option CellChain) (cell : Cell) : CellChain :=
  match chain with
  | some chain => ⟨cell, chain.last :: chain.previous⟩
  | none => ⟨cell, []⟩

def index (chain : CellChain) : Nat := chain.previous.length

def cells (chain : CellChain) : List Cell := (chain.last :: chain.previous).reverse

def ofList : List Cell → List CellChain
  | [] => []
  | cell :: previous => ofList previous ++ [⟨cell, previous⟩]

def initialChains (chain : CellChain) : List CellChain := ofList (chain.last :: chain.previous)

/-- The left edge of a cell: the nearest right boundary to its left, else the left offset of the
row of the first cell. -/
def leftEdge (cell : Cell) : List Cell → Twips
  | [] => cell.row.elim 0 Row.leftOffset
  | p :: ps =>
    match p.rightBoundary with
    | some boundary => boundary
    | none => leftEdge p ps

def leftBoundary (chain : CellChain) : Twips := leftEdge chain.last chain.previous

/-- The width of the last cell if it has a right boundary, clamped to zero and to the range. -/
def width? (chain : CellChain) : Option Twips :=
  chain.last.rightBoundary.map fun right =>
    Twips.clamp (max 0 (right.toInt - chain.leftBoundary.toInt))

theorem length_ofList (cells : List Cell) : (ofList cells).length = cells.length := by
  induction cells with
  | nil => rfl
  | cons c cs ih => simp [ofList, ih]

theorem map_last_ofList (cells : List Cell) : (ofList cells).map last = cells.reverse := by
  induction cells with
  | nil => rfl
  | cons c cs ih => simp [ofList, ih]

theorem map_last_initialChains (chain : CellChain) :
    chain.initialChains.map last = chain.cells :=
  map_last_ofList _

theorem ofList_append_prefix (front cells : List Cell) :
    ofList cells <+: ofList (front ++ cells) := by
  induction front with
  | nil => exact List.prefix_rfl
  | cons cell front ih => exact ih.trans (List.prefix_append _ _)

theorem getElem?_ofList (before after : List Cell) (cell : Cell) :
    (ofList (before ++ cell :: after).reverse)[before.length]? = some ⟨cell, before.reverse⟩ := by
  have hprefix : ofList (cell :: before.reverse) <+:
      ofList (before ++ cell :: after).reverse := by
    rw [List.reverse_append, List.reverse_cons, List.append_assoc]
    exact ofList_append_prefix _ _
  obtain ⟨rest, hrest⟩ := hprefix
  rw [← hrest]
  simp [ofList, length_ofList]

theorem index_extend (chain : CellChain) (cell : Cell) :
    (extend (some chain) cell).index = chain.index + 1 := rfl

end CellChain

end RichText
