import Mathlib.Algebra.Ring.Int.Defs
import RichText.Cell
set_option autoImplicit false

/-!
The cells of a row side by side: which cell stands where, where it begins, and how wide it is.
Boundaries may be missing or out of order, so a cell may overlap its neighbours or have no width.
Main statement: `cells_tile_row`.
-/
namespace RichText.CellChain

def boundaries (chain : CellChain) : List Twips := chain.cells.filterMap Cell.rightBoundary

/-- Where the row begins: at the left offset of the row that the leftmost cell is in. -/
def offset (chain : CellChain) : Twips := (chain.cells.head?.bind Cell.row).elim 0 Row.leftOffset

def rightEdge (chain : CellChain) : Twips := chain.boundaries.getLastD chain.offset

def widths (chain : CellChain) : List Int := (chain.initialChains.filterMap width?).map Int32.toInt

/-- A chain is built from its leftmost cell by adding cells on the right. -/
theorem extend_induction {motive : CellChain → Prop} (single : ∀ cell, motive (extend none cell))
    (extend : ∀ chain cell, motive chain → motive (extend (some chain) cell)) (chain : CellChain) :
    motive chain := by
  obtain ⟨cell, previous⟩ := chain
  induction previous generalizing cell with
  | nil => exact single cell
  | cons p ps ih => exact extend ⟨p, ps⟩ cell (ih p)

variable (chain : CellChain) (cell : Cell)

theorem cells_extend_none : (extend none cell).cells = [cell] := rfl

theorem initialChains_extend_none :
    (extend none cell).initialChains = [extend none cell] := rfl

@[simp] theorem cells_extend_some :
    (extend (some chain) cell).cells = chain.cells ++ [cell] := by simp [cells, extend]

@[simp] theorem initialChains_extend_some : (extend (some chain) cell).initialChains =
    chain.initialChains ++ [extend (some chain) cell] := rfl

theorem cells_ne_nil : chain.cells ≠ [] := by simp [cells]

theorem length_initialChains : chain.initialChains.length = chain.cells.length := by
  rw [← map_last_initialChains, List.length_map]

theorem length_cells : chain.cells.length = chain.index + 1 := by simp [cells, index]

theorem boundaries_extend_none :
    (extend none cell).boundaries = cell.rightBoundary.toList := by
  rw [boundaries, cells_extend_none]
  cases h : cell.rightBoundary <;> simp [h]

@[simp] theorem boundaries_extend_some :
    (extend (some chain) cell).boundaries = chain.boundaries ++ cell.rightBoundary.toList := by
  rw [boundaries, cells_extend_some, List.filterMap_append]
  cases h : cell.rightBoundary <;> simp [boundaries, h]

@[simp] theorem offset_extend_some : (extend (some chain) cell).offset = chain.offset := by
  obtain ⟨first, rest, hcells⟩ := List.exists_cons_of_ne_nil chain.cells_ne_nil
  rw [offset, offset, cells_extend_some, hcells]
  rfl

theorem rightEdge_extend_none :
    (extend none cell).rightEdge = cell.rightBoundary.getD (extend none cell).offset := by
  rw [rightEdge, boundaries_extend_none]
  cases cell.rightBoundary <;> rfl

theorem rightEdge_extend_some :
    (extend (some chain) cell).rightEdge = cell.rightBoundary.getD chain.rightEdge := by
  rw [rightEdge, boundaries_extend_some, offset_extend_some]
  cases h : cell.rightBoundary <;> simp [rightEdge]

/-! Where a cell begins -/

theorem leftBoundary_extend_none : (extend none cell).leftBoundary = (extend none cell).offset :=
  rfl

theorem leftBoundary_extend_some :
    (extend (some chain) cell).leftBoundary = chain.rightEdge := by
  induction chain using extend_induction generalizing cell with
  | single first =>
    rw [rightEdge_extend_none]
    cases h : first.rightBoundary <;> simp [leftBoundary, leftEdge, extend, h, offset, cells]
  | extend chain p ih =>
    have hstep : (extend (some (extend (some chain) p)) cell).leftBoundary =
        p.rightBoundary.getD (extend (some chain) p).leftBoundary := by
      unfold leftBoundary extend
      rw [leftEdge]
      cases p.rightBoundary <;> rfl
    rw [hstep, ih, rightEdge_extend_some]

theorem toInt_width? : chain.width?.map Int32.toInt = chain.last.rightBoundary.map
    fun right => max 0 (min (right.toInt - chain.leftBoundary.toInt) 2147483647) := by
  rw [width?, Option.map_map]
  congr 1
  funext right
  rw [Function.comp_apply, Twips.toInt_clamp]
  omega

theorem initialChains_getElem? (i : Nat) (part : CellChain)
    (h : chain.initialChains[i]? = some part) :
    part.index = i ∧ part.cells = chain.cells.take (i + 1) ∧
      part.leftBoundary =
        ((chain.cells.take i).filterMap Cell.rightBoundary).getLastD chain.offset := by
  induction chain using extend_induction with
  | single cell =>
    obtain ⟨rfl, rfl⟩ : i = 0 ∧ extend none cell = part := by
      simpa [initialChains, ofList, extend, List.getElem?_singleton] using h
    exact ⟨rfl, rfl, leftBoundary_extend_none cell⟩
  | extend chain cell ih =>
    rw [initialChains_extend_some] at h
    have hi : i ≤ chain.cells.length := by
      have hlt := (List.getElem?_eq_some_iff.1 h).1
      rw [List.length_append, length_initialChains, List.length_singleton] at hlt
      omega
    rw [cells_extend_some, offset_extend_some]
    obtain hlt | rfl := Nat.lt_or_eq_of_le hi
    · rw [List.getElem?_append_left (by rwa [length_initialChains])] at h
      rw [List.take_append_of_le_length (by omega), List.take_append_of_le_length hi]
      exact ih h
    · -- the chain itself, which stands at the end
      rw [List.getElem?_append_right (Nat.le_of_eq (length_initialChains chain)),
        length_initialChains, Nat.sub_self, List.getElem?_cons_zero, Option.some.injEq] at h
      subst h
      refine ⟨?_, ?_, ?_⟩
      · rw [index_extend, length_cells]
      · rw [cells_extend_some, List.take_of_length_le (by simp)]
      · rw [List.take_left, leftBoundary_extend_some, rightEdge, boundaries]

/-! How wide the cells are together -/

theorem widths_extend_none : (extend none cell).widths =
    ((extend none cell).width?.map Int32.toInt).toList := by
  rw [widths, initialChains_extend_none]
  cases h : (extend none cell).width? <;> simp [h]

theorem widths_extend_some : (extend (some chain) cell).widths =
    chain.widths ++ ((extend (some chain) cell).width?.map Int32.toInt).toList := by
  rw [widths, initialChains_extend_some, List.filterMap_append, List.map_append]
  cases h : (extend (some chain) cell).width? <;> simp [widths, h]

theorem sum_width? {left : Twips} (hleft : chain.leftBoundary = left)
    (h : ∀ right, chain.last.rightBoundary = some right →
      left ≤ right ∧ right.toInt - left.toInt ≤ 2147483647) :
    (chain.width?.map Int32.toInt).toList.sum =
      (chain.last.rightBoundary.getD left).toInt - left.toInt := by
  rw [toInt_width?, hleft]
  cases hright : chain.last.rightBoundary with
  | none => simp
  | some right =>
    obtain ⟨hle, hspan⟩ := h right hright
    rw [Int32.le_iff_toInt_le] at hle
    simp only [Option.map_some, Option.toList_some, List.sum_singleton, Option.getD_some]
    omega

/-- The boundaries never go back, and none lies before the beginning of the row. -/
def InOrder (chain : CellChain) : Prop := (chain.offset :: chain.boundaries).Pairwise (· ≤ ·)

instance (chain : CellChain) : Decidable chain.InOrder :=
  inferInstanceAs (Decidable (List.Pairwise _ _))

theorem InOrder.offset_le {chain : CellChain} (h : chain.InOrder) :
    chain.offset ≤ chain.rightEdge := by
  have hmem : chain.rightEdge ∈ chain.offset :: chain.boundaries := List.getLastD_mem_cons
  obtain heq | hmem := List.mem_cons.1 hmem
  · exact Int32.le_of_eq heq.symm
  · exact (List.pairwise_cons.1 h).1 _ hmem

theorem inOrder_extend_some {chain : CellChain} {cell : Cell}
    (h : (extend (some chain) cell).InOrder) :
    chain.InOrder ∧ ∀ right, cell.rightBoundary = some right → chain.rightEdge ≤ right := by
  rw [InOrder, offset_extend_some, boundaries_extend_some, ← List.cons_append,
    List.pairwise_append] at h
  obtain ⟨hbefore, -, hlast⟩ := h
  refine ⟨hbefore, fun right hright => ?_⟩
  exact hlast _ List.getLastD_mem_cons right (by simp [hright])

theorem sum_widths (horder : chain.InOrder)
    (hspan : chain.rightEdge.toInt - chain.offset.toInt ≤ 2147483647) :
    chain.widths.sum = chain.rightEdge.toInt - chain.offset.toInt := by
  induction chain using extend_induction with
  | single cell =>
    have hlast : (extend none cell).last = cell := rfl
    have hle := horder.offset_le
    rw [rightEdge_extend_none] at hle hspan ⊢
    rw [widths_extend_none, sum_width? _ (leftBoundary_extend_none cell), hlast]
    intro right hright
    rw [hlast] at hright
    rw [hright, Option.getD_some] at hle hspan
    exact ⟨hle, hspan⟩
  | extend chain cell ih =>
    have hlast : (extend (some chain) cell).last = cell := rfl
    obtain ⟨hbefore, hright⟩ := inOrder_extend_some horder
    have hstart := Int32.le_iff_toInt_le.1 hbefore.offset_le
    rw [rightEdge_extend_some, offset_extend_some] at hspan ⊢
    have hnew : ∀ right, cell.rightBoundary = some right →
        chain.rightEdge ≤ right ∧ right.toInt - chain.rightEdge.toInt ≤ 2147483647 := by
      intro right heq
      rw [heq, Option.getD_some] at hspan
      exact ⟨hright right heq, by omega⟩
    have hsofar : chain.rightEdge.toInt - chain.offset.toInt ≤ 2147483647 := by
      cases heq : cell.rightBoundary with
      | none => rwa [heq, Option.getD_none] at hspan
      | some right =>
        have hle := Int32.le_iff_toInt_le.1 (hright right heq)
        rw [heq, Option.getD_some] at hspan
        omega
    rw [widths_extend_some, List.sum_append, ih hbefore hsofar,
      sum_width? _ (leftBoundary_extend_some chain cell) hnew, hlast]
    omega

/-- The cells of a row tile it. Each stands at its index and begins at the nearest boundary to its
left, and where no boundary goes back the widths add up to what the boundaries span. -/
theorem cells_tile_row :
    chain.initialChains.map last = chain.cells ∧
    chain.initialChains[chain.index]? = some chain ∧
    (∀ i part, chain.initialChains[i]? = some part →
      part.index = i ∧ part.cells = chain.cells.take (i + 1) ∧
      part.leftBoundary =
        ((chain.cells.take i).filterMap Cell.rightBoundary).getLastD chain.offset ∧
      part.width?.map Int32.toInt = part.last.rightBoundary.map fun right =>
        max 0 (min (right.toInt - part.leftBoundary.toInt) 2147483647)) ∧
    (∀ row, (∀ cell ∈ chain.cells, cell.row = row) → chain.offset = row.elim 0 Row.leftOffset) ∧
    (chain.InOrder → chain.rightEdge.toInt - chain.offset.toInt ≤ 2147483647 →
      chain.widths.sum = chain.rightEdge.toInt - chain.offset.toInt) := by
  refine ⟨chain.map_last_initialChains, ?_, ?_, ?_, chain.sum_widths⟩
  · have hget := getElem?_ofList chain.previous.reverse [] chain.last
    simpa [index, initialChains] using hget
  · intro i part h
    obtain ⟨hindex, hcells, hleft⟩ := chain.initialChains_getElem? i part h
    exact ⟨hindex, hcells, hleft, part.toInt_width?⟩
  · intro row hrow
    obtain ⟨first, rest, hcells⟩ := List.exists_cons_of_ne_nil chain.cells_ne_nil
    rw [offset, hcells, ← hrow first (by simp [hcells])]
    rfl

theorem cells_tile_row_gap :
    let row : Row := { contents := [.atom .rowDefaults, .atom (.rowLeftOffset (-108))] }
    let chain : CellChain :=
      ⟨{ row := some row, rightBoundary := some 2500 },
        [{ row := some row }, { row := some row, rightBoundary := some 1000 }]⟩
    chain.InOrder ∧ chain.rightEdge.toInt - chain.offset.toInt ≤ 2147483647 ∧
      chain.widths = [1108, 1500] ∧ chain.widths.sum = 2608 := by
  intro row chain
  have horder : chain.InOrder := by decide
  have hspan : chain.rightEdge.toInt - chain.offset.toInt ≤ 2147483647 := by decide
  exact ⟨horder, hspan, by decide, (cells_tile_row chain).2.2.2.2 horder hspan⟩

end RichText.CellChain
