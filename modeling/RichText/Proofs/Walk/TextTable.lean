import RichText.Proofs.Walk.Induction
set_option autoImplicit false

namespace RichText

structure TextCell where
  boundary : Twips
  text : String
  text_ne_empty : text ≠ ""

structure TextRow where
  offset : Option Twips
  cells : List TextCell
  cells_ne_nil : cells ≠ []

namespace TextCell

def tokens (cell : TextCell) : List Token := [.text cell.text, .atom (.breakMark .cell)]

def events (style : Style) (cell : TextCell) : List Event :=
  [.text style cell.text, .breaks style .cell 1]

def toCell (row : Row) (cell : TextCell) : Cell :=
  { row := some row, rightBoundary := some cell.boundary }

end TextCell

namespace TextRow

def formats (row : TextRow) : List Atom := row.offset.toList.map Atom.rowLeftOffset

def inner (row : TextRow) : List Token :=
  row.formats.map Token.atom ++
    (row.cells.map (fun cell => .atom (.rightCellBoundary cell.boundary)) ++
      .atom .inTable :: row.cells.flatMap TextCell.tokens)

def tokens (row : TextRow) : List Token :=
  .atom .rowDefaults :: (row.inner ++ [.atom (.breakMark .row)])

/-- The row as the one at a position of its table. -/
def toRow (row : TextRow) (index : Nat) : Row := ⟨index, row.tokens⟩

def styleOf (row : TextRow) (cells : List Cell) : Style :=
  ⟨row.formats.map Entry.atom ++
    match cells with
    | [] => []
    | cell :: previous => [.cell ⟨cell, previous⟩]⟩

def textStyle (row : TextRow) (index : Nat) : Style :=
  (row.styleOf (row.cells.map (TextCell.toCell (row.toRow index))).reverse).add (.atom .inTable)

def events (row : TextRow) (index : Nat) : List Event :=
  row.cells.flatMap (TextCell.events (row.textStyle index)) ++
    [.breaks (row.textStyle index) .row 1]

theorem filterMap_tokens (row : TextRow) :
    row.tokens.filterMap Token.rowLeftOffset? = row.offset.toList := by
  have hformats : (row.formats.map Token.atom).filterMap Token.rowLeftOffset? =
      row.offset.toList := by
    cases hoffset : row.offset <;> simp [formats, hoffset, Token.rowLeftOffset?]
  have hcells : (row.cells.map (fun cell => .atom (.rightCellBoundary cell.boundary))).filterMap
      Token.rowLeftOffset? = [] := by
    simp [Token.rowLeftOffset?]
  have htexts : (row.cells.flatMap TextCell.tokens).filterMap Token.rowLeftOffset? = [] := by
    rw [List.filterMap_flatMap, List.flatMap_eq_nil_iff]
    exact fun _ _ => rfl
  simp only [tokens, inner, List.filterMap_cons, List.filterMap_append, hformats, hcells, htexts,
    Token.rowLeftOffset?, List.filterMap_nil, List.append_nil]

theorem leftOffset_toRow (row : TextRow) (index : Nat) :
    (row.toRow index).leftOffset = row.offset.getD 0 := by
  have h : (row.toRow index).contents.filterMap Token.rowLeftOffset? = row.offset.toList :=
    row.filterMap_tokens
  rw [Row.leftOffset, h]
  cases row.offset <;> rfl

end TextRow

/-! The table as rows -/

namespace Row

theorem splitAfterEnd_of_endsRow {front : List Token} {t : Token}
    (hfront : ∀ u ∈ front, u.endsRow = false) (ht : t.endsRow = true) (rest : List Token) :
    splitAfterEnd (front ++ t :: rest) = (front ++ [t], rest) := by
  induction front with
  | nil => simp [splitAfterEnd, ht]
  | cons u front ih =>
    have hu : u.endsRow = false := hfront u (by simp)
    simp [splitAfterEnd, hu, ih (fun v hv => hfront v (by simp [hv]))]

end Row

namespace TextRow

theorem forall_mem_inner {p : Token → Prop} (row : TextRow)
    (hoffset : ∀ offset, p (.atom (.rowLeftOffset offset)))
    (hboundary : ∀ boundary, p (.atom (.rightCellBoundary boundary))) (htable : p (.atom .inTable))
    (htext : ∀ s, p (.text s)) (hcell : p (.atom (.breakMark .cell))) : ∀ t ∈ row.inner, p t := by
  intro t ht
  simp only [inner, formats, TextCell.tokens, List.mem_append, List.mem_map, List.mem_cons,
    List.mem_flatMap, List.not_mem_nil, or_false] at ht
  obtain ⟨_, ⟨offset, _, rfl⟩, rfl⟩ | ⟨cell, _, rfl⟩ | rfl | ⟨cell, _, rfl | rfl⟩ := ht
  · exact hoffset offset
  · exact hboundary cell.boundary
  · exact htable
  · exact htext cell.text
  · exact hcell

theorem endsRow_inner (row : TextRow) : ∀ t ∈ row.inner, t.endsRow = false :=
  row.forall_mem_inner (fun _ => rfl) (fun _ => rfl) rfl (fun _ => rfl) rfl

theorem isBody_tokens (rows : List TextRow) (doc : Document) :
    ∀ t ∈ rows.flatMap tokens, Document.isBody t = true ∧ doc.default? t = none := by
  intro t ht
  obtain ⟨row, _, ht⟩ := List.mem_flatMap.1 ht
  simp only [tokens, List.mem_cons, List.mem_append, List.not_mem_nil, or_false] at ht
  obtain rfl | ht | rfl := ht
  · exact ⟨rfl, rfl⟩
  · exact row.forall_mem_inner (p := fun t => Document.isBody t = true ∧ doc.default? t = none)
      (fun _ => ⟨(by decide : (!Category.rowFormat.contains .headerTag) = true), rfl⟩)
      (fun _ => ⟨(by decide : (!Category.cellFormat.contains .headerTag) = true), rfl⟩) ⟨rfl, rfl⟩
      (fun _ => ⟨(by decide : (!Category.text.contains .headerTag) = true), rfl⟩) ⟨rfl, rfl⟩ t ht
  · exact ⟨rfl, rfl⟩

theorem takeFrom_tokens (rows : List TextRow) (index : Nat) :
    Row.takeFrom index (rows.flatMap tokens) =
      ((rows.zipIdx index).map (fun p => p.1.toRow p.2), []) := by
  induction rows generalizing index with
  | nil =>
    rw [List.flatMap_nil, Row.takeFrom]
    rfl
  | cons row rows ih =>
    have hsplit : Row.splitAfterEnd (row.inner ++ .atom (.breakMark .row) :: rows.flatMap tokens) =
        (row.inner ++ [.atom (.breakMark .row)], rows.flatMap tokens) :=
      Row.splitAfterEnd_of_endsRow row.endsRow_inner rfl _
    have htake : Row.takeContents? ((row :: rows).flatMap tokens) =
        some (row.tokens, rows.flatMap tokens) := by
      simp [tokens, Row.takeContents?_rowDefaults, hsplit]
    rw [Row.takeFrom_of_some htake, ih (index + 1)]
    rfl

end TextRow

/-! A row as a scope -/

namespace Walk

variable {doc : Document} {r : Row} {ts : List Token} {w : Walk}

theorem run_ofAtom (a : Atom) (hactive : w.active = true) (hfence : ∀ on, a ≠ .htmlRtf on)
    (hcell : a.category ≠ .cellFormat) (hborder : ∀ side, a ≠ .borderPosition side) :
    run doc (some r) (.atom a :: ts) w =
      run doc (some r) ts (w.perform doc (Action.ofAtom a)) := by
  have hreads : Action.Reads (some r) w.active (.atom a) ts (Action.ofAtom a) ts := by
    rw [hactive]
    exact Action.reads_ofAtom hfence hcell hborder (fun _ => Option.some_ne_none r)
  exact run_perform hreads (Action.ofAtom_ne_scope a) (Action.ofAtom_ne_rows a)

theorem run_rightCellBoundary (boundary : Twips) (hactive : w.active = true) :
    run doc (some r) (.atom (.rightCellBoundary boundary) :: ts) w =
      run doc (some r) ts
        (w.perform doc (.cell ⟨some r, some boundary, none, none, .none, []⟩)) := by
  have hcell : Action.nextOfAtom (some r) (.rightCellBoundary boundary) ts =
      (.cell ⟨some r, some boundary, none, none, .none, []⟩, ts) := by
    have hcategory : (Atom.rightCellBoundary boundary).category = .cellFormat := rfl
    simp [Action.nextOfAtom, hcategory, Cell.take]
  have hnext : Action.next (some r) w.active (.atom (.rightCellBoundary boundary)) ts =
      (.cell ⟨some r, some boundary, none, none, .none, []⟩, ts) := by
    rw [Action.next, hactive, if_pos rfl, hcell]
    exact fun _ => Atom.noConfusion
  rw [run, hnext]

end Walk

namespace TextRow

variable {doc : Document} {row : TextRow} {r : Row} {rest : List Token} {w : Walk}

theorem run_formats (hactive : w.active = true) (hstyle : w.style = {}) :
    Walk.run doc (some r) (.atom .rowDefaults :: (row.formats.map Token.atom ++ rest)) w =
      Walk.run doc (some r) rest { w with style := row.styleOf [] } := by
  rw [Walk.run_ofAtom .rowDefaults hactive (by simp) (by decide) (by simp)]
  have hdefaults : w.perform doc (Action.ofAtom .rowDefaults) = w := by
    cases w
    subst hstyle
    rfl
  rw [hdefaults]
  cases hoffset : row.offset with
  | none => simp [formats, styleOf, hoffset, ← hstyle]
  | some offset =>
    have hrecord : Action.ofAtom (.rowLeftOffset offset) =
        .record [.atom (.rowLeftOffset offset)] := by
      have hcategory : (Atom.rowLeftOffset offset).category = .rowFormat := rfl
      unfold Action.ofAtom
      rw [hcategory]
      rfl
    simp only [formats, styleOf, hoffset, Option.toList_some, List.map_cons, List.map_nil,
      List.singleton_append]
    rw [Walk.run_ofAtom (.rowLeftOffset offset) hactive (by simp)
      (by decide : Category.rowFormat ≠ .cellFormat) (by simp), hrecord]
    cases w
    subst hstyle
    rfl

theorem add_cell_styleOf (row : TextRow) (cell : Cell) (cells : List Cell) :
    (row.styleOf cells).add (.cell (CellChain.extend (row.styleOf cells).cellChain? cell)) =
      row.styleOf (cell :: cells) := by
  cases row with
  | mk offset => cases offset <;> cases cells <;> rfl

theorem run_cells (doc : Document) (row : TextRow) (r : Row) (rest : List Token) (w : Walk)
    (hactive : w.active = true) (cells : List TextCell) (before : List Cell) :
    Walk.run doc (some r)
        (cells.map (fun cell => .atom (.rightCellBoundary cell.boundary)) ++ rest)
        { w with style := row.styleOf before } =
      Walk.run doc (some r) rest
        { w with style := row.styleOf ((cells.map (TextCell.toCell r)).reverse ++ before) } := by
  induction cells generalizing before with
  | nil => rfl
  | cons cell cells ih =>
    have hadd : Walk.perform doc { w with style := row.styleOf before } (.cell (cell.toCell r)) =
        { w with style := row.styleOf (cell.toCell r :: before) } := by
      simp only [Walk.perform, add_cell_styleOf]
    rw [List.map_cons, List.cons_append,
      Walk.run_rightCellBoundary (w := { w with style := row.styleOf before }) cell.boundary
        hactive]
    change Walk.run doc (some r) _ (Walk.perform doc _ (.cell (cell.toCell r))) = _
    rw [hadd, ih]
    simp

section Texts

variable (hactive : w.active = true) (htabs : w.tabs = 0)
  (hresolve : w.style.resolveList doc = w.style)
include hactive htabs hresolve

theorem run_text (cell : TextCell) :
    Walk.run doc (some r) (cell.tokens ++ rest) w =
      Walk.run doc (some r) rest (w.report (cell.events w.style)) := by
  have htext : w.perform doc (Action.ofAtom (.text cell.text)) =
      w.report [.text w.style cell.text] := by
    rw [Action.ofAtom_text, Walk.perform_text_of_resolved htabs hresolve]
  have hbreak : (w.report [.text w.style cell.text]).perform doc
      (Action.ofAtom (.breakMark .cell)) = w.report (cell.events w.style) := by
    have haction : Action.ofAtom (.breakMark .cell) = .breakMark .cell := rfl
    simp [haction, Walk.perform, Walk.reportBreak, Walk.resolve, hresolve, Walk.emit,
      TextCell.events, htabs, Walk.report]
  rw [TextCell.tokens, List.cons_append, Walk.run_ofAtom (.text cell.text) hactive (by simp)
    (by decide : Category.text ≠ .cellFormat) (by simp), htext, List.cons_append,
    Walk.run_ofAtom (w := w.report _) (.breakMark .cell) hactive (by simp) (by decide) (by simp),
    hbreak, List.nil_append]

theorem run_texts (cells : List TextCell) :
    Walk.run doc (some r) (cells.flatMap TextCell.tokens ++ rest) w =
      Walk.run doc (some r) rest (w.report (cells.flatMap (TextCell.events w.style))) := by
  induction cells generalizing w with
  | nil => simp
  | cons cell cells ih =>
    have hrest := ih (w := w.report (cell.events w.style)) hactive htabs hresolve
    rw [List.flatMap_cons, List.append_assoc, run_text hactive htabs hresolve, hrest,
      Walk.report_report, List.flatMap_cons]
    rfl

/-- The end of a row leaves the table in every scope. -/
theorem run_endRow :
    Walk.run doc (some r) [.atom (.breakMark .row)] w =
      (w.report [.breaks w.style .row 1]).leaveTable := by
  have haction : Action.ofAtom (.breakMark .row) = .breakMark .row := rfl
  rw [Walk.run_ofAtom (.breakMark .row) hactive (by simp) (by decide) (by simp), haction, Walk.run]
  simp [Walk.perform, Walk.reportBreak, Walk.resolve, hresolve, Walk.emit, Walk.leaveTable, htabs,
    Walk.report]

end Texts

theorem find?_textStyle (row : TextRow) (index : Nat) :
    (row.textStyle index).find? .listStyleId = none := by
  cases row with
  | mk offset cells h =>
    unfold textStyle
    rw [Style.find?_add_of_ne rfl (by decide)]
    generalize (List.map _ _).reverse = previous
    cases offset <;> cases previous <;> rfl

/-- A row as a scope of its own, in a table that stands outside of all groups. -/
theorem leave_run_tokens (row : TextRow) (index : Nat) (w : Walk) (hactive : w.active = true)
    (hstyle : w.style = {}) (henclosing : w.enclosing = []) :
    w.leave (Walk.run doc (some (row.toRow index)) row.tokens w.enter) =
      w.report (row.events index) := by
  have hresolve : (row.textStyle index).resolveList doc = row.textStyle index :=
    Style.resolveList_of_find?_eq_none (row.find?_textStyle index)
  let inside := { w.enter with style := row.textStyle index }
  have hinside : Walk.run doc (some (row.toRow index)) row.tokens w.enter =
      (inside.report (row.events index)).leaveTable := by
    have hcells := run_cells doc row (row.toRow index)
      (.atom .inTable :: (row.cells.flatMap TextCell.tokens ++ [.atom (.breakMark .row)])) w.enter
      hactive row.cells []
    have htable : Walk.perform doc
        { w.enter with
          style := row.styleOf (row.cells.map (TextCell.toCell (row.toRow index))).reverse }
        (Action.ofAtom .inTable) = inside := rfl
    rw [List.append_nil] at hcells
    rw [tokens, inner, List.append_assoc, List.append_assoc, List.cons_append,
      run_formats (w := w.enter) hactive hstyle, hcells,
      Walk.run_ofAtom (w := { w.enter with style := row.styleOf _ }) .inTable hactive (by simp)
        (by decide) (by simp), htable, run_texts (w := inside) hactive rfl hresolve,
      run_endRow (w := inside.report _) hactive rfl hresolve, Walk.report_report]
    rfl
  rw [hinside]
  cases w
  subst hstyle henclosing
  rfl

theorem foldl_rows (rows : List TextRow) (index : Nat) (w : Walk) (hactive : w.active = true)
    (hstyle : w.style = {}) (henclosing : w.enclosing = []) :
    ((rows.zipIdx index).map (fun p => p.1.toRow p.2)).foldl
        (fun w r => w.leave (Walk.run doc (some r) r.contents w.enter)) w =
      w.report ((rows.zipIdx index).flatMap (fun p => p.1.events p.2)) := by
  induction rows generalizing index w with
  | nil => simp
  | cons row rows ih =>
    have hrow : w.leave (Walk.run doc (some (row.toRow index)) (row.toRow index).contents w.enter) =
        w.report (row.events index) := leave_run_tokens row index w hactive hstyle henclosing
    rw [List.zipIdx_cons, List.map_cons, List.foldl_cons, hrow,
      ih (index + 1) (w.report _) hactive hstyle henclosing, Walk.report_report, List.flatMap_cons]

theorem run_rows (rows : List TextRow) (w : Walk) (hactive : w.active = true)
    (hstyle : w.style = {}) (henclosing : w.enclosing = []) :
    Walk.run doc none (rows.flatMap tokens) w =
      w.report (rows.zipIdx.flatMap (fun p => p.1.events p.2)) := by
  cases hrows : rows with
  | nil => simp [Walk.run]
  | cons row after =>
    obtain ⟨rest, hrest⟩ : ∃ rest, rows.flatMap tokens = .atom .rowDefaults :: rest := by
      rw [hrows]
      exact ⟨_, rfl⟩
    have htake : Row.take (.atom .rowDefaults :: rest) =
        (rows.zipIdx.map (fun p => p.1.toRow p.2), []) := by
      rw [← hrest]
      exact takeFrom_tokens rows 0
    have hnext : Action.next none w.active (.atom .rowDefaults) rest =
        (.rows (rows.zipIdx.map (fun p => p.1.toRow p.2)), []) := by
      simp [Action.next, Action.nextOfAtom, hactive, htake]
    rw [← hrows, hrest, Walk.run, hnext]
    dsimp only
    rw [foldl_rows rows 0 w hactive hstyle henclosing, Walk.run]

theorem isIgnorable_tokens (rows : List TextRow) :
    Group.isIgnorable (rows.flatMap tokens) = false := by
  cases rows <;> rfl

end TextRow

namespace Document

def ofRows (doc : Document) (rows : List TextRow) : Document :=
  { doc with contents := rows.flatMap TextRow.tokens, hasHtml := false }

theorem events_ofRows (doc : Document) (rows : List TextRow) :
    (doc.ofRows rows).events = rows.zipIdx.flatMap (fun p => p.1.events p.2) ++ [.close] := by
  have hmem := TextRow.isBody_tokens rows (doc.ofRows rows)
  have hdefaults : (doc.ofRows rows).contents.filterMap (doc.ofRows rows).default? = [] :=
    List.filterMap_eq_nil_iff.2 (fun t ht => (hmem t ht).2)
  have hbody : (doc.ofRows rows).body = rows.flatMap TextRow.tokens :=
    List.filter_eq_self.2 (fun t ht => (hmem t ht).1)
  have hwalk : (doc.ofRows rows).walk =
      ({} : Walk).report (rows.zipIdx.flatMap (fun p => p.1.events p.2)) := by
    rw [walk, hbody, TextRow.isIgnorable_tokens]
    exact TextRow.run_rows rows {} rfl rfl rfl
  rw [events, hdefaults, hwalk]
  simp [Walk.report]

end Document

end RichText
