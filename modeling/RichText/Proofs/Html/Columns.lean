import Mathlib.Data.List.DropRight
import Mathlib.Data.List.Forall2
import RichText.Proofs.Html.OpenRow
set_option autoImplicit false

/-!
The cells of a row, column by column. A cell is opened for the first thing to be seen in it, at the
latest for its end, and takes its declarations from the column of that style's row. Main statement:
`row_ofEvents`.
-/
namespace RichText

/-! Cells of events -/

namespace Event

def fillsRow : Event → Bool
  | .text style _ | .picture style _ => style.isInTable
  | .breaks style kind _ =>
    style.isInTable && kind ∈ [BreakKind.tab, .line, .paragraph, .section, .cell]
  | .defaultFont _ | .defaultTabWidth _ | .close => false

def endsCell : Event → Bool
  | .breaks _ kind _ => kind = .cell
  | .text _ _ | .picture _ _ | .defaultFont _ | .defaultTabWidth _ | .close => false

def opensCell (settings : RenderSettings) (e : Event) : Bool := e.writes settings || e.endsCell

/-- The events cell by cell, each cell through its end, after those that the first cell has so far.
Behind the last end is what may be a cell without an end. -/
def cells : List Event → List Event → List (List Event)
  | current, [] => [current]
  | current, e :: es =>
    if e.endsCell then (current ++ [e]) :: cells [] es else cells (current ++ [e]) es

theorem length_cells (current events : List Event) :
    (cells current events).length = events.countP endsCell + 1 := by
  induction events generalizing current with
  | nil => rfl
  | cons e es ih => cases hends : e.endsCell <;> simp [cells, hends, ih]

theorem rtakeWhile_append_end {e : Event} (hends : e.endsCell = true) (before after : List Event) :
    ((before ++ e :: after).rtakeWhile fun e => !e.endsCell) =
      after.rtakeWhile fun e => !e.endsCell := by
  induction after using List.reverseRecOn with
  | nil => exact List.rtakeWhile_concat_neg _ before e (by simp [hends])
  | append_singleton after e' ih =>
    rw [← List.cons_append, ← List.append_assoc, List.rtakeWhile_concat, List.rtakeWhile_concat, ih]

theorem getLast?_cells (current events : List Event)
    (hcurrent : ∀ e ∈ current, e.endsCell = false) :
    (cells current events).getLast? =
      some ((current ++ events).rtakeWhile fun e => !e.endsCell) := by
  induction events generalizing current with
  | nil =>
    rw [List.append_nil, List.rtakeWhile_eq_self_iff.2 (by simpa using hcurrent)]
    rfl
  | cons e es ih =>
    cases hends : e.endsCell with
    | true =>
      rw [cells, if_pos hends, rtakeWhile_append_end hends, List.getLast?_cons, ih [] (by simp)]
      rfl
    | false =>
      have hmore : ∀ e' ∈ current ++ [e], e'.endsCell = false :=
        List.forall_mem_append.2 ⟨hcurrent, by simpa using hends⟩
      rw [cells, if_neg (by simp [hends]), ih _ hmore, List.append_assoc, List.singleton_append]

end Event

namespace Html

/-- The fragment is the cell of these events: it is opened for the first one that opens a cell. -/
structure Fragment.IsCellOf (settings : RenderSettings) (events : List Event)
    (fragment : Fragment) : Prop where
  style_eq : (events.find? (Event.opensCell settings)).bind Event.style? = some fragment.style
  shows : fragment.Shows Element.fitsCell events

namespace Page

variable {doc : Document} {settings : RenderSettings} {style : Style} {page start : Page}

/-! The cells of the events -/

/-- What is open for the events of the last cell: the cell, or nothing as long as no cell is opened
for any of them. -/
def IsCurrent (settings : RenderSettings) (events : List Event) : Option Fragment → Prop
  | some cell => cell.IsCellOf settings events
  | none => events.find? (Event.opensCell settings) = none

theorem find?_concat_of_none {events : List Event} {e : Event}
    (hevents : events.find? (Event.opensCell settings) = none)
    (h : e.opensCell settings = true) :
    (events ++ [e]).find? (Event.opensCell settings) = some e := by
  simp [List.find?_append, hevents, h]

theorem style_concat {events : List Event}
    (h : (events.find? (Event.opensCell settings)).bind Event.style? = some style) (e : Event) :
    ((events ++ [e]).find? (Event.opensCell settings)).bind Event.style? = some style := by
  obtain ⟨first, hfirst, -⟩ := Option.bind_eq_some_iff.1 h
  rw [List.find?_append, hfirst, Option.some_or, ← hfirst]
  exact h

theorem any_opensCell_of_isCellOf {events : List Event} {fragment : Fragment}
    (h : fragment.IsCellOf settings events) : events.any (Event.opensCell settings) = true := by
  obtain ⟨first, hfirst, -⟩ := Option.bind_eq_some_iff.1 h.style_eq
  exact List.any_eq_true.2 ⟨first, List.mem_of_find?_eq_some hfirst, List.find?_some hfirst⟩

namespace IsCurrent

variable {events : List Event} {e : Event} {current : Option Fragment} {pieces : List Markup}

theorem visibleText_of_none (h : IsCurrent settings events none) :
    events.flatMap Event.visibleText = [] := by
  have hnone : ∀ e ∈ events, e.writes settings = false := by
    intro e he
    have hnot := Bool.eq_false_iff.2 (List.find?_eq_none.1 h e he)
    exact (Bool.or_eq_false_iff.1 hnot).1
  exact flatMap_visibleText_of_not_writes hnone

theorem any_opensCell (h : IsCurrent settings events current) :
    events.any (Event.opensCell settings) = current.isSome := by
  cases current with
  | none => simpa [IsCurrent] using h
  | some cell => exact any_opensCell_of_isCellOf h

theorem append (h : IsCurrent settings events current) (hpieces : IsContent [] pieces) :
    IsCurrent settings events (current.map (·.append pieces)) := by
  cases current with
  | none => exact h
  | some cell =>
    obtain ⟨hstyle, hwithin, htext⟩ := h
    refine ⟨hstyle, List.forall_mem_append.2 ⟨hwithin, hpieces.isWithin⟩, ?_⟩
    simp [Fragment.append, htext, hpieces.visibleText_eq]

theorem concat_quiet (h : IsCurrent settings events current)
    (he : e.opensCell settings = false) : IsCurrent settings (events ++ [e]) current := by
  cases current with
  | none =>
    change (events ++ [e]).find? _ = none
    rw [List.find?_append, h]
    simp [he]
  | some cell =>
    obtain ⟨hstyle, hwithin, htext⟩ := h
    refine ⟨style_concat hstyle e, hwithin, ?_⟩
    have hnothing := visibleText_of_not_writes (Bool.or_eq_false_iff.1 he).1
    simp [htext, hnothing]

theorem concat_open (h : IsCurrent settings events current) (he : e.opensCell settings = true)
    (hstyle : e.style? = some style) (hpieces : IsContent e.visibleText pieces) :
    ((current.getD ⟨style, []⟩).append pieces).IsCellOf settings (events ++ [e]) := by
  cases current with
  | none =>
    refine ⟨?_, hpieces.isWithin, ?_⟩
    · rw [find?_concat_of_none h he]
      exact hstyle
    · simpa [Fragment.append, h.visibleText_of_none] using hpieces.visibleText_eq
  | some cell =>
    obtain ⟨hfound, hwithin, htext⟩ := h
    refine ⟨style_concat hfound e, List.forall_mem_append.2 ⟨hwithin, hpieces.isWithin⟩, ?_⟩
    simp [Fragment.append, htext, hpieces.visibleText_eq]

end IsCurrent

/-! A row of events -/

theorem style_of_fillsRow {e : Event} (h : e.fillsRow = true) :
    ∃ style, e.style? = some style ∧ style.isInTable = true := by
  cases e with
  | text style _ | picture style _ => exact ⟨style, rfl, h⟩
  | breaks style kind _ => exact ⟨style, rfl, (Bool.and_eq_true_iff.1 h).1⟩
  | defaultFont _ | defaultTabWidth _ | close => exact absurd h Bool.false_ne_true

namespace InRow

variable {events : List Event} {e : Event} {ended : List Fragment} {current : Option Fragment}

theorem add_end (hstart : start.IsBetweenRows) (h : InRow doc start ended current page)
    (hcurrent : IsCurrent settings events current) (hfills : e.fillsRow = true)
    (hends : e.endsCell = true) :
    ∃ cell : Fragment, cell.IsCellOf settings (events ++ [e]) ∧
      InRow doc start (ended ++ [cell]) none (page.add doc settings e) := by
  cases e with
  | breaks style kind count =>
    obtain rfl : kind = .cell := of_decide_eq_true hends
    obtain ⟨pieces, hcontent, hrow⟩ := h.endCell hstart (Bool.and_eq_true_iff.1 hfills).1
    exact ⟨_, hcurrent.concat_open rfl rfl hcontent, hrow⟩
  | text _ _ | picture _ _ | defaultFont _ | defaultTabWidth _ | close =>
    exact absurd hends Bool.false_ne_true

theorem add_writes (hstart : start.IsBetweenRows) (h : InRow doc start ended current page)
    (hcurrent : IsCurrent settings events current) (hfills : e.fillsRow = true)
    (hwrites : e.writes settings = true) :
    ∃ current', IsCurrent settings (events ++ [e]) current' ∧
      InRow doc start ended current' (page.add doc settings e) := by
  obtain ⟨style, hstyle, hin⟩ := style_of_fillsRow hfills
  obtain ⟨hgrows, htable⟩ := grows_add doc page hwrites hstyle hin
  obtain ⟨pieces, hcontent, hrow⟩ := (h.openCell hstart style).grow hgrows htable
  have hopens : e.opensCell settings = true := by rw [Event.opensCell, hwrites, Bool.true_or]
  exact ⟨some _, hcurrent.concat_open hopens hstyle hcontent, hrow⟩

theorem add_quiet (h : InRow doc start ended current page)
    (hcurrent : IsCurrent settings events current) (hfills : e.fillsRow = true)
    (hquiet : e.opensCell settings = false) :
    ∃ current', IsCurrent settings (events ++ [e]) current' ∧
      InRow doc start ended current' (page.add doc settings e) := by
  obtain ⟨hwrites, hends⟩ := Bool.or_eq_false_iff.1 hquiet
  by_cases hsection : ∃ style count, e = .breaks style .section count
  · obtain ⟨style, count, rfl⟩ := hsection
    obtain ⟨pieces, hcontent, hrow⟩ := h.closeBlock
    exact ⟨_, (hcurrent.concat_quiet hquiet).append hcontent, hrow⟩
  · obtain ⟨style, hstyle, -⟩ := style_of_fillsRow hfills
    have hbreak : ∀ style kind count, e ≠ .breaks style kind count := by
      rintro style kind count rfl
      cases kind with
      | «section» => exact hsection ⟨style, count, rfl⟩
      | tab | line | paragraph => exact Bool.noConfusion hwrites
      | cell => exact Bool.noConfusion hends
      | page | row => simp [Event.fillsRow] at hfills
    rw [add_of_not_writes hwrites hbreak hstyle]
    exact ⟨current, hcurrent.concat_quiet hquiet, h⟩

theorem add_within (hstart : start.IsBetweenRows) (h : InRow doc start ended current page)
    (hcurrent : IsCurrent settings events current) (hfills : e.fillsRow = true)
    (hends : e.endsCell = false) :
    ∃ current', IsCurrent settings (events ++ [e]) current' ∧
      InRow doc start ended current' (page.add doc settings e) := by
  cases hwrites : e.writes settings with
  | true => exact h.add_writes hstart hcurrent hfills hwrites
  | false => exact h.add_quiet hcurrent hfills (Bool.or_eq_false_iff.2 ⟨hwrites, hends⟩)

/-- The events after `events` of the current cell: some more cells end, and what is behind the last
end is open. -/
theorem foldl_add (hstart : start.IsBetweenRows) (more : List Event)
    (hfills : ∀ e ∈ more, e.fillsRow = true) (h : InRow doc start ended current page)
    (hcurrent : IsCurrent settings events current) :
    ∃ rows last fragments current', Event.cells events more = rows ++ [last] ∧
      List.Forall₂ (Fragment.IsCellOf settings) rows fragments ∧
      IsCurrent settings last current' ∧
      InRow doc start (ended ++ fragments) current' (more.foldl (add doc settings) page) := by
  induction more generalizing events ended current page with
  | nil =>
    refine ⟨[], events, [], current, rfl, .nil, hcurrent, ?_⟩
    rwa [List.append_nil]
  | cons e es ih =>
    obtain ⟨hfill, hrest⟩ := List.forall_mem_cons.1 hfills
    cases hends : e.endsCell with
    | true =>
      obtain ⟨cell, hcell, hrow⟩ := h.add_end hstart hcurrent hfill hends
      have hnone : IsCurrent settings [] none := rfl
      obtain ⟨rows, last, fragments, current', hcells, hall, hlast, hrow'⟩ :=
        ih hrest hrow hnone
      refine ⟨(events ++ [e]) :: rows, last, cell :: fragments, current', ?_, .cons hcell hall,
        hlast, ?_⟩
      · rw [Event.cells, if_pos hends, hcells, List.cons_append]
      · simpa using hrow'
    | false =>
      obtain ⟨next, hnext, hrow⟩ := h.add_within hstart hcurrent hfill hends
      obtain ⟨rows, last, fragments, current', hcells, hrest'⟩ := ih hrest hrow hnext
      refine ⟨rows, last, fragments, current', ?_, hrest'⟩
      rw [Event.cells, if_neg (by simp [hends]), hcells]

end InRow

theorem any_opensCell_rtakeWhile (events : List Event) :
    (events.rtakeWhile fun e => !e.endsCell).any (Event.opensCell settings) =
      (events.rtakeWhile fun e => !e.endsCell).any (Event.writes settings) := by
  have hsame : ∀ e ∈ events.rtakeWhile fun e => !e.endsCell,
      e.opensCell settings = e.writes settings := by
    intro e he
    have hends : e.endsCell = false := by simpa using List.mem_rtakeWhile_imp he
    rw [Event.opensCell, hends, Bool.or_false]
  rw [Bool.eq_iff_iff, List.any_eq_true, List.any_eq_true]
  exact exists_congr fun e => and_congr_right fun he => by rw [hsame e he]

/-- Cells that have ended are cells of the row; what is behind them is one if a cell is opened for
some of it. -/
theorem filter_cells {events last : List Event} {rows : List (List Event)}
    {fragments : List Fragment} {current : Option Fragment}
    (hcells : Event.cells [] events = rows ++ [last])
    (hall : List.Forall₂ (Fragment.IsCellOf settings) rows fragments)
    (hlast : IsCurrent settings last current) :
    List.Forall₂ (Fragment.IsCellOf settings)
      ((Event.cells [] events).filter (·.any (Event.opensCell settings)))
      (fragments ++ current.toList) := by
  have hrows : rows.filter (·.any (Event.opensCell settings)) = rows := by
    have hboth := hall.imp fun _ _ hcell => And.intro (any_opensCell_of_isCellOf hcell) hcell
    exact List.filter_eq_self.2 ((List.forall₂_and_left _ _).1 hboth).1
  rw [hcells, List.filter_append, hrows]
  refine List.rel_append hall ?_
  rw [List.filter_singleton, hlast.any_opensCell]
  cases current with
  | none => exact .nil
  | some cell => exact .cons hlast .nil

/-- A row of events: the cells for which something opens a cell, each with the column that it has
in the row of its style, and no row without any. -/
theorem row_ofEvents (doc : Document) (settings : RenderSettings) (page : Page)
    (hpage : page.IsBetweenRows) (events : List Event)
    (hevents : ∀ e ∈ events, e.fillsRow = true) (style : Style) (count : Nat) :
    let row := (Event.cells [] events).filter (·.any (Event.opensCell settings))
    row.length = events.countP Event.endsCell +
        (if (events.rtakeWhile (fun e => !e.endsCell)).any (Event.writes settings) then 1 else 0) ∧
      ∃ front fragments,
        (∀ piece ∈ front, piece.isWithin Element.precedesRow = true) ∧
        List.Forall₂ (Fragment.IsCellOf settings) row fragments ∧
        ((events ++ [Event.breaks style .row count]).foldl (add doc settings) page).html =
          page.html ++ Markup.write (front ++ Fragment.row doc fragments).toArray := by
  intro row
  have hnone : IsCurrent settings [] none := rfl
  have hbefore : InRow doc page [] none page :=
    .before ⟨[], by simp, by simp [Fragment.rowTag, Fragment.cells]⟩ rfl
  obtain ⟨rows, last, fragments, current, hcells, hall, hlast, hrow⟩ :=
    hbefore.foldl_add hpage events hevents hnone
  obtain ⟨pieces, front, hcontent, hfront, hout⟩ := hrow.endRow hpage
  have hcellsOf : List.Forall₂ (Fragment.IsCellOf settings) row
      (fragments ++ (current.map (·.append pieces)).toList) :=
    filter_cells hcells hall (hlast.append hcontent)
  have hrows : rows.length = events.countP Event.endsCell := by
    have hlength := Event.length_cells [] events
    rw [hcells, List.length_append] at hlength
    exact Nat.succ_inj.1 hlength
  have hbehind : last = events.rtakeWhile fun e => !e.endsCell := by
    have hlast? := Event.getLast?_cells [] events (by simp)
    rw [hcells, List.getLast?_concat] at hlast?
    exact Option.some.inj hlast?
  refine ⟨?_, front, _, hfront, hcellsOf, ?_⟩
  · rw [← any_opensCell_rtakeWhile, ← hbehind, ← hrows, hcellsOf.length_eq, List.length_append,
      hall.length_eq, hlast.any_opensCell]
    cases current <;> simp
  · rw [List.foldl_append]
    exact html_of_out (hout.trans (by simp))

/-- A cell with a text, an empty cell and one without an end. The hidden text opens no cell, and
the row defines two columns. -/
def threeCells : List Event :=
  let row : CellChain := ⟨{ rightBoundary := some 2000 }, [{ rightBoundary := some 1000 }]⟩
  let style : Style := ⟨[.atom .inTable, .cell row]⟩
  [.text ⟨[.atom .inTable, .atom (.hidden true)]⟩ "no", .text style "yes", .breaks style .cell 1,
    .breaks style .section 1, .breaks style .cell 1, .breaks style .line 1]

theorem row_threeCells :
    ({} : Page).IsBetweenRows ∧ (∀ e ∈ threeCells, e.fillsRow = true) ∧
      ∃ front fragments, fragments.length = 3 ∧
        Markup.write (front ++ Fragment.row {} fragments).toArray =
          "<table style=\"border-collapse:collapse\"><tr><td style=\"width:50pt\"><p>yes</p></td>" ++
            "<td style=\"width:50pt\"></td><td><p><br></p></td></tr>" ∧
        ((threeCells ++ [Event.breaks {} .row 1]).foldl (add {} {}) {}).html =
          Page.html {} ++ Markup.write (front ++ Fragment.row {} fragments).toArray := by
  have hevents : ∀ e ∈ threeCells, e.fillsRow = true := by decide
  obtain ⟨hlength, front, fragments, -, hcells, hhtml⟩ :=
    row_ofEvents {} {} {} (.inl rfl) threeCells hevents {} 1
  have hthree : fragments.length = 3 := by
    rw [← hcells.length_eq, hlength]
    decide
  have hwritten : ((threeCells ++ [Event.breaks {} .row 1]).foldl (add {} {}) {}).html =
      "<table style=\"border-collapse:collapse\"><tr><td style=\"width:50pt\"><p>yes</p></td>" ++
        "<td style=\"width:50pt\"></td><td><p><br></p></td></tr>" := by
    decide +kernel
  have hempty : Page.html {} = "" := rfl
  refine ⟨.inl rfl, hevents, front, fragments, hthree, ?_, hhtml⟩
  rw [← hwritten, hhtml, hempty, String.empty_append]

end Page

end Html

end RichText
