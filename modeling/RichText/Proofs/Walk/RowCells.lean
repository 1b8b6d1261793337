import RichText.Proofs.Walk.Stations
import RichText.Proofs.Walk.PlainReading
import RichText.Proofs.Style.Cells
set_option autoImplicit false

/-!
The cells of a row. Along a row a style lists the cells that the row has declared so far, and no
others. Main statements: `declared_run`, the invariant along a walk, and `cells_of_row`.
-/
namespace RichText

/-! Tokens -/

namespace Token

def rightCellBoundary? : Token → Option Twips
  | .atom (.rightCellBoundary position) => some position
  | _ => none

theorem rightCellBoundary?_of_category {t : Token} (h : t.category ≠ .cellFormat) :
    t.rightCellBoundary? = none := by
  unfold rightCellBoundary?
  split
  · exact absurd rfl h
  · rfl

@[simp] theorem taken_append_self (before rest : List Token) :
    taken (before ++ rest) rest = before := by
  simp [taken]

end Token

theorem Border.boundaries_absorbAll (b : Border) (ts : List Token) :
    ∃ before, ts = before ++ (b.absorbAll ts).2 ∧
      before.filterMap Token.rightCellBoundary? = [] := by
  induction ts generalizing b with
  | nil => exact ⟨[], rfl, rfl⟩
  | cons t ts ih =>
    unfold absorbAll
    split
    · rename_i b' hb
      obtain ⟨before, hts, hbefore⟩ := ih b'
      have ht : t.rightCellBoundary? = none := by
        apply Token.rightCellBoundary?_of_category
        rw [category_of_absorb? hb]
        decide
      refine ⟨t :: before, by rw [List.cons_append, ← hts], ?_⟩
      rw [List.filterMap_cons_none ht, hbefore]
    · exact ⟨[], rfl, rfl⟩

namespace Cell

@[simp] theorem row_describe (cell : Cell) (t : Token) : (cell.describe t).row = cell.row := by
  cases t with
  | group contents => rfl
  | atom a => cases a <;> rfl

theorem row_take (cell : Cell) (ts : List Token) : (cell.take ts).1.row = cell.row := by
  fun_induction take cell ts with
  | case1 | case3 => rfl
  | case2 _ _ _ ih => exact ih
  | case4 _ _ _ _ _ ih => rw [ih, row_describe]

theorem boundaries_take (cell : Cell) (ts : List Token) (h : (cell.take ts).2 ≠ []) :
    ∃ before position, ts = before ++ (cell.take ts).2 ∧
      (cell.take ts).1.rightBoundary = some position ∧
      before.filterMap Token.rightCellBoundary? = [position] := by
  fun_induction take cell ts with
  | case1 => exact absurd rfl h
  | case2 cell ts side ih =>
    obtain ⟨before, position, hrest, hposition, hbefore⟩ := ih h
    obtain ⟨border, hts, hborder⟩ := Border.boundaries_absorbAll { side := side } ts
    refine ⟨.atom (.borderPosition side) :: (border ++ before), position, ?_, hposition, ?_⟩
    · rw [List.cons_append, List.append_assoc, ← hrest, ← hts]
    · rw [List.filterMap_cons_none rfl, List.filterMap_append, hborder, hbefore, List.nil_append]
  | case3 cell ts position => exact ⟨[_], position, rfl, rfl, rfl⟩
  | case4 cell ts t hborder hright ih =>
    obtain ⟨before, position, hrest, hposition, hbefore⟩ := ih h
    have ht : t.rightCellBoundary? = none := by
      unfold Token.rightCellBoundary?
      split
      · exact absurd rfl (hright _)
      · rfl
    refine ⟨t :: before, position, by rw [List.cons_append, ← hrest], hposition, ?_⟩
    rw [List.filterMap_cons_none ht, hbefore]

end Cell

/-! Readings -/

namespace Action

def SparesCells : Action → Prop
  | .record entries => ∀ e ∈ entries, e.SparesCells
  | .cell _ => False
  | _ => True

theorem sparesCells_singleton {e : Entry} (h : e.SparesCells) : (record [e]).SparesCells := by
  intro e' he'
  rwa [List.mem_singleton.1 he']

theorem sparesCells_enter (contents : List Token) : (enter contents).SparesCells := by
  obtain h | ⟨h, _⟩ := enter_cases contents
  all_goals
    rw [h]
    exact trivial

theorem sparesCells_ofGroup (contents : List Token) : (ofGroup contents).SparesCells := by
  have hplain : (ofPlainGroup contents).SparesCells := by
    unfold ofPlainGroup
    split
    · intro e he
      obtain ⟨t, ht, rfl⟩ := List.mem_map.1 he
      exact Entry.sparesCells_of_category (of_decide_eq_true (List.mem_filter.1 ht).2)
    · exact sparesCells_enter contents
  unfold ofGroup
  split
  case h_5 =>
    split
    · exact sparesCells_singleton (Entry.sparesCells_of_clears rfl rfl)
    · exact trivial
  case h_6 | h_7 => exact sparesCells_singleton (Entry.sparesCells_of_clears rfl rfl)
  case h_9 | h_10 | h_11 | h_12 => exact hplain
  all_goals exact trivial

theorem sparesCells_of_reads {row : Option Row} {active : Bool} {t : Token}
    {ts rest : List Token} {action : Action} (h : Reads row active t ts action rest)
    (ht : t ≠ .atom .rowDefaults) (hcell : t.category ≠ .cellFormat) :
    action.SparesCells ∧ (Token.taken (t :: ts) rest).filterMap Token.rightCellBoundary? = [] := by
  have hone : (Token.taken (t :: ts) ts).filterMap Token.rightCellBoundary? = [] := by
    rw [Token.taken_cons_self, List.filterMap_cons_none (Token.rightCellBoundary?_of_category hcell)]
    rfl
  cases h with
  | table => exact absurd rfl ht
  | cell h => exact absurd h hcell
  | @border _ _ side hside =>
    obtain ⟨border, hts, hborder⟩ := Border.boundaries_absorbAll { side := side } ts
    refine ⟨sparesCells_singleton (Entry.sparesCells_of_clears rfl rfl), ?_⟩
    rw [Token.taken_cons (Border.absorbAll_suffix _ ts), List.filterMap_cons_none rfl]
    conv => enter [1, 2, 1]; rw [hts]
    rw [Token.taken_append_self, hborder]
  | format _ _ _ _ =>
    exact ⟨sparesCells_singleton (Entry.sparesCells_atom (fun ha => ht (by rw [ha]))), hone⟩
  | skippedGroup contents => exact ⟨sparesCells_enter contents, hone⟩
  | group contents => exact ⟨sparesCells_ofGroup contents, hone⟩
  | _ => exact ⟨trivial, hone⟩

end Action

/-! Walks -/

/-- The row opens with its row defaults and has no others, and no fence stands in it. -/
structure Row.IsPlain (r : Row) : Prop where
  defaults : ∃ tail, r.contents = .atom .rowDefaults :: tail ∧ .atom .rowDefaults ∉ tail
  fences : ∀ on, .atom (.htmlRtf on) ∉ r.contents

namespace Walk

variable {doc : Document} {w : Walk} {r : Row}

theorem chains_perform (doc : Document) (w : Walk) {action : Action} (h : action.SparesCells) :
    (w.perform doc action).style.chains = w.style.chains := by
  cases action with
  | record entries => exact Style.chains_addAll h
  | cell cell => exact h.elim
  | text s => simp [perform, emit, resolve, Style.chains_resolveList]
  | picture p => simp [perform, emit, resolve, Style.chains_resolveList]
  | breakMark kind =>
    simp only [perform, reportBreak, resolve, emit]
    split
    · simp [leaveTable, Style.chains_setInTable_false, Style.chains_resolveList]
    · simp [Style.chains_resolveList]
  | _ => rfl

theorem chains_leave (doc : Document) (row : Option Row) (contents : List Token) (w : Walk) :
    (w.leave (run doc row contents w.enter)).style.chains = w.style.chains := by
  obtain ⟨reported, _, hscopes⟩ := frames_run doc row contents w.enter
  have hcons : w.enter.enclosing = w.style :: w.enclosing := rfl
  rw [hcons] at hscopes
  simp only [leave, hscopes, framed]
  split
  · exact Style.chains_setInTable_false w.style
  · rfl

/-- The walk stands in the row, behind the tokens in front, and what follows finds in the style
exactly the cells that these declare. -/
structure Declared (r : Row) (front ts : List Token) (w : Walk) : Prop where
  contents : front ++ ts = r.contents
  active : w.active = true
  cells : front ≠ [] → ts ≠ [] →
    w.style.Declares r (front.filterMap Token.rightCellBoundary?)

namespace Declared

variable {front ts rest : List Token} {t : Token} {action : Action}

theorem start (r : Row) (h : w.active = true) : Declared r [] r.contents w :=
  ⟨rfl, h, fun hfront => absurd rfl hfront⟩

theorem token_mem (h : Declared r front (t :: ts) w) : t ∈ r.contents := by
  rw [← h.contents]
  simp

theorem active_perform (hplain : r.IsPlain) (h : Declared r front (t :: ts) w)
    (hreads : Action.Reads (some r) w.active t ts action rest) :
    (w.perform doc action).active = true := by
  rw [Walk.active_perform doc w, h.active]
  rintro on rfl
  obtain rfl := Action.fence_of_reads hreads
  exact hplain.fences _ h.token_mem

theorem reads_first (hplain : r.IsPlain) (h : Declared r [] (t :: ts) w)
    (hreads : Action.Reads (some r) w.active t ts action rest) :
    t = .atom .rowDefaults ∧ action = .record [.atom .rowDefaults] ∧ rest = ts := by
  obtain ⟨tail, hcontents, _⟩ := hplain.defaults
  obtain ⟨rfl, rfl⟩ := List.cons.inj (h.contents.trans hcontents)
  have hdefaults : Action.Reads (some r) true (.atom .rowDefaults) ts
      (.record [.atom .rowDefaults]) ts :=
    .format (by decide) (by decide) (by simp) (by simp)
  rw [h.active] at hreads
  obtain ⟨rfl, rfl⟩ := Prod.mk.inj (hdefaults.next_eq.symm.trans hreads.next_eq)
  exact ⟨rfl, rfl, rfl⟩

theorem declares_first (hplain : r.IsPlain) (h : Declared r [] (t :: ts) w)
    (hreads : Action.Reads (some r) w.active t ts action rest) :
    (w.perform doc action).style.Declares r
      ((Token.taken (t :: ts) rest).filterMap Token.rightCellBoundary?) := by
  obtain ⟨rfl, rfl, rfl⟩ := h.reads_first hplain hreads
  have hcells : (w.perform doc (.record [.atom .rowDefaults])).style.cells = [] :=
    Style.cells_of_chains (Style.chains_add_rowDefaults w.style)
  rw [Token.taken_cons_self, Style.Declares, hcells]
  rfl

/-- Behind the row defaults, each description of a cell adds that cell and nothing else does. -/
theorem declares_next (hplain : r.IsPlain) (h : Declared r front (t :: ts) w)
    (hreads : Action.Reads (some r) w.active t ts action rest) (hfront : front ≠ [])
    (hrest : rest ≠ []) :
    (w.perform doc action).style.Declares r
      ((front ++ Token.taken (t :: ts) rest).filterMap Token.rightCellBoundary?) := by
  have hcells := h.cells hfront (by simp)
  have ht : t ≠ .atom .rowDefaults := by
    rintro rfl
    obtain ⟨tail, hcontents, htail⟩ := hplain.defaults
    obtain ⟨t', front, rfl⟩ := List.exists_cons_of_ne_nil hfront
    obtain ⟨_, rfl⟩ := List.cons.inj (h.contents.trans hcontents)
    exact htail (by simp)
  rw [List.filterMap_append]
  by_cases hcell : t.category = .cellFormat
  · cases t with
    | group contents => exact absurd hcell (by decide : Category.group ≠ .cellFormat)
    | atom a =>
      rw [h.active] at hreads
      have htake : Action.Reads (some r) true (.atom a) ts _ _ := .cell hcell
      obtain ⟨rfl, rfl⟩ := Prod.mk.inj (htake.next_eq.symm.trans hreads.next_eq)
      obtain ⟨before, position, hts, hposition, hbefore⟩ :=
        Cell.boundaries_take { row := some r } (.atom a :: ts) hrest
      conv => enter [3, 2, 2, 1]; rw [hts]
      rw [Token.taken_append_self, hbefore]
      exact hcells.add (Cell.row_take _ _) hposition
  · obtain ⟨hspares, hboundaries⟩ := Action.sparesCells_of_reads hreads ht hcell
    rw [hboundaries, List.append_nil]
    exact hcells.congr (chains_perform doc w hspares)

theorem perform (hplain : r.IsPlain) (h : Declared r front (t :: ts) w)
    (hreads : Action.Reads (some r) w.active t ts action rest) :
    Declared r (front ++ Token.taken (t :: ts) rest) rest (w.perform doc action) where
  contents := by
    rw [List.append_assoc, Token.taken_append (hreads.suffix.trans (List.suffix_cons t ts))]
    exact h.contents
  active := h.active_perform hplain hreads
  cells := by
    intro _ hrest
    by_cases hfront : front = []
    · subst hfront
      exact h.declares_first hplain hreads
    · exact h.declares_next hplain hreads hfront hrest

theorem leave {contents : List Token} (hplain : r.IsPlain)
    (h : Declared r front (.group contents :: ts) w) :
    Declared r (front ++ [.group contents]) ts
      (w.leave (run doc (some r) contents w.enter)) where
  contents := by
    rw [← h.contents]
    simp
  active := h.active
  cells := by
    intro _ _
    have hfront : front ≠ [] := by
      rintro rfl
      obtain ⟨tail, hcontents, _⟩ := hplain.defaults
      exact Token.noConfusion (List.cons.inj (h.contents.trans hcontents)).1
    have hcells := (h.cells hfront (by simp)).congr (chains_leave doc (some r) contents w)
    rwa [List.filterMap_append, List.filterMap_cons_none rfl, List.filterMap_nil, List.append_nil]

end Declared

end Walk

/-- If the station is in the list of a plain row, its style has the cells declared before it. -/
def Station.IsDeclared (s : Station) : Prop :=
  ∀ r, s.row = some r → r.IsPlain → s.scope = r.contents →
    Walk.Declared r s.front (s.token :: s.back) s.walk

namespace Walk

variable {doc : Document} {row : Option Row} {passed front ts : List Token} {t : Token} {w : Walk}

/-- The walk stands in the list of its row, or somewhere deeper in the row, or in no row that is
plain. -/
def InRow (row : Option Row) (front ts : List Token) (w : Walk) : Prop :=
  ∀ r, row = some r → r.IsPlain →
    Declared r front ts w ∨ Token.nodesOfList (front ++ ts) < Token.nodesOfList r.contents

theorem InRow.isDeclared (h : InRow row front (t :: ts) w) (passed : List Token)
    (action : Action) : Station.IsDeclared ⟨row, passed, front, t, ts, action, w⟩ := by
  intro r hrow hplain hscope
  obtain hdeclared | hlt := h r hrow hplain
  · exact hdeclared
  · -- a list in a group of the row is smaller than that of the row
    rw [← hscope, Station.scope] at hlt
    exact absurd hlt (Nat.lt_irrefl _)

theorem InRow.enter {contents : List Token} (h : InRow row front (.group contents :: ts) w) :
    InRow row [] contents w.enter := by
  intro r hrow hplain
  right
  have hle : Token.nodesOfList (front ++ .group contents :: ts) ≤ Token.nodesOfList r.contents := by
    obtain hdeclared | hlt := h r hrow hplain
    · rw [hdeclared.contents]
    · exact hlt.le
  simp only [Token.nodesOfList_append, Token.nodesOfList, Token.nodes, List.nil_append] at hle ⊢
  omega

theorem declared_of_visitsRows {rows : List Row} {log : List Station} {w' : Walk}
    (h : VisitsRows doc (fun row _ front ts w log _ =>
      InRow row front ts w → ∀ s ∈ log, s.IsDeclared) passed rows w log w')
    (hactive : w.active = true) : ∀ s ∈ log, s.IsDeclared := by
  induction h with
  | nil => simp
  | @cons passed r rows w w' log hrow _ ih =>
    intro s hs
    obtain hs | hs := List.mem_append.1 hs
    · refine hrow ?_ s hs
      intro r' hr' _
      obtain rfl := Option.some.inj hr'
      exact .inl (.start r hactive)
    · exact ih hactive s hs

theorem declared_run (doc : Document) (row : Option Row) (passed front ts : List Token) (w : Walk) :
    InRow row front ts w → ∀ s ∈ stations doc row passed front ts w, s.IsDeclared := by
  refine run_stations doc (motive := fun row _ front ts w log _ =>
    InRow row front ts w → ∀ s ∈ log, s.IsDeclared) ?nil ?perform ?scope ?table
    row passed front ts w
  case nil => simp
  case perform =>
    intro row passed front t ts w action rest log w' hreads _ _ ih hin s hs
    obtain rfl | hs := List.mem_cons.1 hs
    · exact hin.isDeclared passed action
    · refine ih ?_ s hs
      intro r hrow hplain
      subst hrow
      have htaken := Token.taken_append (hreads.suffix.trans (List.suffix_cons t ts))
      rw [List.append_assoc, htaken]
      exact (hin r rfl hplain).imp (fun h => h.perform hplain hreads) id
  case scope =>
    intro row passed front contents ts w log w' inner _ ihinner ihrest hin s hs
    obtain rfl | hs := List.mem_cons.1 hs
    · exact hin.isDeclared passed _
    · obtain hs | hs := List.mem_append.1 hs
      · exact ihinner hin.enter s hs
      · refine ihrest ?_ s hs
        intro r hrow hplain
        subst hrow
        rw [List.append_assoc, List.singleton_append]
        exact (hin r rfl hplain).imp (fun h => h.leave hplain) id
  case table =>
    intro passed front ts w log middle log' w' table hactive hrows ihrest hin s hs
    obtain rfl | hs := List.mem_cons.1 hs
    · exact hin.isDeclared passed _
    · obtain hs | hs := List.mem_append.1 hs
      · exact declared_of_visitsRows hrows hactive s hs
      · exact ihrest (fun r hr => by simp at hr) s hs

end Walk

namespace Document

theorem declared_stations (doc : Document) : ∀ s ∈ doc.stations, s.IsDeclared := by
  unfold stations
  split
  · simp
  · exact Walk.declared_run doc none [] [] doc.body {} (fun r hr => by simp at hr)

/-- The events are those of the stations, and whatever is reported in the list of a plain row comes
with one cell for each right boundary that stands in the list before it, in this order, each cell
linked to the row and numbered from zero, and with no other cells. -/
theorem cells_of_row (doc : Document) {s : Station} (hs : s ∈ doc.stations) {r : Row}
    (hrow : s.row = some r) (hscope : s.scope = r.contents) (hplain : r.IsPlain) {e : Event}
    (he : e ∈ s.reports doc) {style : Style} (hstyle : e.style? = some style) :
    let positions := s.front.filterMap Token.rightCellBoundary?
    doc.walk.events.toList = doc.stations.flatMap (Station.reports doc) ∧
      (style.cellChain? = none ↔ positions = []) ∧
      ∀ chain, style.cellChain? = some chain →
        chain.cells.map Cell.rightBoundary = positions.map some ∧
        (∀ cell ∈ chain.cells, cell.row = some r) ∧
        chain.initialChains.map CellChain.index = List.range positions.length := by
  have hdeclared := doc.declared_stations s hs r hrow hplain hscope
  obtain ⟨rest, hreads⟩ := doc.reads_of_mem_stations s hs
  have hfront : s.front ≠ [] := by
    intro hfront
    rw [hfront] at hdeclared
    rw [hrow] at hreads
    obtain ⟨_, haction, _⟩ := hdeclared.reads_first hplain hreads
    rw [Station.reports, haction] at he
    exact absurd he List.not_mem_nil
  rw [Walk.style?_of_mem_reports he hstyle]
  have hcells := hdeclared.cells hfront (by simp)
  exact ⟨doc.events_walk, (hcells.congr (Style.chains_resolveList doc s.walk.style)).chain⟩

def twoCells : Row where
  contents := [.atom .rowDefaults, .atom (.rightCellBoundary 100),
    .atom (.rightCellBoundary 300), .group [.atom (.rightCellBoundary 500)], .text "a",
    .atom (.breakMark .row)]

def withTwoCells : Document where
  contents := twoCells.contents

theorem cells_of_row_twoCells :
    twoCells.IsPlain ∧ ∃ s ∈ withTwoCells.stations, s.row = some twoCells ∧
      s.scope = twoCells.contents ∧ s.token = .text "a" ∧
      ∃ e ∈ s.reports withTwoCells, ∃ style, e.style? = some style ∧
        ∃ chain, style.cellChain? = some chain ∧
          chain.cells.map Cell.rightBoundary = [some 100, some 300] ∧
          (∀ cell ∈ chain.cells, cell.row = some twoCells) ∧
          chain.initialChains.map CellChain.index = [0, 1] := by
  have hplain : twoCells.IsPlain := ⟨⟨_, rfl, by decide⟩, by decide⟩
  have htrace : (withTwoCells.trace? 9).isSome = true := by decide +kernel
  obtain ⟨s, hs, hrow, hscope, htoken, hpositions, hreported⟩ : ∃ s ∈ withTwoCells.stations,
      s.row = some twoCells ∧ s.scope = twoCells.contents ∧ s.token = .text "a" ∧
        s.front.filterMap Token.rightCellBoundary? = [100, 300] ∧
        (s.reports withTwoCells).any (fun e => e.style?.isSome) = true := by
    rw [withTwoCells.stations_eq_trace htrace]
    decide +kernel
  obtain ⟨e, he, hstyle⟩ := List.any_eq_true.1 hreported
  obtain ⟨style, hstyle⟩ := Option.isSome_iff_exists.1 hstyle
  obtain ⟨-, hnone, hchain⟩ := cells_of_row withTwoCells hs hrow hscope hplain he hstyle
  rw [hpositions] at hnone hchain
  cases hfound : style.cellChain? with
  | none => exact absurd (hnone.1 hfound) (by simp)
  | some chain =>
    exact ⟨hplain, s, hs, hrow, hscope, htoken, e, he, style, hstyle, chain, hfound,
      hchain chain hfound⟩

end Document

end RichText
