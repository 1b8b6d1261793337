import RichText.Proofs.Walk.Order
import RichText.Proofs.Style.Resolution
set_option autoImplicit false

/-!
What the receiver of the events may rely on. Every scope counts its own tabs, and every style that
is reported is resolved. Main statements: `tells_run`, a walk reports just the dispatches of its
tokens, and `events_protocol`, the order, the counts and the styles of all events of a document.
-/
namespace RichText

namespace Event

def isDefault : Event → Bool
  | .defaultFont _ | .defaultTabWidth _ => true
  | .text _ _ | .breaks _ _ _ | .picture _ _ | .close => false

def isInline : Event → Bool
  | .text _ _ | .picture _ _ => true
  | .breaks _ _ _ | .defaultFont _ | .defaultTabWidth _ | .close => false

end Event

namespace Action

def isReported : Action → Bool
  | .text _ | .picture _ | .breakMark _ => true
  | .pass | .activate _ | .record _ | .cell _ | .rows _ | .scope _ | .tab => false

def isTab : Action → Bool
  | .tab => true
  | _ => false

def activeAfter (active : Bool) : Action → Bool
  | .activate on => on
  | _ => active

/-- The tabs among the actions of a list since the last one that is reported. -/
def tabsSince (before : List Action) : Nat :=
  (before.reverse.takeWhile (fun action => !action.isReported)).countP isTab

theorem tabsSince_concat (before : List Action) (action : Action) :
    tabsSince (before ++ [action]) =
      if action.isReported then 0
      else tabsSince before + if action.isTab then 1 else 0 := by
  cases hreported : action.isReported with
  | true => simp [tabsSince, hreported]
  | false => simp [tabsSince, hreported, List.countP_cons]

end Action

/-- An action that is reported, and what was read before it in the same token list. -/
structure Dispatch where
  before : List Action
  action : Action

namespace Dispatch

def event? (style : Style) (d : Dispatch) : Option Event :=
  match d.action with
  | .text s => some (.text style s)
  | .picture p => some (.picture style p)
  | .breakMark kind => some (.breaks style kind 1)
  | _ => none

/-- Tabs are reported before texts and pictures, and dropped at other breaks. -/
def tabs (style : Style) (d : Dispatch) : List Event :=
  match d.action with
  | .text _ | .picture _ =>
    if Action.tabsSince d.before = 0 then [] else [.breaks style .tab (Action.tabsSince d.before)]
  | _ => []

def events (style : Style) (d : Dispatch) : List Event := d.tabs style ++ (d.event? style).toList

end Dispatch

/-- All that is reported of a token list, where some actions have been read before. -/
def Token.dispatches (row : Option Row) (active : Bool) (before : List Action) :
    List Token → List Dispatch
  | [] => []
  | t :: ts =>
    match _h : Action.next row active t ts with
    | (.scope contents, rest) =>
      dispatches row active [] contents ++ dispatches row active (before ++ [.scope contents]) rest
    | (.rows rows, rest) =>
      rows.flatMap (fun r => dispatches (some r) active [] r.contents) ++
        dispatches row active (before ++ [.rows rows]) rest
    | (action, rest) =>
      (if action.isReported then [⟨before, action⟩] else []) ++
        dispatches row (action.activeAfter active) (before ++ [action]) rest
termination_by ts => (row.isNone.toNat, Token.nodesOfList ts)
decreasing_by
  · obtain rfl := Action.eq_group_of_next_eq_scope _h
    apply Prod.Lex.right
    simp only [Token.nodesOfList, Token.nodes]
    omega
  · exact Prod.Lex.right _ (Action.nodes_rest_lt _h)
  · obtain rfl := Action.row_eq_none_of_next_eq_rows _h
    exact Prod.Lex.left _ _ Nat.zero_lt_one
  · exact Prod.Lex.right _ (Action.nodes_rest_lt _h)
  · exact Prod.Lex.right _ (Action.nodes_rest_lt _h)

namespace Token

variable {row : Option Row} {active : Bool} {t : Token} {ts rest : List Token}

theorem dispatches_perform (before : List Action) {action : Action}
    (h : Action.Reads row active t ts action rest) (hscope : ∀ contents, action ≠ .scope contents)
    (hrows : ∀ rows, action ≠ .rows rows) :
    dispatches row active before (t :: ts) =
      (if action.isReported then [⟨before, action⟩] else []) ++
        dispatches row (action.activeAfter active) (before ++ [action]) rest := by
  have hnext := h.next_eq
  rw [dispatches]
  split
  · rename_i heq
    exact absurd (congrArg Prod.fst (hnext.symm.trans heq)) (hscope _)
  · rename_i heq
    exact absurd (congrArg Prod.fst (hnext.symm.trans heq)) (hrows _)
  · rename_i heq
    obtain ⟨rfl, rfl⟩ := Prod.mk.inj (hnext.symm.trans heq)
    rfl

theorem dispatches_scope (before : List Action) {contents : List Token}
    (h : Action.Reads row active t ts (.scope contents) rest) :
    dispatches row active before (t :: ts) =
      dispatches row active [] contents ++
        dispatches row active (before ++ [.scope contents]) rest := by
  rw [dispatches, h.next_eq]

theorem dispatches_table (before : List Action) :
    let table := Row.take (.atom .rowDefaults :: ts)
    dispatches none true before (.atom .rowDefaults :: ts) =
      table.1.flatMap (fun r => dispatches (some r) true [] r.contents) ++
        dispatches none true (before ++ [.rows table.1]) table.2 := by
  have hreads : Action.Reads none true (.atom .rowDefaults) ts
      (.rows (Row.take (.atom .rowDefaults :: ts)).1) (Row.take (.atom .rowDefaults :: ts)).2 :=
    .table
  have hnext := hreads.next_eq
  rw [dispatches, hnext]

end Token

namespace Walk

def Sound (w : Walk) : Prop := ∀ style ∈ w.scopes, style.WellFormed

theorem sound_empty : Sound {} := by
  intro style hstyle
  rw [List.mem_singleton.1 hstyle]
  exact Style.wellFormed_empty

theorem Sound.of_style {w w' : Walk} (h : w.Sound) (hstyle : w'.style.WellFormed)
    (henclosing : w'.enclosing = w.enclosing) : w'.Sound := by
  intro style hmem
  rw [scopes, henclosing] at hmem
  obtain rfl | hmem := List.mem_cons.1 hmem
  · exact hstyle
  · exact h style (List.mem_cons_of_mem _ hmem)

theorem Sound.enter {w : Walk} (h : w.Sound) : w.enter.Sound := by
  intro style hmem
  obtain rfl | hmem := List.mem_cons.1 hmem
  · exact h _ List.mem_cons_self
  · exact h style hmem

theorem Sound.leave {w inner : Walk} (h : w.Sound) (hinner : inner.Sound) :
    (w.leave inner).Sound := by
  intro style hmem
  cases henclosing : inner.enclosing with
  | nil =>
    simp only [Walk.leave, scopes, henclosing, List.headD_nil, List.tail_nil,
      List.mem_singleton] at hmem
    rw [hmem]
    exact h _ List.mem_cons_self
  | cons outer styles =>
    refine hinner style (List.mem_cons_of_mem _ ?_)
    rw [henclosing]
    simpa [Walk.leave, scopes, henclosing] using hmem

theorem Sound.leaveTable {w : Walk} (h : w.Sound) : w.leaveTable.Sound := by
  intro style hmem
  obtain ⟨style, hstyle, rfl⟩ : ∃ style' ∈ w.scopes, style'.setInTable false = style := by
    simpa [Walk.leaveTable, scopes, eq_comm] using hmem
  exact (h style hstyle).filter _

theorem Sound.perform {w : Walk} (h : w.Sound) (doc : Document) (action : Action) :
    (w.perform doc action).Sound := by
  have hstyle : w.style.WellFormed := h _ List.mem_cons_self
  have hresolved : (w.style.resolveList doc).WellFormed := hstyle.resolveList doc
  cases action with
  | record entries =>
    refine h.of_style ?_ rfl
    exact hstyle.addAll entries
  | cell cell =>
    refine h.of_style ?_ rfl
    exact hstyle.add (.cell (CellChain.extend w.style.cellChain? cell))
  | text s =>
    refine h.of_style ?_ ?_
    · simpa [Walk.perform, emit, resolve] using hresolved
    · simp [Walk.perform, emit, resolve]
  | picture p =>
    refine h.of_style ?_ ?_
    · simpa [Walk.perform, emit, resolve] using hresolved
    · simp [Walk.perform, emit, resolve]
  | breakMark kind =>
    have hreported : (w.resolve doc).Sound := h.of_style hresolved rfl
    by_cases hkind : kind = .row
    · subst hkind
      exact hreported.leaveTable
    · simp only [Walk.perform, reportBreak, hkind, if_false]
      exact hreported
  | _ => exact h

theorem active_perform_eq (doc : Document) (w : Walk) (action : Action) :
    (w.perform doc action).active = action.activeAfter w.active := by
  cases action with
  | activate on => rfl
  | _ => exact active_perform doc w (by simp)

theorem tabs_perform (doc : Document) (w : Walk) (action : Action) :
    (w.perform doc action).tabs =
      if action.isReported then 0 else w.tabs + if action.isTab then 1 else 0 := by
  cases action with
  | text s => simp [perform, emit, Action.isReported]
  | picture p => simp [perform, emit, Action.isReported]
  | _ => rfl

/-- What an action reports is what its dispatch says, with the resolved style. -/
theorem reports_eq (doc : Document) (w : Walk) {before : List Action}
    (h : w.tabs = Action.tabsSince before) {action : Action} (haction : action.isReported = true) :
    w.reports doc action = Dispatch.events (w.style.resolveList doc) ⟨before, action⟩ := by
  have hdue : (w.resolve doc).dueTabs =
      if Action.tabsSince before = 0 then []
      else [.breaks (w.style.resolveList doc) .tab (Action.tabsSince before)] := by
    rw [← h]
    rfl
  cases action with
  | text s =>
    rw [reports, hdue]
    rfl
  | picture p =>
    rw [reports, hdue]
    rfl
  | breakMark kind => rfl
  | _ => exact absurd haction Bool.false_ne_true

theorem reports_eq_nil (doc : Document) (w : Walk) {action : Action}
    (haction : action.isReported = false) : w.reports doc action = [] := by
  cases action with
  | text s => exact absurd haction (by simp [Action.isReported])
  | picture p => exact absurd haction (by simp [Action.isReported])
  | breakMark kind => exact absurd haction (by simp [Action.isReported])
  | _ => rfl

structure Told (doc : Document) (p : Dispatch × Style) : Prop where
  wellFormed : p.2.WellFormed
  resolved : p.2.resolveList doc = p.2
  notTab : p.1.action ≠ .breakMark .tab

def AddsDispatches (doc : Document) (dispatches : List Dispatch) (w w' : Walk) : Prop :=
  ∃ told : List (Dispatch × Style), told.map Prod.fst = dispatches ∧ (∀ p ∈ told, Told doc p) ∧
    w'.events.toList = w.events.toList ++ told.flatMap (fun p => p.1.events p.2)

theorem AddsDispatches.refl (doc : Document) (w : Walk) : AddsDispatches doc [] w w :=
  ⟨[], rfl, by simp, by simp⟩

theorem AddsDispatches.trans {doc : Document} {first second : List Dispatch} {w₁ w₂ w₃ : Walk}
    (h₁ : AddsDispatches doc first w₁ w₂) (h₂ : AddsDispatches doc second w₂ w₃) :
    AddsDispatches doc (first ++ second) w₁ w₃ := by
  obtain ⟨told₁, hfirst, htold₁, hevents₁⟩ := h₁
  obtain ⟨told₂, hsecond, htold₂, hevents₂⟩ := h₂
  refine ⟨told₁ ++ told₂, ?_, ?_, ?_⟩
  · rw [List.map_append, hfirst, hsecond]
  · intro p hp
    exact (List.mem_append.1 hp).elim (htold₁ p) (htold₂ p)
  · rw [hevents₂, hevents₁, List.flatMap_append, List.append_assoc]

theorem addsDispatches_perform (doc : Document) {w : Walk} {row : Option Row} {t : Token}
    {ts rest : List Token} {action : Action} (hreads : Action.Reads row w.active t ts action rest)
    (hsound : w.Sound) {before : List Action} (htabs : w.tabs = Action.tabsSince before) :
    AddsDispatches doc (if action.isReported then [⟨before, action⟩] else []) w
      (w.perform doc action) := by
  have hstyle : w.style.WellFormed := hsound _ List.mem_cons_self
  cases hreported : action.isReported with
  | false => exact ⟨[], rfl, by simp, by simp [events_perform, reports_eq_nil doc w hreported]⟩
  | true =>
    have htold : Told doc (⟨before, action⟩, w.style.resolveList doc) := by
      refine ⟨hstyle.resolveList doc, Style.resolveList_resolveList hstyle doc, ?_⟩
      rintro rfl
      exact Action.breakMark_ne_tab_of_reads hreads rfl
    refine ⟨[(⟨before, action⟩, w.style.resolveList doc)], rfl, ?_, ?_⟩
    · intro p hp
      rw [List.mem_singleton.1 hp]
      exact htold
    · rw [events_perform, reports_eq doc w htabs hreported]
      simp

/-- The walk over a token list reports its dispatches, if the tabs that are due are those since
the last action that was reported. -/
def Tells (doc : Document) (row : Option Row) (ts : List Token) (w w' : Walk) : Prop :=
  ∀ before, w.tabs = Action.tabsSince before → w.Sound →
    w'.Sound ∧ AddsDispatches doc (Token.dispatches row w.active before ts) w w'

theorem tells_throughRows {doc : Document} {rows : List Row} {w w' : Walk}
    (h : ThroughRows (Tells doc) rows w w') (hsound : w.Sound) :
    w'.Sound ∧ w'.active = w.active ∧ w'.tabs = w.tabs ∧
      AddsDispatches doc
        (rows.flatMap (fun r => Token.dispatches (some r) w.active [] r.contents)) w w' := by
  induction h with
  | nil w => exact ⟨hsound, rfl, rfl, .refl doc w⟩
  | @cons r rows w inner w' hrow _ ih =>
    obtain ⟨hinner, hadds⟩ := hrow [] rfl hsound.enter
    obtain ⟨hsound', hactive, htabs, hrest⟩ := ih (hsound.leave hinner)
    have hleave : AddsDispatches doc (Token.dispatches (some r) w.active [] r.contents) w
        (w.leave inner) := hadds
    exact ⟨hsound', hactive, htabs, hleave.trans hrest⟩

theorem tells_run (doc : Document) (row : Option Row) (ts : List Token) (w : Walk) :
    Tells doc row ts w (run doc row ts w) := by
  refine run_induction doc (motive := Tells doc) ?nil ?perform ?scope ?table row ts w
  case nil =>
    intro row w before _ hsound
    rw [Token.dispatches]
    exact ⟨hsound, .refl doc w⟩
  case perform =>
    intro row t ts w action rest w' hreads hscope hrows ih before htabs hsound
    have htabs' : (w.perform doc action).tabs = Action.tabsSince (before ++ [action]) := by
      rw [tabs_perform, Action.tabsSince_concat, htabs]
    obtain ⟨hsound', hrest⟩ := ih _ htabs' (hsound.perform doc action)
    rw [active_perform_eq] at hrest
    rw [Token.dispatches_perform before hreads hscope hrows]
    exact ⟨hsound', (addsDispatches_perform doc hreads hsound htabs).trans hrest⟩
  case scope =>
    intro row contents ts w inner w' hreads hinner hrest before htabs hsound
    obtain ⟨hsoundInner, hadds⟩ := hinner [] rfl hsound.enter
    have htabs' : (w.leave inner).tabs = Action.tabsSince (before ++ [.scope contents]) := by
      rw [Action.tabsSince_concat]
      exact htabs
    obtain ⟨hsound', hafter⟩ := hrest _ htabs' (hsound.leave hsoundInner)
    have hleave : AddsDispatches doc (Token.dispatches row w.active [] contents) w
        (w.leave inner) := hadds
    rw [Token.dispatches_scope before hreads]
    exact ⟨hsound', hleave.trans hafter⟩
  case table =>
    intro ts w middle w' hactive hrows hrest before htabs hsound
    obtain ⟨hsoundMiddle, hactiveMiddle, htabsMiddle, hadds⟩ := tells_throughRows hrows hsound
    have htabs' : middle.tabs =
        Action.tabsSince (before ++ [.rows (Row.take (.atom .rowDefaults :: ts)).1]) := by
      rw [Action.tabsSince_concat, htabsMiddle]
      exact htabs
    obtain ⟨hsound', hafter⟩ := hrest _ htabs' hsoundMiddle
    rw [hactiveMiddle, hactive] at hafter
    rw [hactive] at hadds ⊢
    rw [Token.dispatches_table before]
    exact ⟨hsound', hadds.trans hafter⟩

end Walk

namespace Dispatch

variable {style : Style} {d : Dispatch} {e : Event}

theorem tabs_eq_nil_or (style : Style) (d : Dispatch) :
    d.tabs style = [] ∨ ∃ e, d.event? style = some e ∧ e.isInline = true ∧
      0 < Action.tabsSince d.before ∧
      d.tabs style = [.breaks style .tab (Action.tabsSince d.before)] := by
  obtain ⟨before, action⟩ := d
  have hdue : (if Action.tabsSince before = 0 then ([] : List Event)
      else [.breaks style .tab (Action.tabsSince before)]) = [] ∨
      0 < Action.tabsSince before ∧
        (if Action.tabsSince before = 0 then ([] : List Event)
          else [.breaks style .tab (Action.tabsSince before)]) =
        [.breaks style .tab (Action.tabsSince before)] := by
    by_cases hzero : Action.tabsSince before = 0
    · exact .inl (if_pos hzero)
    · exact .inr ⟨Nat.pos_of_ne_zero hzero, if_neg hzero⟩
  cases action with
  | text s => exact hdue.imp id (fun h => ⟨_, rfl, rfl, h⟩)
  | picture p => exact hdue.imp id (fun h => ⟨_, rfl, rfl, h⟩)
  | _ => exact .inl rfl

theorem style?_of_event? (h : d.event? style = some e) : e.style? = some style := by
  unfold event? at h
  split at h
  · exact Option.some.inj h ▸ rfl
  · exact Option.some.inj h ▸ rfl
  · exact Option.some.inj h ▸ rfl
  · simp at h

theorem style?_of_mem_events (h : e ∈ d.events style) : e.style? = some style := by
  obtain h | h := List.mem_append.1 h
  · obtain hnil | ⟨_, _, _, _, htabs⟩ := d.tabs_eq_nil_or style
    · simp [hnil] at h
    · rw [htabs, List.mem_singleton] at h
      rw [h]
      rfl
  · exact style?_of_event? (Option.mem_toList.1 h)

theorem count_of_event? {kind : BreakKind} {n : Nat}
    (h : d.event? style = some (.breaks style kind n)) :
    n = 1 ∧ d.action = .breakMark kind := by
  obtain ⟨before, action⟩ := d
  cases action with
  | breakMark kind' =>
    obtain ⟨_, rfl, rfl⟩ := Event.breaks.inj (Option.some.inj h)
    exact ⟨rfl, rfl⟩
  | text s => exact Event.noConfusion (Option.some.inj h)
  | picture p => exact Event.noConfusion (Option.some.inj h)
  | _ => simp [event?] at h

end Dispatch

namespace Document

def dispatches (doc : Document) : List Dispatch :=
  if Group.isIgnorable doc.body then [] else Token.dispatches none true [] doc.body

theorem walk_told (doc : Document) :
    ∃ told : List (Dispatch × Style), told.map Prod.fst = doc.dispatches ∧
      (∀ p ∈ told, Walk.Told doc p) ∧
      doc.walk.events.toList = told.flatMap (fun p => p.1.events p.2) := by
  unfold walk dispatches
  split
  · exact ⟨[], rfl, by simp, rfl⟩
  · obtain ⟨_, told, hdispatches, htold, hevents⟩ :=
      Walk.tells_run doc none doc.body {} [] rfl Walk.sound_empty
    exact ⟨told, hdispatches, htold, by simpa using hevents⟩

theorem tabs_of_told {doc : Document} {told : List (Dispatch × Style)}
    (h : ∀ p ∈ told, Walk.Told doc p) {style : Style} {n : Nat} {before after : List Event}
    (hevents : told.flatMap (fun p => p.1.events p.2) =
      before ++ .breaks style .tab n :: after) :
    0 < n ∧ ∃ d, (d, style) ∈ told ∧ ∃ e rest, n = Action.tabsSince d.before ∧
      d.event? style = some e ∧ e.isInline = true ∧ after = e :: rest := by
  induction told generalizing before with
  | nil => simp at hevents
  | cons p told ih =>
    obtain ⟨d, style'⟩ := p
    have hmark := (h _ List.mem_cons_self).notTab
    have hevent : ∀ e, d.event? style' = some e → e ≠ .breaks style .tab n := by
      rintro e he rfl
      obtain rfl : style = style' := Option.some.inj (Dispatch.style?_of_event? he)
      exact hmark (Dispatch.count_of_event? he).2
    have hrest : ∀ {before' : List Event},
        told.flatMap (fun p => p.1.events p.2) = before' ++ .breaks style .tab n :: after →
        0 < n ∧ ∃ d', (d', style) ∈ (d, style') :: told ∧ ∃ e rest,
          n = Action.tabsSince d'.before ∧ d'.event? style = some e ∧ e.isInline = true ∧
          after = e :: rest := by
      intro before' hbefore
      obtain ⟨hpos, d', hd', hafter⟩ := ih (fun p hp => h p (List.mem_cons_of_mem _ hp)) hbefore
      exact ⟨hpos, d', List.mem_cons_of_mem _ hd', hafter⟩
    rw [List.flatMap_cons, Dispatch.events] at hevents
    obtain htabs | ⟨e, he, hinline, hpos, htabs⟩ := d.tabs_eq_nil_or style'
    · cases he : d.event? style' with
      | none =>
        rw [htabs, he] at hevents
        exact hrest hevents
      | some e =>
        rw [htabs, he] at hevents
        cases before with
        | nil => exact absurd (List.cons.inj hevents).1 (hevent e he)
        | cons x before => exact hrest (List.cons.inj hevents).2
    · rw [htabs, he] at hevents
      match before with
      | [] =>
        obtain ⟨htab, hafter⟩ := List.cons.inj hevents
        obtain ⟨rfl, _, rfl⟩ := Event.breaks.inj htab
        exact ⟨hpos, d, List.mem_cons_self, e, _, rfl, he, hinline, hafter.symm⟩
      | [x] => exact absurd (List.cons.inj (List.cons.inj hevents).2).1 (hevent e he)
      | x :: y :: before => exact hrest (List.cons.inj (List.cons.inj hevents).2).2

/-- The protocol of the events. Defaults come first, content next and `close` last. A break that
is no tab counts once. Tabs count those dispatched in their token list since the last event of
that list, and are followed by that text or picture in the same style. Styles hold one entry of a
kind at most and are left alone by resolving. -/
theorem events_protocol (doc : Document) :
    ∃ (defaults content : List Event) (told : List (Dispatch × Style)),
      doc.events = defaults ++ content ++ [.close] ∧
      (∀ e ∈ defaults, e.isDefault = true) ∧
      (told.map Prod.fst = doc.dispatches ∧
        content = told.flatMap (fun p => p.1.events p.2)) ∧
      (∀ style kind n, .breaks style kind n ∈ content → kind ≠ .tab → n = 1) ∧
      (∀ before style n after, content = before ++ .breaks style .tab n :: after →
        0 < n ∧ ∃ d ∈ doc.dispatches, ∃ e rest, n = Action.tabsSince d.before ∧
          d.event? style = some e ∧ e.isInline = true ∧ after = e :: rest) ∧
      ∀ e ∈ content, ∃ style, e.style? = some style ∧ style.Unique ∧
        style.resolveList doc = style := by
  obtain ⟨told, hdispatches, htold, hcontent⟩ := doc.walk_told
  refine ⟨_, _, told, rfl, ?defaults, ⟨hdispatches, hcontent⟩, ?counts, ?tabs, ?styles⟩
  case defaults =>
    intro e he
    obtain ⟨font, rfl⟩ | ⟨width, rfl⟩ := mem_defaults he
    · rfl
    · rfl
  case counts =>
    intro style kind n hmem hkind
    rw [hcontent] at hmem
    obtain ⟨⟨d, style'⟩, hd, hevent⟩ := List.mem_flatMap.1 hmem
    obtain rfl : style = style' := Option.some.inj (Dispatch.style?_of_mem_events hevent)
    obtain htab | hevent := List.mem_append.1 hevent
    · obtain hnil | ⟨_, _, _, _, htabs⟩ := d.tabs_eq_nil_or style
      · simp [hnil] at htab
      · rw [htabs, List.mem_singleton] at htab
        exact absurd (Event.breaks.inj htab).2.1 hkind
    · exact (Dispatch.count_of_event? (Option.mem_toList.1 hevent)).1
  case tabs =>
    intro before style n after heq
    obtain ⟨hpos, d, hd, hafter⟩ := tabs_of_told htold (hcontent.symm.trans heq)
    refine ⟨hpos, d, ?_, hafter⟩
    rw [← hdispatches]
    exact List.mem_map_of_mem (f := Prod.fst) hd
  case styles =>
    intro e he
    rw [hcontent] at he
    obtain ⟨⟨d, style⟩, hd, hevent⟩ := List.mem_flatMap.1 he
    have hresolved := htold _ hd
    exact ⟨style, Dispatch.style?_of_mem_events hevent, hresolved.wellFormed.unique,
      hresolved.resolved⟩

end Document

end RichText
