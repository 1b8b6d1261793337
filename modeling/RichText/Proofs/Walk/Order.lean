import RichText.Proofs.Walk.Induction
import RichText.Proofs.Walk.PlainReading
set_option autoImplicit false

namespace RichText

namespace Action

def plainEvents : Action → List Event
  | .text s => [.text {} s]
  | .breakMark kind => if kind = .tab then [] else [.breaks {} kind 1]
  | .picture p => [.picture {} p]
  | .scope contents => Token.plainEventsOfList contents
  | .rows table => Token.plainEventsOfList (table.flatMap Row.contents)
  | .pass | .activate _ | .record _ | .cell _ | .tab => []

theorem plainEvents_ofPlainGroup (contents : List Token) :
    (ofPlainGroup contents).plainEvents =
      if Group.describesNumbering contents || Group.isIgnorable contents then []
      else Token.plainEventsOfList contents := by
  cases hnumbering : Group.describesNumbering contents with
  | true => simp [ofPlainGroup, hnumbering, plainEvents]
  | false =>
    cases hign : Group.isIgnorable contents with
    | true => simp [ofPlainGroup, enter, hnumbering, hign, plainEvents]
    | false => simp [ofPlainGroup, enter, hnumbering, hign, plainEvents]

theorem plainEvents_ofGroup (contents : List Token) :
    (ofGroup contents).plainEvents = (Token.group contents).plainEvents := by
  have hplain := plainEvents_ofPlainGroup contents
  unfold ofGroup
  rw [Token.plainEvents]
  cases Group.destination? contents with
  | none => exact hplain
  | some d =>
    cases d with
    | fieldInstructions =>
      cases hlink : Field.hyperlink? contents with
      | none => rfl
      | some link => rfl
    | fieldResult | htmlTag | other name => exact hplain
    | _ => rfl

/-- In tokens whose cells are delimited, a plain reading finds what it finds in the tokens of
each action, one action after another. -/
theorem plainEvents_of_reads {row : Option Row} {t : Token} {ts rest : List Token}
    {action : Action} (h : Reads row true t ts action rest) (hts : Token.Delimited (t :: ts)) :
    Token.plainEventsOfList (t :: ts) = action.plainEvents ++ Token.plainEventsOfList rest := by
  generalize hactive : true = active at h
  cases h with
  | fence on => rfl
  | skipped hfence => simp at hactive
  | skippedGroup contents => simp at hactive
  | table =>
    rw [plainEvents, ← Token.plainEventsOfList_append, Row.contents_take]
  | cell hcell =>
    rw [Cell.plainEventsOfList_take _ (hts.reachesCellEnd hcell)]
    rfl
  | border hside =>
    rw [Border.plainEventsOfList_absorbAll]
    rfl
  | format hformat hcell hborder hrow =>
    rw [Token.plainEventsOfList, Token.plainEvents_of_isFormat hformat]
    rfl
  | tab => rfl
  | breakMark hkind => rfl
  | text s => rfl
  | ignored hfence hformat htext hbreak =>
    rw [Token.plainEventsOfList, Token.plainEvents_of_ne htext hbreak]
    rfl
  | group contents =>
    rw [plainEvents_ofGroup]
    rfl

end Action

namespace Walk

/-! Texts -/

theorem texts_dueTabs (w : Walk) : w.dueTabs.filterMap Event.text? = [] := by
  unfold dueTabs
  split <;> rfl

theorem texts_reports_of_ne (doc : Document) (w : Walk) {action : Action}
    (h : ∀ s, action ≠ .text s) : (w.reports doc action).filterMap Event.text? = [] := by
  cases action with
  | text s => exact absurd rfl (h s)
  | picture p =>
    rw [reports, List.filterMap_append, texts_dueTabs]
    rfl
  | _ => rfl

theorem texts_reports (doc : Document) (w : Walk) {row : Option Row} {active : Bool} {t : Token}
    {ts rest : List Token} {action : Action} (h : Action.Reads row active t ts action rest) :
    List.Sublist ((w.reports doc action).filterMap Event.text? ++ Token.allTextsOfList rest)
      (Token.allTextsOfList (t :: ts)) := by
  by_cases htext : ∃ s, action = .text s
  · obtain ⟨s, rfl⟩ := htext
    obtain ⟨rfl, rfl⟩ := Action.text_of_reads h
    rw [reports, List.filterMap_append, texts_dueTabs]
    exact List.Sublist.refl _
  · have hnone := texts_reports_of_ne doc w (fun s hs => htext ⟨s, hs⟩)
    rw [hnone, List.nil_append]
    exact Token.allTextsOfList_suffix (h.suffix.trans (List.suffix_cons t ts))

/-- The walk reported, of the texts in the tokens, each at most once and in their order. -/
def AddsTexts (texts : List String) : Walk → Walk → Prop :=
  Adds (fun reported => List.Sublist (reported.filterMap Event.text?) texts)

theorem AddsTexts.trans {texts texts' texts'' : List String} {w₁ w₂ w₃ : Walk}
    (h₁ : AddsTexts texts w₁ w₂) (h₂ : AddsTexts texts' w₂ w₃)
    (h : List.Sublist (texts ++ texts') texts'') : AddsTexts texts'' w₁ w₃ := by
  refine Adds.trans h₁ h₂ ?_
  intro es es' hes hes'
  rw [List.filterMap_append]
  exact (hes.append hes').trans h

theorem addsTexts_throughRows {rows : List Row} {w w' : Walk}
    (h : ThroughRows (fun _ ts => AddsTexts (Token.allTextsOfList ts)) rows w w') :
    AddsTexts (Token.allTextsOfList (rows.flatMap Row.contents)) w w' := by
  induction h with
  | nil w => exact ⟨[], by simp, List.Sublist.refl _⟩
  | @cons r rows w inner w' hrow _ ih =>
    have hinner : AddsTexts (Token.allTextsOfList r.contents) w (w.leave inner) := hrow
    have htexts : Token.allTextsOfList ((r :: rows).flatMap Row.contents) =
        Token.allTextsOfList r.contents ++ Token.allTextsOfList (rows.flatMap Row.contents) := by
      rw [List.flatMap_cons, Token.allTextsOfList_append]
    rw [htexts]
    exact hinner.trans ih (List.Sublist.refl _)

theorem addsTexts_run (doc : Document) (row : Option Row) (ts : List Token) (w : Walk) :
    AddsTexts (Token.allTextsOfList ts) w (run doc row ts w) := by
  refine run_induction doc (motive := fun _ ts => AddsTexts (Token.allTextsOfList ts))
    ?nil ?perform ?scope ?table row ts w
  case nil =>
    intro _ w
    exact ⟨[], by simp, List.Sublist.refl _⟩
  case perform =>
    intro row t ts w action rest w' hreads _ _ ih
    have hstep : AddsTexts ((w.reports doc action).filterMap Event.text?) w
        (w.perform doc action) := ⟨_, events_perform doc w action, List.Sublist.refl _⟩
    exact hstep.trans ih (texts_reports doc w hreads)
  case scope =>
    intro row contents ts w inner w' _ hinner hrest
    have hleave : AddsTexts (Token.allTextsOfList contents) w (w.leave inner) := hinner
    exact hleave.trans hrest (List.Sublist.refl _)
  case table =>
    intro ts w middle w' _ hrows hrest
    rw [← Row.contents_take (.atom .rowDefaults :: ts), Token.allTextsOfList_append]
    exact (addsTexts_throughRows hrows).trans hrest (List.Sublist.refl _)

/-! Content -/

theorem contents_dueTabs (w : Walk) : Event.contents w.dueTabs = [] := by
  unfold dueTabs
  split <;> rfl

theorem contents_reports (doc : Document) (w : Walk) {action : Action}
    (hscope : ∀ contents, action ≠ .scope contents) (hrows : ∀ rows, action ≠ .rows rows) :
    Event.contents (w.reports doc action) = action.plainEvents := by
  cases action with
  | scope contents => exact absurd rfl (hscope contents)
  | rows rows => exact absurd rfl (hrows rows)
  | text s =>
    rw [reports, Event.contents_append, contents_dueTabs]
    rfl
  | picture p =>
    rw [reports, Event.contents_append, contents_dueTabs]
    rfl
  | breakMark kind =>
    by_cases hkind : kind = .tab
    · subst hkind
      rfl
    · simp [reports, Event.contents, Event.isContent, Event.unstyled, Action.plainEvents, hkind]
  | _ => rfl

/-- Tokens count throughout, and the walk reported just this content. -/
def AddsContents (contents : List Event) (w w' : Walk) : Prop :=
  w'.active = w.active ∧ Adds (fun reported => Event.contents reported = contents) w w'

theorem AddsContents.refl (w : Walk) : AddsContents [] w w :=
  ⟨rfl, [], by simp, rfl⟩

theorem AddsContents.trans {contents contents' : List Event} {w₁ w₂ w₃ : Walk}
    (h₁ : AddsContents contents w₁ w₂) (h₂ : AddsContents contents' w₂ w₃) :
    AddsContents (contents ++ contents') w₁ w₃ := by
  obtain ⟨hactive₁, hadds₁⟩ := h₁
  obtain ⟨hactive₂, hadds₂⟩ := h₂
  refine ⟨hactive₂.trans hactive₁, hadds₁.trans hadds₂ ?_⟩
  intro es es' hes hes'
  rw [Event.contents_append, hes, hes']

theorem addsContents_leave {contents : List Event} {w inner : Walk}
    (h : AddsContents contents w.enter inner) : AddsContents contents w (w.leave inner) :=
  ⟨rfl, h.2⟩

/-- The content that a walk over delimited tokens reports, if tokens count where it starts. -/
def ReadsPlainly (_ : Option Row) (ts : List Token) (w w' : Walk) : Prop :=
  w.active = true → Token.Delimited ts → AddsContents (Token.plainEventsOfList ts) w w'

theorem addsContents_throughRows {rows : List Row} {w w' : Walk}
    (h : ThroughRows ReadsPlainly rows w w') (hactive : w.active = true)
    (hrows : ∀ r ∈ rows, Token.Delimited r.contents) :
    AddsContents (Token.plainEventsOfList (rows.flatMap Row.contents)) w w' := by
  induction h with
  | nil w => exact .refl w
  | @cons r rows w inner w' hrow _ ih =>
    have hinner := hrow hactive (hrows r List.mem_cons_self)
    have hrest := ih hactive (fun r' hr' => hrows r' (List.mem_cons_of_mem _ hr'))
    rw [List.flatMap_cons, Token.plainEventsOfList_append]
    exact (addsContents_leave hinner).trans hrest

theorem readsPlainly_run (doc : Document) (row : Option Row) (ts : List Token) (w : Walk) :
    ReadsPlainly row ts w (run doc row ts w) := by
  refine run_induction doc (motive := ReadsPlainly) ?nil ?perform ?scope ?table row ts w
  case nil =>
    intro _ w _ _
    exact .refl w
  case perform =>
    intro row t ts w action rest w' hreads hscope hrows ih hactive hts
    rw [hactive] at hreads
    have hon : ∀ on, action ≠ .activate on := by
      rintro on rfl
      have hfenceless := hts.fenceless _ List.mem_cons_self t List.mem_cons_self
      rw [Action.fence_of_reads hreads] at hfenceless
      exact Bool.noConfusion hfenceless
    have hkept := active_perform doc w hon
    have hstep : AddsContents action.plainEvents w (w.perform doc action) :=
      ⟨hkept, _, events_perform doc w action, contents_reports doc w hscope hrows⟩
    rw [Action.plainEvents_of_reads hreads hts]
    exact hstep.trans (ih (hkept.trans hactive) (hts.tail.suffix hreads.suffix))
  case scope =>
    intro row contents ts w inner w' hreads hinner hrest hactive hts
    rw [hactive] at hreads
    have hcontents := hinner hactive hts.contents
    rw [Action.plainEvents_of_reads hreads hts]
    exact (addsContents_leave hcontents).trans (hrest hactive hts.tail)
  case table =>
    intro ts w middle w' hactive hrows hrest _ hts
    obtain ⟨hdelimited, hafter⟩ := Row.delimited_takeFrom 0 hts
    have hmiddle := addsContents_throughRows hrows hactive hdelimited
    rw [Action.plainEvents_of_reads .table hts]
    exact hmiddle.trans (hrest (hmiddle.1.trans hactive) hafter)

end Walk

namespace Document

def plainEvents (doc : Document) : List Event :=
  if Group.isIgnorable doc.body then [] else Token.plainEventsOfList doc.body

theorem mem_defaults {doc : Document} {event : Event}
    (h : event ∈ doc.contents.filterMap doc.default?) :
    (∃ font, event = .defaultFont font) ∨ ∃ width, event = .defaultTabWidth width := by
  obtain ⟨t, _, ht⟩ := List.mem_filterMap.1 h
  unfold default? at ht
  split at ht
  · split at ht
    · exact .inl ⟨_, (Option.some.inj ht).symm⟩
    · exact .inl ⟨_, (Option.some.inj ht).symm⟩
  · exact .inr ⟨_, (Option.some.inj ht).symm⟩
  · simp at ht

theorem texts_defaults (doc : Document) :
    (doc.contents.filterMap doc.default?).filterMap Event.text? = [] := by
  rw [List.filterMap_eq_nil_iff]
  intro event hevent
  obtain ⟨font, rfl⟩ | ⟨width, rfl⟩ := mem_defaults hevent
  · rfl
  · rfl

theorem contents_defaults (doc : Document) :
    Event.contents (doc.contents.filterMap doc.default?) = [] := by
  rw [Event.contents, List.map_eq_nil_iff, List.filter_eq_nil_iff]
  intro event hevent
  obtain ⟨font, rfl⟩ | ⟨width, rfl⟩ := mem_defaults hevent
  · exact Bool.false_ne_true
  · exact Bool.false_ne_true

theorem isBody_of_category {t : Token}
    (h : t.category = .cellFormat ∨ t.category = .borderProperty) : isBody t = true := by
  have hdocument : ¬(Category.document = .cellFormat ∨ Category.document = .borderProperty) := by
    decide
  have hgroup : ¬(Category.group = .cellFormat ∨ Category.group = .borderProperty) := by decide
  have hheader : ∀ c : Category, c = .cellFormat ∨ c = .borderProperty →
      c.contains .headerTag = false := by
    rintro c (rfl | rfl)
    · decide
    · decide
  fun_cases isBody t with
  | case1 id => exact absurd h hdocument
  | case2 width => exact absurd h hdocument
  | case3 a hfont hwidth =>
    rw [hheader a.category h]
    rfl
  | case4 contents => exact absurd h hgroup

theorem texts_walk (doc : Document) :
    List.Sublist (doc.walk.events.toList.filterMap Event.text?)
      (Token.allTextsOfList doc.contents) := by
  have hbody : List.Sublist (Token.allTextsOfList doc.body) (Token.allTextsOfList doc.contents) :=
    Token.allTextsOfList_filter isBody doc.contents
  unfold walk
  split
  · exact List.nil_sublist _
  · obtain ⟨reported, hevents, htexts⟩ := Walk.addsTexts_run doc none doc.body {}
    rw [hevents]
    exact htexts.trans hbody

theorem contents_walk (doc : Document) (h : Token.Delimited doc.contents) :
    Event.contents doc.walk.events.toList = doc.plainEvents := by
  unfold walk plainEvents
  split
  · rfl
  · have hbody : Token.Delimited doc.body := h.filter (fun t ht => isBody_of_category ht)
    obtain ⟨_, reported, hevents, hcontents⟩ := Walk.readsPlainly_run doc none doc.body {} rfl hbody
    rw [hevents]
    exact hcontents

/-- Texts are reported in the order of their tokens, none twice. Where all cells are delimited,
rows, cells and borders are put together without losing or moving any content. -/
theorem events_in_order (doc : Document) :
    List.Sublist (doc.events.filterMap Event.text?) (Token.allTextsOfList doc.contents) ∧
      (Token.Delimited doc.contents → Event.contents doc.events = doc.plainEvents) := by
  refine ⟨?_, ?_⟩
  · have htexts : doc.events.filterMap Event.text? =
        doc.walk.events.toList.filterMap Event.text? := by
      rw [events, List.filterMap_append, List.filterMap_append, texts_defaults]
      simp [Event.text?]
    rw [htexts]
    exact doc.texts_walk
  · intro h
    have hcontents : Event.contents doc.events = Event.contents doc.walk.events.toList := by
      rw [events, Event.contents_append, Event.contents_append, contents_defaults]
      simp [Event.contents, Event.isContent]
    rw [hcontents]
    exact doc.contents_walk h

def withTable : Document where
  contents := [.text "before", .atom .rowDefaults, .atom (.borderPosition .cellTop),
    .atom (.borderWidth 15), .atom (.rightCellBoundary 1000),
    .group [.atom (.bold true), .text "a", .atom (.breakMark .tab)], .text "b",
    .atom (.breakMark .cell), .atom (.breakMark .row)]

theorem events_in_order_withTable :
    Token.Delimited withTable.contents ∧
      Event.contents withTable.events = [.text {} "before", .text {} "a", .text {} "b",
        .breaks {} .cell 1, .breaks {} .row 1] := by
  have hdelimited : Token.Delimited withTable.contents := ⟨by decide, by decide⟩
  exact ⟨hdelimited, (events_in_order withTable).2 hdelimited⟩

end Document

end RichText
