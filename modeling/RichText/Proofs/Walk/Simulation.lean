import RichText.Proofs.Walk.Protocol
import RichText.Proofs.Walk.Rewording
set_option autoImplicit false

/-!
Two walks side by side, over token lists of which one is a rewording of the other. They go through
the same scopes with styles of the same outline, and report the same but for the texts that were
replaced. Main statement: `simulated_run`.
-/
namespace RichText

/-- `Reworded d es es'`: but for what styles keep beyond their outline, the events differ in the
texts of `d` alone, each of which is reported in pieces of the same style. -/
inductive Event.Reworded : List (String × List String) → List Event → List Event → Prop where
  | nil : Reworded [] [] []
  | same {d : List (String × List String)} {e e' : Event} {es es' : List Event}
      (h : e.outline = e'.outline) (hrest : Reworded d es es') : Reworded d (e :: es) (e' :: es')
  | text {d : List (String × List String)} {style style' : Style} {s : String}
      {ss : List String} {es es' : List Event} (h : style.outline = style'.outline)
      (hrest : Reworded d es es') :
      Reworded ((s, ss) :: d) (.text style s :: es) (ss.map (Event.text style') ++ es')

namespace Event.Reworded

variable {d d' : List (String × List String)} {es es' fs fs' : List Event}

theorem refl (es : List Event) : Reworded [] es es := by
  induction es with
  | nil => exact .nil
  | cons e es ih => exact .same rfl ih

theorem append (h : Reworded d es es') (h' : Reworded d' fs fs') :
    Reworded (d ++ d') (es ++ fs) (es' ++ fs') := by
  induction h with
  | nil => exact h'
  | same houtline _ ih => exact .same houtline ih
  | text houtline _ ih =>
    rw [List.append_assoc]
    exact .text houtline ih

theorem map_outline_eq (h : Reworded d es es') (hd : d = []) :
    es.map outline = es'.map outline := by
  induction h with
  | nil => rfl
  | same houtline _ ih => rw [List.map_cons, List.map_cons, houtline, ih hd]
  | text => simp at hd

theorem map_outline_eq_iff {s s' : String} (h : Reworded d es es') (hd : d = [(s, [s'])]) :
    es.map outline = es'.map outline ↔ s = s' := by
  induction h with
  | nil => simp at hd
  | same houtline _ ih => simp only [List.map_cons, houtline, List.cons.injEq, true_and, ih hd]
  | @text d style style' s ss es es' houtline hrest _ =>
    obtain ⟨hpair, rfl⟩ := List.cons.inj hd
    obtain ⟨rfl, rfl⟩ := Prod.mk.inj hpair
    have hsame := hrest.map_outline_eq rfl
    simp [outline, houtline, hsame]

end Event.Reworded

/-- What a reworded token asks for: the same, a cell of the same outline, other texts or nothing. -/
inductive Action.Reworded : List (String × List String) → Action → List Action → Prop where
  | same {action : Action} : Reworded [] action [action]
  | cell {cell cell' : Cell} (h : cell.outline = cell'.outline) :
      Reworded [] (.cell cell) [.cell cell']
  | text {s : String} {ss : List String} (h : ss ≠ []) :
      Reworded [(s, ss)] (.text s) (ss.map Action.text)
  | silent : Reworded [] .pass []

namespace Walk

/-- The walks are in scopes of the same styles, at the same point, and reported the same but for
the texts of `d`. -/
structure Alike (d : List (String × List String)) (w w' : Walk) : Prop where
  style_eq : w.style.outline = w'.style.outline
  enclosing_eq : w.enclosing.map Style.outline = w'.enclosing.map Style.outline
  active_eq : w.active = w'.active
  tabs_eq : w.tabs = w'.tabs
  events : Event.Reworded d w.events.toList w'.events.toList
  sound : w'.Sound

theorem foldl_texts {doc : Document} {w : Walk} (hsound : w.Sound) {ss : List String} (hss : ss ≠ []) :
    (ss.map Action.text).foldl (Walk.perform doc) w =
      (w.resolve doc).flushTabs.report
        (ss.map (Event.text (w.resolve doc).flushTabs.style)) := by
  have hstyle : w.style.WellFormed := hsound _ List.mem_cons_self
  have hsettled : ∀ (v : Walk) (ss : List String), v.style.resolveList doc = v.style →
      v.tabs = 0 → (ss.map Action.text).foldl (Walk.perform doc) v =
        v.report (ss.map (Event.text v.style)) := by
    intro v ss hresolved htabs
    induction ss generalizing v with
    | nil => simp
    | cons s ss ih =>
      rw [List.map_cons, List.foldl_cons, perform_text_of_resolved htabs hresolved,
        ih (v.report [.text v.style s]) hresolved htabs, report_report]
      rfl
  obtain ⟨s, rest, rfl⟩ := List.exists_cons_of_ne_nil hss
  have htext : w.perform doc (.text s) =
      (w.resolve doc).flushTabs.report [.text (w.resolve doc).flushTabs.style s] := by
    simp [Walk.perform, Walk.emit, report]
  have hresolved : (w.resolve doc).flushTabs.style.resolveList doc =
      (w.resolve doc).flushTabs.style := by
    rw [style_flushTabs]
    exact Style.resolveList_resolveList hstyle doc
  rw [List.map_cons, List.foldl_cons, htext,
    hsettled ((w.resolve doc).flushTabs.report _) rest hresolved (tabs_flushTabs _),
    report_report]
  rfl

namespace Alike

variable {d d' : List (String × List String)} {w w' inner inner' : Walk} {doc doc' : Document}

theorem emit (h : Alike d w w') {e e' : Event} (he : e.outline = e'.outline) :
    Alike d (w.emit e) (w'.emit e') where
  style_eq := h.style_eq
  enclosing_eq := h.enclosing_eq
  active_eq := h.active_eq
  tabs_eq := h.tabs_eq
  events := by
    have hevents := h.events.append (.same he .nil)
    rw [List.append_nil] at hevents
    simpa [Walk.emit] using hevents
  sound := h.sound

theorem record (h : Alike d w w') {style style' : Style} (hstyle : style.outline = style'.outline)
    (hsound : style'.WellFormed) :
    Alike d { w with style := style } { w' with style := style' } where
  style_eq := hstyle
  enclosing_eq := h.enclosing_eq
  active_eq := h.active_eq
  tabs_eq := h.tabs_eq
  events := h.events
  sound := h.sound.of_style hsound rfl

theorem setTabs (h : Alike d w w') (tabs : Nat) :
    Alike d { w with tabs := tabs } { w' with tabs := tabs } where
  style_eq := h.style_eq
  enclosing_eq := h.enclosing_eq
  active_eq := h.active_eq
  tabs_eq := rfl
  events := h.events
  sound := h.sound

theorem flushTabs (h : Alike d w w') : Alike d w.flushTabs w'.flushTabs := by
  unfold Walk.flushTabs
  rw [← h.tabs_eq]
  split
  · exact h
  · refine (h.emit ?_).setTabs 0
    exact congrArg (fun style => Event.breaks style .tab w.tabs) h.style_eq

theorem leaveTable (h : Alike d w w') : Alike d w.leaveTable w'.leaveTable where
  style_eq := by
    have hstyle := congrArg (fun style => Style.setInTable style false) h.style_eq
    simpa [Walk.leaveTable, Style.outline_setInTable] using hstyle
  enclosing_eq := by
    have henclosing := congrArg (List.map (fun style => Style.setInTable style false))
      h.enclosing_eq
    simpa [Walk.leaveTable, Style.outline_setInTable, Function.comp_def] using henclosing
  active_eq := h.active_eq
  tabs_eq := h.tabs_eq
  events := h.events
  sound := h.sound.leaveTable

theorem enter (h : Alike d w w') : Alike d w.enter w'.enter where
  style_eq := h.style_eq
  enclosing_eq := by
    rw [Walk.enter, Walk.enter, List.map_cons, List.map_cons, h.style_eq, h.enclosing_eq]
  active_eq := h.active_eq
  tabs_eq := rfl
  events := h.events
  sound := h.sound.enter

theorem leave (h : Alike d w w') (hinner : Alike d' inner inner') :
    Alike d' (w.leave inner) (w'.leave inner') where
  style_eq := by
    have henclosing := hinner.enclosing_eq
    unfold Walk.leave
    cases hs : inner.enclosing with
    | nil =>
      rw [hs, List.map_nil, eq_comm, List.map_eq_nil_iff] at henclosing
      rw [henclosing]
      exact h.style_eq
    | cons style styles =>
      rw [hs, List.map_cons, eq_comm, List.map_eq_cons_iff] at henclosing
      obtain ⟨style', styles', hs', hstyle, _⟩ := henclosing
      rw [hs']
      exact hstyle.symm
  enclosing_eq := by
    simp only [Walk.leave, List.map_tail, hinner.enclosing_eq]
  active_eq := h.active_eq
  tabs_eq := h.tabs_eq
  events := hinner.events
  sound := h.sound.leave hinner.sound

theorem cell (h : Alike d w w') {cell cell' : Cell} (hcell : cell.outline = cell'.outline) :
    Alike d (w.perform doc (.cell cell)) (w'.perform doc' (.cell cell')) := by
  have hchain : (CellChain.extend w.style.cellChain? cell).outline =
      (CellChain.extend w'.style.cellChain? cell').outline := by
    rw [CellChain.extend_outline, CellChain.extend_outline, ← Style.cellChain?_outline,
      ← Style.cellChain?_outline, h.style_eq, hcell]
  have hstyle : w'.style.WellFormed := h.sound _ List.mem_cons_self
  refine h.record ?_ (hstyle.add (.cell (CellChain.extend w'.style.cellChain? cell')))
  rw [Style.outline_add, Style.outline_add, h.style_eq]
  exact congrArg (fun chain => w'.style.outline.add (.cell chain)) hchain

section Perform

variable (hdoc : ∀ style : Style, style.resolveList doc = style.resolveList doc')
include hdoc

theorem resolve (h : Alike d w w') : Alike d (w.resolve doc) (w'.resolve doc') := by
  refine h.record ?_ ?_
  · rw [Style.outline_resolveList, Style.outline_resolveList, h.style_eq, hdoc]
  · exact Style.WellFormed.resolveList (h.sound _ List.mem_cons_self) doc'

theorem perform (h : Alike d w w') (action : Action) :
    Alike d (w.perform doc action) (w'.perform doc' action) := by
  have hstyle : w'.style.WellFormed := h.sound _ List.mem_cons_self
  have hresolved := h.resolve hdoc
  cases action with
  | activate on =>
    exact ⟨h.style_eq, h.enclosing_eq, rfl, h.tabs_eq, h.events, h.sound⟩
  | record entries =>
    refine h.record ?_ (hstyle.addAll entries)
    rw [Style.outline_addAll, Style.outline_addAll, h.style_eq]
  | cell cell => exact h.cell rfl
  | tab =>
    rw [Walk.perform, Walk.perform, h.tabs_eq]
    exact h.setTabs _
  | text s =>
    refine hresolved.flushTabs.emit ?_
    exact congrArg (fun style => Event.text style s) hresolved.flushTabs.style_eq
  | picture p =>
    refine hresolved.flushTabs.emit ?_
    exact congrArg (fun style => Event.picture style p) hresolved.flushTabs.style_eq
  | breakMark kind =>
    have hbreak : Alike d ((w.resolve doc).emit (.breaks (w.resolve doc).style kind 1))
        ((w'.resolve doc').emit (.breaks (w'.resolve doc').style kind 1)) := by
      refine hresolved.emit ?_
      exact congrArg (fun style => Event.breaks style kind 1) hresolved.style_eq
    simp only [Walk.perform, reportBreak]
    split
    · exact hbreak.leaveTable.setTabs 0
    · exact hbreak.setTabs 0
  | _ => exact h

theorem texts (h : Alike d w w') {ss : List String} (hss : ss ≠ []) (s : String) :
    Alike (d ++ [(s, ss)]) (w.perform doc (.text s))
      ((ss.map Action.text).foldl (Walk.perform doc') w') := by
  have hflushed := (h.resolve hdoc).flushTabs
  have htext : Event.Reworded [(s, ss)] [.text (w.resolve doc).flushTabs.style s]
      (ss.map (Event.text (w'.resolve doc').flushTabs.style) ++ []) :=
    .text hflushed.style_eq .nil
  rw [foldl_texts h.sound hss]
  exact
    { hflushed with
      events := by simpa [Walk.perform, Walk.emit, report] using hflushed.events.append htext }

theorem performReworded (h : Alike d w w') {action : Action} {actions : List Action}
    (hactions : Action.Reworded d' action actions) :
    Alike (d ++ d') (w.perform doc action) (actions.foldl (Walk.perform doc') w') := by
  cases hactions with
  | same =>
    rw [List.append_nil]
    exact h.perform hdoc action
  | @cell cell cell' hcell =>
    rw [List.append_nil]
    change Alike d (w.perform doc (.cell cell)) (w'.perform doc' (.cell cell'))
    exact h.cell hcell
  | text hss => exact h.texts hdoc hss _
  | silent =>
    rw [List.append_nil]
    exact h

end Perform

end Alike

/-! Reading -/

section Reading

variable {row row' : Option Row} {active : Bool} {t : Token} {ts us rest : List Token}
  {action : Action} {d : List (String × List String)}

theorem run_texts_inactive (doc : Document) (row : Option Row) (ss : List String)
    (ts : List Token) {w : Walk} (hactive : w.active = false) :
    run doc row (ss.map Token.text ++ ts) w = run doc row ts w := by
  induction ss with
  | nil => rfl
  | cons s ss ih =>
    have hreads : Action.Reads row w.active (.text s) (ss.map Token.text ++ ts) .pass
        (ss.map Token.text ++ ts) := by
      rw [hactive]
      exact .skipped (by simp)
    rw [List.map_cons, List.cons_append, run_perform hreads (by simp) (by simp)]
    exact ih

theorem run_texts (doc : Document) (row : Option Row) (ss : List String) (ts : List Token)
    {w : Walk} (hactive : w.active = true) :
    run doc row (ss.map Token.text ++ ts) w =
      run doc row ts ((ss.map Action.text).foldl (Walk.perform doc) w) := by
  induction ss generalizing w with
  | nil => rfl
  | cons s ss ih =>
    have hreads : Action.Reads row w.active (.text s) (ss.map Token.text ++ ts) (.text s)
        (ss.map Token.text ++ ts) := by
      rw [hactive]
      exact .text s
    have hkept : (w.perform doc (.text s)).active = true :=
      (active_perform doc w (by simp)).trans hactive
    rw [List.map_cons, List.cons_append, run_perform hreads (by simp) (by simp), ih hkept]
    rfl

theorem reads_group (row : Option Row) (active : Bool) (contents ts : List Token) :
    Action.Reads row active (.group contents) ts ((Position.start row active).action contents)
      ts := by
  cases active with
  | true => exact .group contents
  | false => exact .skippedGroup contents

theorem action_of_reads {contents : List Token}
    (h : Action.Reads row active (.group contents) ts action rest) :
    (Position.start row active).action contents = action ∧ ts = rest :=
  Prod.mk.inj ((reads_group row active contents ts).next_eq.symm.trans h.next_eq)

theorem activeAfter_of_reads_group {contents : List Token}
    (h : Action.Reads row active (.group contents) ts action rest) :
    action.activeAfter active = active := by
  obtain ⟨_, rfl | ⟨_, rfl⟩ | ⟨_, rfl⟩ | ⟨rfl, _⟩⟩ := Action.reads_group_cases h
  all_goals rfl

/-- But for texts, the tokens `us` ask for the same as the action, and then go on like the rest. -/
def ReadsLike (row row' : Option Row) (active : Bool) (d : List (String × List String))
    (action : Action) (rest us : List Token) : Prop :=
  ∃ d₁ d₂ actions rest', d = d₁ ++ d₂ ∧ Action.Reworded d₁ action actions ∧
    Token.RewordedList (.start row (action.activeAfter active)) d₂ rest rest' ∧
    ∀ (doc : Document) (w : Walk), w.active = active →
      run doc row' us w = run doc row' rest' (actions.foldl (Walk.perform doc) w)

theorem ReadsLike.of_reads {action' : Action} {u : Token} {rest' : List Token}
    (hreads : Action.Reads row' active u us action' rest')
    (hactions : Action.Reworded [] action [action']) (hscope : ∀ contents, action' ≠ .scope contents)
    (hrows : ∀ rows, action' ≠ .rows rows)
    (hrest : Token.RewordedList (.start row (action.activeAfter active)) d rest rest') :
    ReadsLike row row' active d action rest (u :: us) := by
  refine ⟨[], d, [action'], rest', rfl, hactions, hrest, ?_⟩
  rintro doc w rfl
  exact run_perform hreads hscope hrows

theorem after_start_group (row : Option Row) (active : Bool) (contents : List Token) :
    (Position.start row active).after (.group contents) = .start row active :=
  Position.after_of_neutral (Position.place_start row active) (by simp)
    (by decide : Category.group ≠ .cellFormat) (by simp)

theorem after_start_atom {a : Atom} (row : Option Row) (active : Bool)
    (hfence : ∀ on, a ≠ .htmlRtf on) (hcell : a.category ≠ .cellFormat)
    (hdefaults : a = .rowDefaults → row ≠ none) :
    (Position.start row active).after (.atom a) = .start row active := by
  refine Position.after_of_neutral (Position.place_start row active) (by simpa using hfence) hcell ?_
  intro ha
  obtain ⟨r, rfl⟩ := Option.ne_none_iff_exists'.1 (hdefaults (Token.atom.inj ha))
  exact .inl rfl

theorem readsLike_group {contents : List Token}
    (hreads : Action.Reads row active (.group contents) ts action rest)
    (hscope : ∀ contents, action ≠ .scope contents) (hrows : ∀ rows, action ≠ .rows rows)
    (h : Token.RewordedList (.start row active) d (.group contents :: ts) us) :
    ReadsLike row row' active d action rest us := by
  obtain ⟨rfl, rfl⟩ := action_of_reads hreads
  cases h with
  | @cons _ _ _ _ _ _ us' hhead htail =>
    rw [after_start_group] at htail
    cases hhead with
    | swallowed hcell => exact absurd hcell Bool.false_ne_true
    | entered _ _ haction => exact absurd haction (hscope _)
    | @kept _ _ contents' _ _ haction =>
      have hreads' := reads_group row' active contents' us'
      have hsame : (Position.start row' active).action contents' =
          (Position.start row active).action contents := haction.symm
      rw [hsame] at hreads'
      rw [← activeAfter_of_reads_group hreads] at htail
      exact .of_reads hreads' .same hscope hrows htail

theorem readsLike_text {s : String} {ss : List String} (hss : ss ≠ [])
    (hreads : Action.Reads row active (.text s) ts action rest)
    (h : Token.RewordedList (.start row active) d ts us) :
    ReadsLike row row' active ((if (Position.start row active).reports then [(s, ss)] else []) ++ d)
      action rest (ss.map Token.text ++ us) := by
  cases hreads with
  | skipped hfence =>
    refine ⟨[], d, [], us, rfl, .silent, h, ?_⟩
    intro doc w hw
    exact run_texts_inactive doc row' ss us hw
  | text s =>
    refine ⟨[(s, ss)], d, ss.map Action.text, us, rfl, .text hss, h, ?_⟩
    intro doc w hw
    exact run_texts doc row' ss us hw
  | cell hcell => exact absurd hcell (by decide : Category.text ≠ .cellFormat)
  | format hformat => exact absurd hformat (by decide : ¬Category.text.contains .format = true)
  | ignored _ _ htext => exact absurd rfl (htext s)

theorem readsLike_cell {a : Atom} (hcell : a.category = .cellFormat)
    (hrow : row.map Row.outline = row'.map Row.outline)
    (h : Token.RewordedList ((Position.start row true).after (.atom a)) d ts us) :
    ReadsLike row row' true d (.cell (Cell.take { row := row } (.atom a :: ts)).1)
      (Cell.take { row := row } (.atom a :: ts)).2 (.atom a :: us) := by
  let q : Position := { Position.start row true with inCell := true }
  have hplace : q.place = .outside ∨ q.place = .owned := Position.place_start row true
  have hafter : q.after (.atom a) = (Position.start row true).after (.atom a) := by
    rw [Position.after_inCell (p := q) hplace rfl,
      Position.after_start_cell (t := .atom a) row hcell]
  rw [← hafter] at h
  have hempty : ({ row := row } : Cell).outline = ({ row := row' } : Cell).outline :=
    congrArg (fun row => ({ row := row } : Cell)) hrow
  obtain ⟨houtline, hrest⟩ := (Token.RewordedList.cons_atom h).take hplace rfl hempty
  exact .of_reads (.cell hcell) (.cell houtline) (by simp) (by simp) hrest

theorem readsLike_atom {a : Atom} (hreads : Action.Reads row active (.atom a) ts action rest)
    (hscope : ∀ contents, action ≠ .scope contents) (hrows : ∀ rows, action ≠ .rows rows)
    (hrow : row.map Row.outline = row'.map Row.outline)
    (h : Token.RewordedList ((Position.start row active).after (.atom a)) d ts us) :
    ReadsLike row row' active d action rest (.atom a :: us) := by
  cases hreads with
  | fence on =>
    rw [Position.after_start_fence] at h
    exact .of_reads (.fence on) .same hscope hrows h
  | skipped hfence =>
    rw [Position.after_start_inactive row (by simpa using hfence)] at h
    exact .of_reads (.skipped hfence) .same hscope hrows h
  | table => exact absurd rfl (hrows _)
  | cell hcell => exact readsLike_cell hcell hrow h
  | @border _ _ side hside =>
    have hcell : (Atom.borderPosition side).category ≠ .cellFormat := by
      rw [Atom.category, BorderSide.category, hside]
      decide
    rw [after_start_atom row true (by simp) hcell (by simp)] at h
    obtain ⟨hborder, hrest⟩ := h.absorbAll (Position.place_start row true) { side := side }
    refine .of_reads (.border hside) ?_ (by simp) (by simp) hrest
    rw [hborder]
    exact .same
  | format hformat hcell hborder hdefaults =>
    have hfence : ∀ on, a ≠ .htmlRtf on := by
      rintro on rfl
      exact absurd hformat (by decide : ¬Category.none.contains .format = true)
    have hdefaults' : a = .rowDefaults → row' ≠ none := by
      rintro ha rfl
      exact hdefaults ha (by simpa using hrow)
    rw [after_start_atom row true hfence hcell hdefaults] at h
    exact .of_reads (.format hformat hcell hborder hdefaults') .same hscope hrows h
  | tab =>
    rw [after_start_atom row true (by simp) (by decide) (by simp)] at h
    exact .of_reads .tab .same hscope hrows h
  | @breakMark _ _ kind hkind =>
    have hcell : (Atom.breakMark kind).category ≠ .cellFormat :=
      (by decide : Category.breakTag ≠ .cellFormat)
    rw [after_start_atom row true (by simp) hcell (by simp)] at h
    exact .of_reads (.breakMark hkind) .same hscope hrows h
  | text s =>
    have hcell : (Atom.text s).category ≠ .cellFormat := (by decide : Category.text ≠ .cellFormat)
    rw [after_start_atom row true (by simp) hcell (by simp)] at h
    exact .of_reads (.text s) .same hscope hrows h
  | ignored hfence hformat htext hbreak =>
    have hcell : a.category ≠ .cellFormat := by
      intro hcell
      rw [hcell] at hformat
      exact absurd hformat (by decide)
    have hdefaults : a ≠ .rowDefaults := by
      rintro rfl
      exact absurd hformat (by decide)
    rw [after_start_atom row true hfence hcell (fun ha => absurd ha hdefaults)] at h
    exact .of_reads (.ignored hfence hformat htext hbreak) .same hscope hrows h

theorem reads_reworded (hreads : Action.Reads row active t ts action rest)
    (hscope : ∀ contents, action ≠ .scope contents) (hrows : ∀ rows, action ≠ .rows rows)
    (hrow : row.map Row.outline = row'.map Row.outline)
    (h : Token.RewordedList (.start row active) d (t :: ts) us) :
    ReadsLike row row' active d action rest us := by
  cases t with
  | group contents => exact readsLike_group hreads hscope hrows h
  | atom a =>
    cases h with
    | @cons _ _ _ _ _ _ us' hhead htail =>
      cases hhead with
      | @text _ s ss hss =>
        have hcell : (Atom.text s).category ≠ .cellFormat :=
          (by decide : Category.text ≠ .cellFormat)
        rw [after_start_atom row active (by simp) hcell (by simp)] at htail
        exact readsLike_text hss hreads htail
      | atom => exact readsLike_atom hreads hscope hrows hrow htail

end Reading

/-! Whole walks -/

/-- Whatever the list is reworded to, a walk over that ends alike if it starts alike. -/
def Simulated (doc' : Document) (row : Option Row) (ts : List Token) (w wEnd : Walk) : Prop :=
  ∀ (row' : Option Row) (us : List Token) (d₀ d : List (String × List String)) (w' : Walk),
    row.map Row.outline = row'.map Row.outline →
    Token.RewordedList (.start row w.active) d ts us → Alike d₀ w w' →
    Alike (d₀ ++ d) wEnd (run doc' row' us w')

theorem alike_throughRows {doc' : Document} {rows rows' : List Row}
    {d₀ d : List (String × List String)} {w middle w' : Walk}
    (h : ThroughRows (Simulated doc') rows w middle) (hrows : Token.RewordedRows d rows rows')
    (hactive : w.active = true) (halike : Alike d₀ w w') :
    middle.active = true ∧ Alike (d₀ ++ d) middle
      (rows'.foldl (fun w r => w.leave (run doc' (some r) r.contents w.enter)) w') := by
  -- rows change the style around them when they end, so each one starts alike after the last
  induction h generalizing rows' d₀ d w' with
  | nil w =>
    cases hrows
    rw [List.append_nil]
    exact ⟨hactive, halike⟩
  | @cons r rows w inner wEnd hrow _ ih =>
    cases hrows with
    | @cons d₁ d₂ index contents contents' _ rows' hcontents hrows =>
      have houtline : (some (⟨index, contents⟩ : Row)).map Row.outline =
          (some (⟨index, contents'⟩ : Row)).map Row.outline :=
        congrArg some (hcontents.outline_row index)
      have hstart : Position.start (some ⟨index, contents⟩) w.enter.active =
          { place := .owned } := by
        rw [enter, hactive]
        rfl
      rw [← hstart] at hcontents
      have hinner := hrow _ contents' d₀ d₁ w'.enter houtline hcontents halike.enter
      rw [List.foldl_cons, ← List.append_assoc]
      exact ih hrows hactive (halike.leave hinner)

variable {doc doc' : Document}

theorem simulated_run (hdoc : ∀ style : Style, style.resolveList doc = style.resolveList doc')
    (row : Option Row) (ts : List Token) (w : Walk) :
    Simulated doc' row ts w (run doc row ts w) := by
  refine run_induction doc (motive := Simulated doc') ?nil ?perform ?scope ?table row ts w
  case nil =>
    intro row w row' us d₀ d w' _ hwords halike
    cases hwords
    rw [List.append_nil, run]
    exact halike
  case perform =>
    intro row t ts w action rest wEnd hreads hscope hrows ih row' us d₀ d w' hrow hwords halike
    obtain ⟨d₁, d₂, actions, rest', rfl, hactions, hrest, hrun⟩ :=
      reads_reworded hreads hscope hrows hrow hwords
    have hperformed := halike.performReworded hdoc hactions
    rw [← active_perform_eq doc] at hrest
    rw [hrun doc' w' halike.active_eq.symm, ← List.append_assoc]
    exact ih row' rest' _ d₂ _ hrow hrest hperformed
  case scope =>
    intro row contents ts w inner wEnd hreads hinner hrest row' us d₀ d w' hrow hwords halike
    obtain ⟨haction, -⟩ := action_of_reads hreads
    cases hwords with
    | @cons _ d₁ d₂ _ _ us us' hhead htail =>
      rw [after_start_group] at htail
      cases hhead with
      | swallowed hcell => exact absurd hcell Bool.false_ne_true
      | kept _ _ _ hkept => exact absurd haction (hkept contents)
      | @entered _ _ _ contents' _ _ _ haction' hcontents =>
        have hreads' := reads_group row' w.active contents' us'
        have hgroup' : (Position.start row' w.active).action contents' = .scope contents' := haction'
        rw [hgroup', halike.active_eq] at hreads'
        rw [Position.inside_start] at hcontents
        have hinside := hinner row' contents' d₀ d₁ w'.enter hrow hcontents halike.enter
        rw [List.singleton_append, run_scope hreads', ← List.append_assoc]
        exact hrest row' us' _ d₂ _ hrow htail (halike.leave hinside)
  case table =>
    intro ts w middle wEnd hactive hrows hrest row' us d₀ d w' hrow hwords halike
    obtain rfl : row' = none := by simpa using hrow.symm
    rw [hactive] at hwords
    cases hwords with
    | @cons _ d₁ d₂ _ _ us us' hhead htail =>
      cases hhead with
      | atom =>
        -- the row defaults open a table just as if another row stood in front of them
        have hbehind : Token.RewordedList { place := .behindRow } d₂ (.atom .rowDefaults :: ts)
            (.atom .rowDefaults :: us') := Token.RewordedList.cons_atom htail
        obtain ⟨d₁, d₂, rfl, htable, hafter⟩ := hbehind.takeFrom 0
        obtain ⟨hmiddle, hwalked⟩ := alike_throughRows hrows htable hactive halike
        have hstart : Position.start none middle.active = {} := by
          rw [hmiddle]
          rfl
        rw [← hstart] at hafter
        rw [List.singleton_append, run_table (halike.active_eq.symm.trans hactive),
          List.nil_append, ← List.append_assoc]
        exact hrest none _ _ d₂ _ rfl hafter hwalked

end Walk

namespace Document

/-- Documents with the same defaults whose bodies are reworded report the same but for the texts
that are replaced. -/
theorem events_reworded {doc doc' : Document} {d : List (String × List String)}
    (hdoc : ∀ style : Style, style.resolveList doc = style.resolveList doc')
    (hdefaults : doc.contents.filterMap doc.default? = doc'.contents.filterMap doc'.default?)
    (hignorable : Group.isIgnorable doc.body = Group.isIgnorable doc'.body)
    (hbody : Group.isIgnorable doc.body = false → Token.RewordedList {} d doc.body doc'.body)
    (hdropped : Group.isIgnorable doc.body = true → d = []) :
    Event.Reworded d doc.events doc'.events := by
  have hwalk : Event.Reworded d doc.walk.events.toList doc'.walk.events.toList := by
    unfold walk
    rw [← hignorable]
    split
    · rename_i hign
      rw [hdropped hign]
      exact .nil
    · rename_i hign
      have hwords := hbody (by simpa using hign)
      have hstart : Walk.Alike [] {} {} :=
        { style_eq := rfl, enclosing_eq := rfl, active_eq := rfl, tabs_eq := rfl, events := .nil,
          sound := Walk.sound_empty }
      exact (Walk.simulated_run hdoc none doc.body {} none doc'.body [] d {} rfl hwords
        hstart).events
  have hevents := ((Event.Reworded.refl (doc.contents.filterMap doc.default?)).append hwalk).append
    (Event.Reworded.refl [.close])
  rw [List.nil_append, List.append_nil] at hevents
  rw [events, events, ← hdefaults]
  exact hevents

end Document

end RichText
