import RichText.Walk
set_option autoImplicit false

/-!
Walks by cases: what the next tokens of a scope can be read as, and induction over a whole walk
along the scopes that it opens.
-/
namespace RichText

/-- `Reads row active t ts action rest`: in a scope, the token `t` and some of the tokens `ts`
after it ask for the action and leave the rest. -/
inductive Action.Reads : Option Row → Bool → Token → List Token → Action → List Token → Prop where
  | fence {row : Option Row} {active : Bool} {ts : List Token} (on : Bool) :
      Reads row active (.atom (.htmlRtf on)) ts (.activate (!on)) ts
  | skipped {row : Option Row} {ts : List Token} {a : Atom} (h : ∀ on, a ≠ .htmlRtf on) :
      Reads row false (.atom a) ts .pass ts
  | skippedGroup {row : Option Row} {ts : List Token} (contents : List Token) :
      Reads row false (.group contents) ts (Action.enter contents) ts
  | table {ts : List Token} :
      Reads none true (.atom .rowDefaults) ts (.rows (Row.take (.atom .rowDefaults :: ts)).1)
        (Row.take (.atom .rowDefaults :: ts)).2
  | cell {row : Option Row} {ts : List Token} {a : Atom} (h : a.category = .cellFormat) :
      Reads row true (.atom a) ts (.cell (Cell.take { row := row } (.atom a :: ts)).1)
        (Cell.take { row := row } (.atom a :: ts)).2
  | border {row : Option Row} {ts : List Token} {side : BorderSide} (h : side.isCell = false) :
      Reads row true (.atom (.borderPosition side)) ts
        (.record [.border (Border.absorbAll { side := side } ts).1])
        (Border.absorbAll { side := side } ts).2
  | format {row : Option Row} {ts : List Token} {a : Atom} (h : a.category.contains .format = true)
      (hcell : a.category ≠ .cellFormat) (hborder : ∀ side, a ≠ .borderPosition side)
      (hrow : a = .rowDefaults → row ≠ none) :
      Reads row true (.atom a) ts (.record [.atom a]) ts
  | tab {row : Option Row} {ts : List Token} :
      Reads row true (.atom (.breakMark .tab)) ts .tab ts
  | breakMark {row : Option Row} {ts : List Token} {kind : BreakKind} (h : kind ≠ .tab) :
      Reads row true (.atom (.breakMark kind)) ts (.breakMark kind) ts
  | text {row : Option Row} {ts : List Token} (s : String) :
      Reads row true (.text s) ts (.text s) ts
  | ignored {row : Option Row} {ts : List Token} {a : Atom} (hfence : ∀ on, a ≠ .htmlRtf on)
      (hformat : a.category.contains .format = false) (htext : ∀ s, a ≠ .text s)
      (hbreak : ∀ kind, a ≠ .breakMark kind) :
      Reads row true (.atom a) ts .pass ts
  | group {row : Option Row} {ts : List Token} (contents : List Token) :
      Reads row true (.group contents) ts (Action.ofGroup contents) ts

namespace Action

theorem nextOfAtom_eq_ofAtom {row : Option Row} {a : Atom} (ts : List Token)
    (hrow : a = .rowDefaults → row ≠ none) (hcell : a.category ≠ .cellFormat)
    (hborder : ∀ side, a ≠ .borderPosition side) : nextOfAtom row a ts = (ofAtom a, ts) := by
  have htable : ¬((a = .rowDefaults && row.isNone) = true) := by
    simpa using hrow
  unfold nextOfAtom
  rw [if_neg htable, if_neg hcell]
  split
  · exact absurd rfl (hborder _)
  · rfl

theorem ofAtom_of_format {a : Atom} (h : a.category.contains .format = true) :
    ofAtom a = .record [.atom a] :=
  if_pos h

theorem ofAtom_text (s : String) : ofAtom (.text s) = .text s :=
  if_neg (by decide : ¬Category.text.contains .format = true)

theorem next_atom {row : Option Row} {active : Bool} {a : Atom} (ts : List Token)
    (hfence : ∀ on, a ≠ .htmlRtf on) :
    next row active (.atom a) ts = if active then nextOfAtom row a ts else (.pass, ts) := by
  unfold next
  split <;> simp_all

theorem reads_ofAtom {row : Option Row} {a : Atom} {ts : List Token}
    (hfence : ∀ on, a ≠ .htmlRtf on) (hcell : a.category ≠ .cellFormat)
    (hborder : ∀ side, a ≠ .borderPosition side) (hrow : a = .rowDefaults → row ≠ none) :
    Reads row true (.atom a) ts (ofAtom a) ts := by
  unfold ofAtom
  split
  · rename_i hformat
    exact .format hformat hcell hborder hrow
  · rename_i hformat
    split
    · exact .tab
    · rename_i kind hkind
      exact .breakMark (fun h => hkind (by rw [h]))
    · rename_i s
      exact .text s
    · rename_i htab hbreak htext
      refine .ignored hfence (by simpa using hformat) htext ?_
      intro kind h
      exact hbreak kind h

theorem reads_nextOfAtom {row : Option Row} {a : Atom} {ts : List Token}
    (hfence : ∀ on, a ≠ .htmlRtf on) :
    Reads row true (.atom a) ts (nextOfAtom row a ts).1 (nextOfAtom row a ts).2 := by
  unfold nextOfAtom
  split
  · rename_i h
    obtain ⟨ha, hrow⟩ : a = .rowDefaults ∧ row = none := by simpa using h
    rw [ha, hrow]
    exact .table
  · rename_i hrow
    split
    · rename_i hcell
      exact .cell hcell
    · rename_i hcell
      split
      · rename_i side
        refine .border ?_
        cases hside : side.isCell with
        | false => rfl
        | true => exact absurd (by simp [Atom.category, BorderSide.category, hside]) hcell
      · rename_i hborder
        refine reads_ofAtom hfence hcell hborder ?_
        intro ha hnone
        simp [ha, hnone] at hrow

theorem reads_next (row : Option Row) (active : Bool) (t : Token) (ts : List Token) :
    Reads row active t ts (next row active t ts).1 (next row active t ts).2 := by
  cases t with
  | group contents =>
    cases active with
    | true => exact .group contents
    | false => exact .skippedGroup contents
  | atom a =>
    by_cases hfence : ∃ on, a = .htmlRtf on
    · obtain ⟨on, rfl⟩ := hfence
      exact .fence on
    · have hne : ∀ on, a ≠ .htmlRtf on := fun on ha => hfence ⟨on, ha⟩
      rw [next_atom ts hne]
      cases active with
      | true => exact reads_nextOfAtom hne
      | false => exact .skipped hne

theorem reads_of_next_eq {row : Option Row} {active : Bool} {t : Token} {ts rest : List Token}
    {action : Action} (h : next row active t ts = (action, rest)) :
    Reads row active t ts action rest := by
  have hreads := reads_next row active t ts
  rwa [h] at hreads

theorem Reads.next_eq {row : Option Row} {active : Bool} {t : Token} {ts rest : List Token}
    {action : Action} (h : Reads row active t ts action rest) :
    next row active t ts = (action, rest) := by
  cases h with
  | fence on => rfl
  | skipped hfence => exact next_atom ts hfence
  | skippedGroup contents => rfl
  | table => rfl
  | @cell _ _ a hcell =>
    have hfence : ∀ on, a ≠ .htmlRtf on := by
      rintro on rfl
      exact absurd hcell (by decide : Category.none ≠ .cellFormat)
    have hrow : ¬((a = .rowDefaults && row.isNone) = true) := by
      rintro htable
      obtain ⟨rfl, _⟩ : a = .rowDefaults ∧ row.isNone = true := by simpa using htable
      exact absurd hcell (by decide)
    rw [next_atom ts hfence, if_pos rfl]
    unfold nextOfAtom
    rw [if_neg hrow, if_pos hcell]
  | @border _ _ side hside =>
    have hcell : (Atom.borderPosition side).category ≠ .cellFormat := by
      rw [Atom.category, BorderSide.category, hside]
      decide
    rw [next_atom ts (fun _ => Atom.noConfusion), if_pos rfl]
    unfold nextOfAtom
    rw [if_neg (by simp), if_neg hcell]
  | @format _ _ a hformat hcell hborder hrow =>
    have hfence : ∀ on, a ≠ .htmlRtf on := by
      rintro on rfl
      exact absurd hformat (by decide : ¬Category.none.contains .format = true)
    rw [next_atom ts hfence, if_pos rfl, nextOfAtom_eq_ofAtom ts hrow hcell hborder,
      ofAtom_of_format hformat]
  | tab => rfl
  | @breakMark _ _ kind hkind => cases kind <;> first | rfl | exact absurd rfl hkind
  | text s =>
    rw [next_atom ts (fun _ => Atom.noConfusion), if_pos rfl,
      nextOfAtom_eq_ofAtom (a := .text s) ts (fun h => Atom.noConfusion h)
        (by decide : Category.text ≠ .cellFormat) (fun _ => Atom.noConfusion), ofAtom_text]
  | @ignored _ _ a hfence hformat htext hbreak =>
    have hcell : a.category ≠ .cellFormat := by
      intro hcell
      rw [hcell] at hformat
      exact absurd hformat (by decide)
    have hborder : ∀ side, a ≠ .borderPosition side := by
      rintro side rfl
      cases side <;> exact absurd hformat (by decide)
    have hrow : a = .rowDefaults → row ≠ none := by
      rintro rfl
      exact absurd hformat (by decide)
    rw [next_atom ts hfence, if_pos rfl, nextOfAtom_eq_ofAtom ts hrow hcell hborder]
    unfold ofAtom
    rw [if_neg (by simpa using hformat)]
    split
    · exact absurd rfl (hbreak _)
    · exact absurd rfl (hbreak _)
    · exact absurd rfl (htext _)
    · rfl
  | group contents => rfl

theorem Reads.suffix {row : Option Row} {active : Bool} {t : Token} {ts rest : List Token}
    {action : Action} (h : Reads row active t ts action rest) : rest <:+ ts := by
  cases h with
  | table => exact Row.take_rowDefaults_suffix ts
  | cell h => exact Cell.take_cons_suffix _ _ ts
  | border h => exact Border.absorbAll_suffix _ ts
  | _ => exact List.suffix_rfl

theorem enter_cases (contents : List Token) :
    enter contents = .pass ∨
      enter contents = .scope contents ∧ Group.isIgnorable contents = false := by
  unfold enter
  cases Group.isIgnorable contents with
  | true => exact .inl rfl
  | false => exact .inr ⟨rfl, rfl⟩

theorem ofPlainGroup_cases (contents : List Token) :
    ofPlainGroup contents = .pass ∨ (∃ entries, ofPlainGroup contents = .record entries) ∨
      ofPlainGroup contents = .scope contents ∧ Group.isIgnorable contents = false := by
  unfold ofPlainGroup
  split
  · exact .inr (.inl ⟨_, rfl⟩)
  · exact (enter_cases contents).imp id .inr

theorem ofGroup_cases (contents : List Token) :
    ofGroup contents = .pass ∨ (∃ entries, ofGroup contents = .record entries) ∨
      (∃ p, ofGroup contents = .picture p) ∨
      ofGroup contents = .scope contents ∧ Group.isIgnorable contents = false := by
  have hplain := ofPlainGroup_cases contents
  unfold ofGroup
  split
  case h_5 =>
    split
    · exact .inr (.inl ⟨_, rfl⟩)
    · exact .inl rfl
  case h_6 | h_7 => exact .inr (.inl ⟨_, rfl⟩)
  case h_8 => exact .inr (.inr (.inl ⟨_, rfl⟩))
  case h_9 | h_10 | h_11 | h_12 => exact hplain.imp id (.imp id .inr)
  all_goals exact .inl rfl

theorem reads_group_cases {row : Option Row} {active : Bool} {contents ts rest : List Token}
    {action : Action} (h : Reads row active (.group contents) ts action rest) :
    rest = ts ∧ (action = .pass ∨ (∃ entries, action = .record entries) ∨
      (∃ p, action = .picture p) ∨
      action = .scope contents ∧ Group.isIgnorable contents = false) := by
  cases h with
  | skippedGroup => exact ⟨rfl, (enter_cases contents).imp id (fun h => .inr (.inr h))⟩
  | group => exact ⟨rfl, ofGroup_cases contents⟩

theorem text_of_reads {row : Option Row} {active : Bool} {t : Token} {ts rest : List Token}
    {s : String} (h : Reads row active t ts (.text s) rest) : t = .text s ∧ rest = ts := by
  cases t with
  | group contents =>
    obtain ⟨_, h | ⟨_, h⟩ | ⟨_, h⟩ | ⟨h, _⟩⟩ := reads_group_cases h
    all_goals simp at h
  | atom a =>
    generalize haction : Action.text s = action at h
    cases h with
    | text s' => exact ⟨by rw [Action.text.inj haction], rfl⟩
    | _ => simp at haction

theorem breakMark_ne_tab_of_reads {row : Option Row} {active : Bool} {t : Token}
    {ts rest : List Token} {kind : BreakKind} (h : Reads row active t ts (.breakMark kind) rest) :
    kind ≠ .tab := by
  cases t with
  | group contents =>
    obtain ⟨_, h | ⟨_, h⟩ | ⟨_, h⟩ | ⟨h, _⟩⟩ := reads_group_cases h
    all_goals simp at h
  | atom a =>
    generalize haction : Action.breakMark kind = action at h
    cases h with
    | breakMark hkind =>
      rw [Action.breakMark.inj haction]
      exact hkind
    | _ => simp at haction

theorem scope_of_reads {row : Option Row} {active : Bool} {t : Token} {ts rest inner : List Token}
    (h : Reads row active t ts (.scope inner) rest) :
    t = .group inner ∧ rest = ts ∧ Group.isIgnorable inner = false := by
  cases t with
  | group contents =>
    obtain ⟨hrest, h | ⟨_, h⟩ | ⟨_, h⟩ | ⟨h, hign⟩⟩ := reads_group_cases h
    · simp at h
    · simp at h
    · simp at h
    · rw [Action.scope.inj h]
      exact ⟨rfl, hrest, hign⟩
  | atom a =>
    generalize haction : Action.scope inner = action at h
    cases h with
    | _ => simp at haction

theorem rows_of_reads {row : Option Row} {active : Bool} {t : Token} {ts rest : List Token}
    {table : List Row} (h : Reads row active t ts (.rows table) rest) :
    row = none ∧ active = true ∧ t = .atom .rowDefaults ∧
      table = (Row.take (.atom .rowDefaults :: ts)).1 ∧
      rest = (Row.take (.atom .rowDefaults :: ts)).2 := by
  cases t with
  | group contents =>
    obtain ⟨_, h | ⟨_, h⟩ | ⟨_, h⟩ | ⟨h, _⟩⟩ := reads_group_cases h
    all_goals simp at h
  | atom a =>
    generalize haction : Action.rows table = action at h
    cases h with
    | table => exact ⟨rfl, rfl, rfl, Action.rows.inj haction, rfl⟩
    | _ => simp at haction

theorem fence_of_reads {row : Option Row} {active on : Bool} {t : Token} {ts rest : List Token}
    (h : Reads row active t ts (.activate on) rest) : t = .atom (.htmlRtf (!on)) := by
  cases t with
  | group contents =>
    obtain ⟨_, h | ⟨_, h⟩ | ⟨_, h⟩ | ⟨h, _⟩⟩ := reads_group_cases h
    all_goals simp at h
  | atom a =>
    generalize haction : Action.activate on = action at h
    cases h with
    | fence off => rw [Action.activate.inj haction, Bool.not_not]
    | _ => simp at haction

end Action

namespace Walk

def report (w : Walk) (events : List Event) : Walk := { w with events := w.events ++ events }

@[simp] theorem report_nil (w : Walk) : w.report [] = w := by
  simp [report]

@[simp] theorem report_report (w : Walk) (events events' : List Event) :
    (w.report events).report events' = w.report (events ++ events') := by
  simp only [report, mk.injEq, true_and, ← Array.toList_inj]
  simp

/-- The tabs that are due, as the break that reports them. -/
def dueTabs (w : Walk) : List Event :=
  if w.tabs = 0 then [] else [.breaks w.style .tab w.tabs]

def reports (doc : Document) (w : Walk) : Action → List Event
  | .text s => (w.resolve doc).dueTabs ++ [.text (w.resolve doc).style s]
  | .breakMark kind => [.breaks (w.resolve doc).style kind 1]
  | .picture picture => (w.resolve doc).dueTabs ++ [.picture (w.resolve doc).style picture]
  | .pass | .activate _ | .record _ | .cell _ | .rows _ | .scope _ | .tab => []

theorem events_flushTabs (w : Walk) :
    w.flushTabs.events.toList = w.events.toList ++ w.dueTabs := by
  unfold flushTabs dueTabs
  split <;> simp [emit]

@[simp] theorem style_flushTabs (w : Walk) : w.flushTabs.style = w.style := by
  unfold flushTabs
  split <;> rfl

@[simp] theorem enclosing_flushTabs (w : Walk) : w.flushTabs.enclosing = w.enclosing := by
  unfold flushTabs
  split <;> rfl

@[simp] theorem active_flushTabs (w : Walk) : w.flushTabs.active = w.active := by
  unfold flushTabs
  split <;> rfl

@[simp] theorem tabs_flushTabs (w : Walk) : w.flushTabs.tabs = 0 := by
  unfold flushTabs
  split
  · assumption
  · rfl

theorem events_perform (doc : Document) (w : Walk) (action : Action) :
    (w.perform doc action).events.toList = w.events.toList ++ w.reports doc action := by
  cases action with
  | text s => simp [perform, reports, emit, events_flushTabs, resolve]
  | picture picture => simp [perform, reports, emit, events_flushTabs, resolve]
  | breakMark kind =>
    simp only [perform, reports, reportBreak, resolve, emit]
    split <;> simp [leaveTable]
  | _ => simp [perform, reports]

theorem perform_text_of_resolved {doc : Document} {w : Walk} (htabs : w.tabs = 0)
    (hresolved : w.style.resolveList doc = w.style) (s : String) :
    w.perform doc (.text s) = w.report [.text w.style s] := by
  have hresolve : w.resolve doc = w := by rw [resolve, hresolved]
  have hflush : w.flushTabs = w := if_pos htabs
  unfold perform
  dsimp only
  rw [hresolve, hflush]
  simp [emit, report]

theorem active_perform (doc : Document) (w : Walk) {action : Action}
    (h : ∀ active, action ≠ .activate active) : (w.perform doc action).active = w.active := by
  cases action with
  | activate active => exact absurd rfl (h active)
  | breakMark kind =>
    simp only [perform, reportBreak, resolve, emit]
    split <;> rfl
  | text s => simp [perform, emit, resolve]
  | picture p => simp [perform, emit, resolve]
  | _ => rfl

def Adds (p : List Event → Prop) (w w' : Walk) : Prop :=
  ∃ reported, w'.events.toList = w.events.toList ++ reported ∧ p reported

theorem Adds.trans {p q r : List Event → Prop} {w₁ w₂ w₃ : Walk} (h₁ : Adds p w₁ w₂)
    (h₂ : Adds q w₂ w₃) (h : ∀ es es', p es → q es' → r (es ++ es')) : Adds r w₁ w₃ := by
  obtain ⟨es, hes, hp⟩ := h₁
  obtain ⟨es', hes', hq⟩ := h₂
  exact ⟨es ++ es', by rw [hes', hes, List.append_assoc], h es es' hp hq⟩

/-- The rows of a table one after another, each a scope of its own. -/
inductive ThroughRows (walked : Option Row → List Token → Walk → Walk → Prop) :
    List Row → Walk → Walk → Prop where
  | nil (w : Walk) : ThroughRows walked [] w w
  | cons {r : Row} {rows : List Row} {w inner w' : Walk} :
      walked (some r) r.contents w.enter inner → ThroughRows walked rows (w.leave inner) w' →
      ThroughRows walked (r :: rows) w w'

theorem throughRows_foldl {walked : Option Row → List Token → Walk → Walk → Prop}
    {f : Walk → Row → Walk} (h : ∀ w r, walked (some r) r.contents w.enter (f w r))
    (rows : List Row) (w : Walk) :
    ThroughRows walked rows w (rows.foldl (fun w r => w.leave (f w r)) w) := by
  induction rows generalizing w with
  | nil => exact .nil w
  | cons r rows ih => exact .cons (h w r) (ih (w.leave (f w r)))

section Run

variable {doc : Document} {row : Option Row} {w : Walk} {t : Token} {ts rest : List Token}

theorem run_perform {action : Action} (h : Action.Reads row w.active t ts action rest)
    (hscope : ∀ contents, action ≠ .scope contents) (hrows : ∀ rows, action ≠ .rows rows) :
    run doc row (t :: ts) w = run doc row rest (w.perform doc action) := by
  have hnext := h.next_eq
  rw [run]
  split
  · rename_i heq
    exact absurd (congrArg Prod.fst (hnext.symm.trans heq)) (hscope _)
  · rename_i heq
    exact absurd (congrArg Prod.fst (hnext.symm.trans heq)) (hrows _)
  · rename_i heq
    obtain ⟨rfl, rfl⟩ := Prod.mk.inj (hnext.symm.trans heq)
    rfl

theorem run_scope {contents : List Token}
    (h : Action.Reads row w.active t ts (.scope contents) rest) :
    run doc row (t :: ts) w =
      run doc row rest (w.leave (run doc row contents w.enter)) := by
  rw [run, h.next_eq]

theorem run_table (h : w.active = true) :
    run doc none (.atom .rowDefaults :: ts) w =
      run doc none (Row.take (.atom .rowDefaults :: ts)).2
        ((Row.take (.atom .rowDefaults :: ts)).1.foldl
          (fun w r => w.leave (run doc (some r) r.contents w.enter)) w) := by
  have hreads : Action.Reads none true (.atom .rowDefaults) ts
      (.rows (Row.take (.atom .rowDefaults :: ts)).1) (Row.take (.atom .rowDefaults :: ts)).2 :=
    .table
  have hnext := hreads.next_eq
  rw [← h] at hnext
  rw [run, hnext]

end Run

/-- Induction over a walk. Besides the end of a scope and the actions that open no scope, there
are the group that is entered and the table, whose rows are walked before what follows. -/
theorem run_induction (doc : Document) {motive : Option Row → List Token → Walk → Walk → Prop}
    (nil : ∀ row w, motive row [] w w)
    (perform : ∀ row t ts w action rest w',
      Action.Reads row w.active t ts action rest → (∀ contents, action ≠ .scope contents) →
      (∀ rows, action ≠ .rows rows) → motive row rest (w.perform doc action) w' →
      motive row (t :: ts) w w')
    (scope : ∀ row contents ts w inner w',
      Action.Reads row w.active (.group contents) ts (.scope contents) ts →
      motive row contents w.enter inner → motive row ts (w.leave inner) w' →
      motive row (.group contents :: ts) w w')
    (table : ∀ ts w middle w', w.active = true →
      ThroughRows motive (Row.take (.atom .rowDefaults :: ts)).1 w middle →
      motive none (Row.take (.atom .rowDefaults :: ts)).2 middle w' →
      motive none (.atom .rowDefaults :: ts) w w')
    (row : Option Row) (ts : List Token) (w : Walk) : motive row ts w (run doc row ts w) := by
  -- the recursion of the walk, where the fold over rows has an induction hypothesis for each row
  fun_induction run doc row ts w with
  | case1 row w => exact nil row w
  | case2 row t ts w contents rest hnext ihinner ihrest =>
    have hreads := Action.reads_of_next_eq hnext
    obtain ⟨rfl, rfl, _⟩ := Action.scope_of_reads hreads
    exact scope row contents rest w _ _ hreads ihinner ihrest
  | case3 row t ts w rows rest hnext ihrow ihrest =>
    obtain ⟨rfl, hactive, rfl, rfl, rfl⟩ := Action.rows_of_reads (Action.reads_of_next_eq hnext)
    exact table ts w _ _ hactive (throughRows_foldl ihrow _ w) ihrest
  | case4 row t ts w action rest hscope hrows hnext ih =>
    exact perform row t ts w action rest _ (Action.reads_of_next_eq hnext) hscope hrows ih

end Walk

end RichText
