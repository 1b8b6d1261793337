import RichText.Proofs.Walk.Induction
import RichText.Proofs.Walk.PlainReading
set_option autoImplicit false

/-!
Tabs: which tabs are reported in texts, breaks and groups of these. A scope counts its tabs by
itself, so a group neither sees the tabs before it nor leaves its own to what follows. Main
statement: `events_flattened_iff`.
-/
namespace RichText

def Atom.tabsAfter (n : Nat) : Atom → Nat
  | .breakMark .tab => n + 1
  | .breakMark _ | .text _ => 0
  | _ => n

namespace Token

inductive Plain : List Token → Prop where
  | nil : Plain []
  | text (s : String) {ts : List Token} : Plain ts → Plain (.text s :: ts)
  | breakMark (kind : BreakKind) {ts : List Token} :
      Plain ts → Plain (.atom (.breakMark kind) :: ts)
  | group {contents ts : List Token} : Plain contents → Plain ts → Plain (.group contents :: ts)

mutual

/-- The tokens with their groups dissolved. -/
def flatten : Token → List Token
  | .atom a => [.atom a]
  | .group contents => flattenList contents

def flattenList : List Token → List Token
  | [] => []
  | t :: ts => t.flatten ++ flattenList ts

end

/-- The tabs due after a token in the scope that it stands in. -/
def tabsAfter (n : Nat) : Token → Nat
  | .atom a => a.tabsAfter n
  | .group _ => n

mutual

/-- The tabs due after a token in the order of the document. -/
def pendingTabs (m : Nat) : Token → Nat
  | .atom a => a.tabsAfter m
  | .group contents => pendingTabsOfList m contents

def pendingTabsOfList (m : Nat) : List Token → Nat
  | [] => m
  | t :: ts => pendingTabsOfList (t.pendingTabs m) ts

end

mutual

/-- Texts and breaks, each with the tabs due before it if every scope counts its own; `n` are due
in this one at first. -/
def tabbed (n : Nat) : Token → List (Nat × Event)
  | .atom (.text s) => [(n, .text {} s)]
  | .atom (.breakMark kind) => if kind = .tab then [] else [(0, .breaks {} kind 1)]
  | .atom _ => []
  | .group contents => tabbedList 0 contents

def tabbedList (n : Nat) : List Token → List (Nat × Event)
  | [] => []
  | t :: ts => t.tabbed n ++ tabbedList (t.tabsAfter n) ts

end

mutual

/-- At every text as many tabs are due in its scope, where `n` are due at first, as are due in the
document, where `m` are. -/
def tabsAgree (n m : Nat) : Token → Bool
  | .atom (.text _) => n = m
  | .atom _ => true
  | .group contents => tabsAgreeInList 0 m contents

def tabsAgreeInList (n m : Nat) : List Token → Bool
  | [] => true
  | t :: ts => t.tabsAgree n m && tabsAgreeInList (t.tabsAfter n) (t.pendingTabs m) ts

end

theorem Plain.of_mem {ts : List Token} (h : Plain ts) {t : Token} (ht : t ∈ ts) :
    (∃ s, t = .text s) ∨ (∃ kind, t = .atom (.breakMark kind)) ∨
      ∃ contents, t = .group contents ∧ Plain contents := by
  induction h with
  | nil => simp at ht
  | text s _ ih => exact (List.mem_cons.1 ht).elim (fun heq => .inl ⟨s, heq⟩) ih
  | breakMark kind _ ih =>
    exact (List.mem_cons.1 ht).elim (fun heq => .inr (.inl ⟨kind, heq⟩)) ih
  | @group contents _ hcontents _ _ ih =>
    exact (List.mem_cons.1 ht).elim (fun heq => .inr (.inr ⟨contents, heq, hcontents⟩)) ih

theorem Plain.destination?_eq_none {ts : List Token} (h : Plain ts) :
    Group.destination? ts = none := by
  cases h <;> rfl

theorem Plain.isIgnorable_eq_false {ts : List Token} (h : Plain ts) :
    Group.isIgnorable ts = false := by
  cases h <;> rfl

theorem Plain.flattenList {ts : List Token} (h : Plain ts) {us : List Token} (hus : Plain us) :
    Plain (flattenList ts ++ us) := by
  induction h generalizing us with
  | nil => exact hus
  | text s _ ih => exact .text s (ih hus)
  | breakMark kind _ ih => exact .breakMark kind (ih hus)
  | group _ _ ihcontents ih =>
    rw [Token.flattenList, Token.flatten, List.append_assoc]
    exact ihcontents (ih hus)

theorem tabbedList_flattenList_append {ts : List Token} (h : Plain ts) (m : Nat)
    (us : List Token) :
    tabbedList m (flattenList ts ++ us) =
      tabbedList m (flattenList ts) ++ tabbedList (pendingTabsOfList m ts) us := by
  induction h generalizing m us with
  | nil => rfl
  | text s _ ih =>
    simp only [flattenList, flatten, List.cons_append, List.nil_append, tabbedList,
      pendingTabsOfList, List.append_assoc]
    rw [ih]
    rfl
  | breakMark kind _ ih =>
    simp only [flattenList, flatten, List.cons_append, List.nil_append, tabbedList,
      pendingTabsOfList, List.append_assoc]
    rw [ih]
    rfl
  | group _ _ ihcontents ih =>
    simp only [flattenList, flatten, pendingTabsOfList, List.append_assoc]
    rw [ihcontents, ih, ihcontents, List.append_assoc]
    rfl

theorem length_tabbedList_flattenList {ts : List Token} (h : Plain ts) (n m : Nat) :
    (tabbedList n ts).length = (tabbedList m (flattenList ts)).length := by
  induction h generalizing n m with
  | nil => rfl
  | text s _ ih =>
    simp only [flattenList, flatten, List.cons_append, List.nil_append, tabbedList,
      List.length_append]
    rw [ih]
    rfl
  | breakMark kind _ ih =>
    simp only [flattenList, flatten, List.cons_append, List.nil_append, tabbedList,
      List.length_append]
    rw [ih]
    rfl
  | @group contents ts hcontents _ ihcontents ih =>
    simp only [flattenList, flatten]
    rw [tabbedList_flattenList_append hcontents, tabbedList, tabbed, List.length_append,
      List.length_append, ihcontents 0 m, ih _ (pendingTabsOfList m contents)]

/-- The tabs due before each text are the same in the scopes and in the document exactly if they
agree all along. -/
theorem tabbedList_flattenList_iff {ts : List Token} (h : Plain ts) (n m : Nat) :
    tabbedList n ts = tabbedList m (flattenList ts) ↔ tabsAgreeInList n m ts = true := by
  induction h generalizing n m with
  | nil => simp [tabbedList, flattenList, tabsAgreeInList]
  | @text s ts _ ih =>
    have htail := ih 0 0
    simp only [flattenList, flatten, List.cons_append, List.nil_append, tabbedList, tabbed,
      tabsAfter, Atom.tabsAfter, tabsAgreeInList, tabsAgree, pendingTabs, List.cons.injEq,
      Prod.mk.injEq, and_true, Bool.and_eq_true, decide_eq_true_eq]
    rw [htail]
  | @breakMark kind ts _ ih =>
    have htail := ih (Atom.tabsAfter n (.breakMark kind)) (Atom.tabsAfter m (.breakMark kind))
    simp only [flattenList, flatten, List.cons_append, List.nil_append, tabbedList, tabbed,
      tabsAfter, tabsAgreeInList, tabsAgree, pendingTabs, Bool.true_and]
    rw [← htail, List.append_cancel_left_eq]
  | @group contents ts hcontents _ ihcontents ih =>
    have hinside := ihcontents 0 m
    have htail := ih n (pendingTabsOfList m contents)
    have hlength := length_tabbedList_flattenList hcontents 0 m
    simp only [flattenList, flatten, tabbedList, tabbed, tabsAfter, tabsAgreeInList, tabsAgree,
      pendingTabs, Bool.and_eq_true]
    rw [tabbedList_flattenList_append hcontents, ← hinside, ← htail]
    constructor
    · intro heq
      exact List.append_inj heq hlength
    · rintro ⟨hfirst, hrest⟩
      rw [hfirst, hrest]

end Token

namespace Event

def withTabs : List (Nat × Event) → List Event
  | [] => []
  | (n, event) :: items =>
    (if n = 0 then [] else [.breaks {} .tab n]) ++ event :: withTabs items

theorem withTabs_append (first second : List (Nat × Event)) :
    withTabs (first ++ second) = withTabs first ++ withTabs second := by
  induction first with
  | nil => rfl
  | cons item items ih => simp [withTabs, ih]

theorem withTabs_inj {items items' : List (Nat × Event)}
    (hitems : ∀ item ∈ items, item.2.isContent = true)
    (hitems' : ∀ item ∈ items', item.2.isContent = true)
    (h : withTabs items = withTabs items') : items = items' := by
  have htab : ∀ n, (Event.breaks {} .tab n).isContent = false := fun _ => rfl
  induction items generalizing items' with
  | nil =>
    cases items' with
    | nil => rfl
    | cons item' items' =>
      simp [withTabs] at h
  | cons item items ih =>
    cases items' with
    | nil => simp [withTabs] at h
    | cons item' items' =>
      obtain ⟨n, event⟩ := item
      obtain ⟨n', event'⟩ := item'
      have hevent : event.isContent = true := hitems _ List.mem_cons_self
      have hevent' : event'.isContent = true := hitems' _ List.mem_cons_self
      have hrest := @ih items' (fun item hitem => hitems item (List.mem_cons_of_mem _ hitem))
        (fun item hitem => hitems' item (List.mem_cons_of_mem _ hitem))
      simp only [withTabs] at h
      by_cases hn : n = 0
      · by_cases hn' : n' = 0
        · simp only [hn, hn', if_true, List.nil_append, List.cons.injEq] at h ⊢
          exact ⟨by rw [h.1], hrest h.2⟩
        · simp only [hn, hn', if_true, if_false, List.nil_append, List.cons_append,
            List.cons.injEq] at h
          rw [h.1, htab] at hevent
          exact Bool.noConfusion hevent
      · by_cases hn' : n' = 0
        · simp only [hn, hn', if_true, if_false, List.nil_append, List.cons_append,
            List.cons.injEq] at h
          rw [← h.1, htab] at hevent'
          exact Bool.noConfusion hevent'
        · simp only [hn, hn', if_false, List.nil_append, List.cons_append, List.cons.injEq,
            breaks.injEq, true_and] at h
          rw [h.1, h.2.1, hrest h.2.2]

end Event

namespace Action

variable {row : Option Row} {ts rest : List Token} {action : Action}

theorem eq_of_reads_text {s : String} (h : Reads row true (.text s) ts action rest) :
    action = .text s ∧ rest = ts := by
  have hcategory : Category.text ≠ .cellFormat := by decide
  have hcontains : Category.text.contains .format = false := by decide
  cases h with
  | cell hcell => exact absurd hcell hcategory
  | format hformat hcell hborder hrow => exact Bool.noConfusion (hcontains.symm.trans hformat)
  | text s => exact ⟨rfl, rfl⟩
  | ignored hfence hformat htext hbreak => exact absurd rfl (htext s)

theorem eq_of_reads_breakMark {kind : BreakKind}
    (h : Reads row true (.atom (.breakMark kind)) ts action rest) :
    action = (if kind = .tab then .tab else .breakMark kind) ∧ rest = ts := by
  have hcategory : Category.breakTag ≠ .cellFormat := by decide
  have hcontains : Category.breakTag.contains .format = false := by decide
  cases h with
  | cell hcell => exact absurd hcell hcategory
  | format hformat hcell hborder hrow => exact Bool.noConfusion (hcontains.symm.trans hformat)
  | tab => exact ⟨rfl, rfl⟩
  | breakMark hkind => exact ⟨by rw [if_neg hkind], rfl⟩
  | ignored hfence hformat htext hbreak => exact absurd rfl (hbreak kind)

theorem ofGroup_of_plain {contents : List Token} (h : Token.Plain contents) :
    ofGroup contents = .scope contents := by
  have hdestination := h.destination?_eq_none
  have hnumbering : Group.describesNumbering contents = false := by
    rw [Group.describesNumbering, List.any_eq_false]
    intro t ht
    obtain ⟨s, rfl⟩ | ⟨kind, rfl⟩ | ⟨inner, rfl, _⟩ := h.of_mem ht
    · simp
    · simp
    · simp
  have hignorable := h.isIgnorable_eq_false
  unfold ofGroup
  rw [hdestination]
  simp only [ofPlainGroup, enter, hnumbering, hignorable, Bool.false_eq_true, if_false]

end Action

namespace Walk

theorem unstyled_dueTabs (w : Walk) :
    w.dueTabs.map Event.unstyled = if w.tabs = 0 then [] else [.breaks {} .tab w.tabs] := by
  unfold dueTabs
  split <;> rfl

/-- The walk reported the texts and breaks with the tabs that its scopes count, if tokens count
where it starts. -/
def ReadsTabs (_ : Option Row) (ts : List Token) (w w' : Walk) : Prop :=
  w.active = true → Token.Plain ts →
    Adds (fun reported =>
      reported.map Event.unstyled = Event.withTabs (Token.tabbedList w.tabs ts)) w w'

theorem readsTabs_perform (doc : Document) {row : Option Row} {t : Token} {ts rest : List Token}
    {action : Action} (w : Walk) (hreads : Action.Reads row true t ts action rest)
    (hscope : ∀ contents, action ≠ .scope contents) (hplain : Token.Plain (t :: ts)) :
    rest = ts ∧ Token.Plain ts ∧ (w.perform doc action).active = w.active ∧
      (w.perform doc action).tabs = t.tabsAfter w.tabs ∧
      (w.reports doc action).map Event.unstyled = Event.withTabs (t.tabbed w.tabs) := by
  cases hplain with
  | text s hts =>
    obtain ⟨rfl, rfl⟩ := Action.eq_of_reads_text hreads
    refine ⟨rfl, hts, active_perform doc w (by simp), ?_, ?_⟩
    · simp [perform, emit, Token.tabsAfter, Atom.tabsAfter]
    · rw [reports, List.map_append, unstyled_dueTabs]
      rfl
  | breakMark kind hts =>
    obtain ⟨rfl, rfl⟩ := Action.eq_of_reads_breakMark hreads
    by_cases hkind : kind = .tab
    · subst hkind
      exact ⟨rfl, hts, rfl, rfl, rfl⟩
    · rw [if_neg hkind]
      refine ⟨rfl, hts, active_perform doc w (by simp), ?_, ?_⟩
      · cases kind with
        | tab => exact absurd rfl hkind
        | _ => rfl
      · simp [reports, Token.tabbed, hkind, Event.withTabs, Event.unstyled]
  | group hcontents hts =>
    cases hreads with
    | group => exact absurd (Action.ofGroup_of_plain hcontents) (hscope _)

theorem readsTabs_run (doc : Document) (row : Option Row) (ts : List Token) (w : Walk) :
    ReadsTabs row ts w (run doc row ts w) := by
  refine run_induction doc (motive := ReadsTabs) ?nil ?perform ?scope ?table row ts w
  case nil =>
    intro _ w _ _
    exact ⟨[], by simp, rfl⟩
  case perform =>
    intro row t ts w action rest w' hreads hscope _ ih hactive hplain
    rw [hactive] at hreads
    obtain ⟨rfl, hts, hkept, htabs, hreports⟩ := readsTabs_perform doc w hreads hscope hplain
    have hrest := ih (hkept.trans hactive) hts
    rw [htabs] at hrest
    have hstep : Adds (fun reported =>
        reported.map Event.unstyled = Event.withTabs (t.tabbed w.tabs)) w
        (w.perform doc action) := ⟨_, events_perform doc w action, hreports⟩
    refine hstep.trans hrest ?_
    intro es es' hes hes'
    rw [List.map_append, hes, hes', ← Event.withTabs_append]
    rfl
  case scope =>
    intro row contents ts w inner w' _ hinner hrest hactive hplain
    cases hplain with
    | group hcontents hts =>
      have hinside : Adds (fun reported =>
          reported.map Event.unstyled = Event.withTabs (Token.tabbedList 0 contents)) w
          (w.leave inner) := hinner hactive hcontents
      refine hinside.trans (hrest hactive hts) ?_
      intro es es' hes hes'
      rw [List.map_append, hes, hes', ← Event.withTabs_append]
      rfl
  case table =>
    intro ts w middle w' _ _ _ _ hplain
    cases hplain

end Walk

namespace Document

def flattened (doc : Document) : Document :=
  { doc with contents := Token.flattenList doc.contents }

theorem defaults_of_plain {doc : Document} (h : Token.Plain doc.contents) :
    doc.contents.filterMap doc.default? = [] := by
  rw [List.filterMap_eq_nil_iff]
  intro t ht
  obtain ⟨s, rfl⟩ | ⟨kind, rfl⟩ | ⟨inner, rfl, _⟩ := h.of_mem ht
  · rfl
  · rfl
  · rfl

theorem body_of_plain {doc : Document} (h : Token.Plain doc.contents) :
    doc.body = doc.contents := by
  have htext : Category.text.contains .headerTag = false := by decide
  have hbreak : Category.breakTag.contains .headerTag = false := by decide
  rw [body, List.filter_eq_self]
  intro t ht
  obtain ⟨s, rfl⟩ | ⟨kind, rfl⟩ | ⟨inner, rfl, hinner⟩ := h.of_mem ht
  · simp [isBody, Atom.category, htext]
  · simp [isBody, Atom.category, hbreak]
  · simp [isBody, Group.isHeader, hinner.destination?_eq_none]

theorem unstyled_events (doc : Document) (h : Token.Plain doc.contents) :
    doc.events.map Event.unstyled =
      Event.withTabs (Token.tabbedList 0 doc.contents) ++ [.close] := by
  obtain ⟨reported, hevents, htabs⟩ := Walk.readsTabs_run doc none doc.contents {} rfl h
  have hwalk : doc.walk.events.toList.map Event.unstyled =
      Event.withTabs (Token.tabbedList 0 doc.contents) := by
    rw [walk, body_of_plain h, h.isIgnorable_eq_false, if_neg Bool.false_ne_true, hevents]
    exact htabs
  rw [events, defaults_of_plain h, List.nil_append, List.map_append, hwalk]
  rfl

theorem isContent_of_mem_tabbedList {ts : List Token} (h : Token.Plain ts) (n : Nat) :
    ∀ item ∈ Token.tabbedList n ts, item.2.isContent = true := by
  induction h generalizing n with
  | nil => simp [Token.tabbedList]
  | text s _ ih =>
    intro item hitem
    rcases List.mem_append.1 hitem with hhead | htail
    · rw [List.mem_singleton.1 hhead]
      rfl
    · exact ih _ item htail
  | breakMark kind _ ih =>
    intro item hitem
    rcases List.mem_append.1 hitem with hhead | htail
    · rw [Token.tabbed] at hhead
      split at hhead
      · simp at hhead
      · rename_i hkind
        rw [List.mem_singleton.1 hhead]
        simp [Event.isContent, hkind]
    · exact ih _ item htail
  | group _ _ ihcontents ih =>
    intro item hitem
    rcases List.mem_append.1 hitem with hhead | htail
    · exact ihcontents 0 item hhead
    · exact ih _ item htail

/-- In a document of texts, breaks and groups of these, what is reported once the groups are
dissolved has before every text the tabs since the last text or break, and with the groups as they
are it is the same exactly if the tabs agree all along. -/
theorem events_flattened_iff (doc : Document) (h : Token.Plain doc.contents) :
    doc.flattened.events.map Event.unstyled =
        Event.withTabs (Token.tabbedList 0 (Token.flattenList doc.contents)) ++ [.close] ∧
      (doc.events.map Event.unstyled = doc.flattened.events.map Event.unstyled ↔
        Token.tabsAgreeInList 0 0 doc.contents = true) := by
  have hflat : Token.Plain doc.flattened.contents := by
    have happend := h.flattenList .nil
    rwa [List.append_nil] at happend
  have hevents := unstyled_events doc h
  have hflattened := unstyled_events doc.flattened hflat
  refine ⟨hflattened, ?_⟩
  rw [hevents, hflattened, List.append_cancel_right_eq, ← Token.tabbedList_flattenList_iff h 0 0]
  constructor
  · intro heq
    exact Event.withTabs_inj (isContent_of_mem_tabbedList h 0)
      (isContent_of_mem_tabbedList hflat 0) heq
  · intro heq
    rw [heq]
    rfl

def tabsInScope : Document where
  contents := [.text "a", .group [.atom (.breakMark .tab), .atom (.breakMark .tab), .text "b"],
    .atom (.breakMark .paragraph), .group [.group [.text "c"]]]

theorem events_flattened_tabsInScope :
    Token.Plain tabsInScope.contents ∧
      tabsInScope.events.map Event.unstyled = tabsInScope.flattened.events.map Event.unstyled := by
  have hplain : Token.Plain tabsInScope.contents :=
    .text "a" (.group (.breakMark .tab (.breakMark .tab (.text "b" .nil)))
      (.breakMark .paragraph (.group (.group (.text "c" .nil) .nil) .nil)))
  exact ⟨hplain, (events_flattened_iff tabsInScope hplain).2.2 (by decide)⟩

def tabBeforeGroup : Document where
  contents := [.atom (.breakMark .tab), .group [.text "a"], .text "b"]

/-- The tab is reported after the text of the group. -/
theorem events_tabBeforeGroup :
    tabBeforeGroup.events.map Event.unstyled =
        [.text {} "a", .breaks {} .tab 1, .text {} "b", .close] ∧
      tabBeforeGroup.flattened.events.map Event.unstyled =
        [.breaks {} .tab 1, .text {} "a", .text {} "b", .close] ∧
      tabBeforeGroup.events.map Event.unstyled ≠
        tabBeforeGroup.flattened.events.map Event.unstyled := by
  have hplain : Token.Plain tabBeforeGroup.contents :=
    .breakMark .tab (.group (.text "a" .nil) (.text "b" .nil))
  have hflat : Token.Plain tabBeforeGroup.flattened.contents :=
    .breakMark .tab (.text "a" (.text "b" .nil))
  have hevents := unstyled_events tabBeforeGroup hplain
  have hflattened := unstyled_events tabBeforeGroup.flattened hflat
  refine ⟨hevents, hflattened, ?_⟩
  rw [hevents, hflattened]
  decide

end Document

end RichText
