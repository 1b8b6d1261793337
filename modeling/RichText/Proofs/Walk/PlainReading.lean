import RichText.Event
import RichText.Field
import RichText.Row
import RichText.Cell
set_option autoImplicit false

/-!
Plain readings of a token tree: its texts and its content from left to right, without any regard
to rows, cells and borders. Main statements: `Cell.plainEventsOfList_take`, the run that defines a
cell takes nothing that a plain reading finds, and `Row.delimited_takeFrom`, rows keep the
descriptions of their cells whole.
-/
namespace RichText

namespace Event

def text? : Event → Option String
  | .text _ s => some s
  | _ => none

def isContent : Event → Bool
  | .text _ _ | .picture _ _ => true
  | .breaks _ kind _ => kind ≠ .tab
  | .defaultFont _ | .defaultTabWidth _ | .close => false

def unstyled : Event → Event
  | .text _ s => .text {} s
  | .breaks _ kind count => .breaks {} kind count
  | .picture _ p => .picture {} p
  | event => event

def contents (events : List Event) : List Event := (events.filter isContent).map unstyled

theorem contents_append (first second : List Event) :
    contents (first ++ second) = contents first ++ contents second := by
  simp [contents]

end Event

namespace Token

mutual

def allTexts : Token → List String
  | .atom (.text s) => [s]
  | .atom _ => []
  | .group contents => allTextsOfList contents

def allTextsOfList : List Token → List String
  | [] => []
  | t :: ts => t.allTexts ++ allTextsOfList ts

end

mutual

def lists : Token → List (List Token)
  | .atom _ => []
  | .group contents => contents :: listsOfList contents

def listsOfList : List Token → List (List Token)
  | [] => []
  | t :: ts => t.lists ++ listsOfList ts

end

mutual

/-- What a token says when it is read plainly. A group is read in its place unless it has another
purpose than content; rows, cells and borders mean nothing. -/
def plainEvents : Token → List Event
  | .atom (.text s) => [.text {} s]
  | .atom (.breakMark kind) => if kind = .tab then [] else [.breaks {} kind 1]
  | .atom _ => []
  | .group contents =>
    match Group.destination? contents with
    | some .listTextFallback | some .numberingTextFallback | some .header | some .footer
    | some .fieldInstructions | some .bookmarkStart | some .bookmarkEnd => []
    | some .picture => [.picture {} (Picture.ofGroup contents)]
    | some .fieldResult | some .htmlTag | some (.other _) | none =>
      if Group.describesNumbering contents || Group.isIgnorable contents then []
      else plainEventsOfList contents

def plainEventsOfList : List Token → List Event
  | [] => []
  | t :: ts => t.plainEvents ++ plainEventsOfList ts

end

def isFence : Token → Bool
  | .atom (.htmlRtf _) => true
  | _ => false

/-- A right cell boundary comes next, after cell formatting and border properties at most. -/
def reachesCellEnd : List Token → Bool
  | [] => false
  | t :: ts =>
    t.isRightCellBoundary ||
      ((t.category = .cellFormat || t.category = .borderProperty) && reachesCellEnd ts)

/-- Whatever describes a cell leads to the right boundary of that cell. -/
def cellsEnd : List Token → Bool
  | [] => true
  | t :: ts =>
    (t.category ≠ .cellFormat || t.isRightCellBoundary || reachesCellEnd ts) && cellsEnd ts

theorem allTextsOfList_append (ts us : List Token) :
    allTextsOfList (ts ++ us) = allTextsOfList ts ++ allTextsOfList us := by
  induction ts with
  | nil => rfl
  | cons t ts ih => simp [allTextsOfList, ih]

theorem plainEventsOfList_append (ts us : List Token) :
    plainEventsOfList (ts ++ us) = plainEventsOfList ts ++ plainEventsOfList us := by
  induction ts with
  | nil => rfl
  | cons t ts ih => simp [plainEventsOfList, ih]

theorem listsOfList_append (ts us : List Token) :
    listsOfList (ts ++ us) = listsOfList ts ++ listsOfList us := by
  induction ts with
  | nil => rfl
  | cons t ts ih => simp [listsOfList, ih]

theorem allTextsOfList_suffix {ts us : List Token} (h : ts <:+ us) :
    List.Sublist (allTextsOfList ts) (allTextsOfList us) := by
  obtain ⟨before, rfl⟩ := h
  rw [allTextsOfList_append]
  exact List.sublist_append_right _ _

theorem allTextsOfList_filter (p : Token → Bool) (ts : List Token) :
    List.Sublist (allTextsOfList (ts.filter p)) (allTextsOfList ts) := by
  induction ts with
  | nil => exact List.Sublist.refl _
  | cons t ts ih =>
    rw [List.filter_cons]
    split
    · exact ih.append_left t.allTexts
    · exact ih.trans (List.sublist_append_right _ _)

theorem cellsEnd_suffix {ts us : List Token} (h : ts <:+ us) (hus : cellsEnd us = true) :
    cellsEnd ts = true := by
  obtain ⟨before, rfl⟩ := h
  induction before with
  | nil => exact hus
  | cons t before ih =>
    simp only [List.cons_append, cellsEnd, Bool.and_eq_true] at hus
    exact ih hus.2

theorem not_reachesCellEnd_of_endsRow {t : Token} (h : t.endsRow = true) (ts : List Token) :
    reachesCellEnd (t :: ts) = false := by
  cases t with
  | atom a =>
    obtain rfl : a = .breakMark .row := by simpa [endsRow] using h
    rfl
  | group contents => rfl

theorem reachesCellEnd_of_append {ts : List Token} {t : Token} (h : t.endsRow = true)
    {us : List Token} (hreach : reachesCellEnd (ts ++ t :: us) = true) :
    reachesCellEnd (ts ++ [t]) = true := by
  induction ts with
  | nil =>
    have hnot := not_reachesCellEnd_of_endsRow h us
    simp only [List.nil_append] at hreach
    rw [hnot] at hreach
    exact absurd hreach Bool.false_ne_true
  | cons u ts ih =>
    simp only [List.cons_append, reachesCellEnd, Bool.or_eq_true, Bool.and_eq_true] at hreach ⊢
    exact hreach.imp id (fun hu => ⟨hu.1, ih hu.2⟩)

theorem cellsEnd_of_append {ts : List Token} {t : Token} (h : t.endsRow = true)
    {us : List Token} (hends : cellsEnd (ts ++ t :: us) = true) :
    cellsEnd (ts ++ [t]) = true := by
  induction ts with
  | nil =>
    cases t with
    | atom a =>
      obtain rfl : a = .breakMark .row := by simpa [endsRow] using h
      rfl
    | group contents => rfl
  | cons u ts ih =>
    simp only [List.cons_append, cellsEnd, Bool.and_eq_true] at hends ⊢
    refine ⟨?_, ih hends.2⟩
    have hu := hends.1
    simp only [Bool.or_eq_true] at hu ⊢
    exact hu.imp id (reachesCellEnd_of_append h)

theorem plainEvents_of_ne {a : Atom} (htext : ∀ s, a ≠ .text s)
    (hbreak : ∀ kind, a ≠ .breakMark kind) : (Token.atom a).plainEvents = [] := by
  cases a with
  | text s => exact absurd rfl (htext s)
  | breakMark kind => exact absurd rfl (hbreak kind)
  | _ => rfl

theorem plainEvents_of_category {t : Token}
    (h : t.category = .cellFormat ∨ t.category = .borderProperty) : t.plainEvents = [] := by
  have hgroup : ¬(Category.group = .cellFormat ∨ Category.group = .borderProperty) := by decide
  have htext : ¬(Category.text = .cellFormat ∨ Category.text = .borderProperty) := by decide
  have hbreak : ¬(Category.breakTag = .cellFormat ∨ Category.breakTag = .borderProperty) := by
    decide
  cases t with
  | group contents => exact absurd h hgroup
  | atom a =>
    refine plainEvents_of_ne ?_ ?_
    · rintro s rfl
      exact htext h
    · rintro kind rfl
      exact hbreak h

theorem plainEvents_of_isFormat {a : Atom} (h : a.category.contains .format = true) :
    (Token.atom a).plainEvents = [] := by
  have htext : Category.text.contains .format = false := by decide
  have hbreak : Category.breakTag.contains .format = false := by decide
  refine plainEvents_of_ne ?_ ?_
  · rintro s rfl
    exact Bool.noConfusion (htext.symm.trans h)
  · rintro kind rfl
    exact Bool.noConfusion (hbreak.symm.trans h)

end Token

namespace Border

theorem category_of_absorb? {b b' : Border} {t : Token} (h : b.absorb? t = some b') :
    t.category = .borderProperty := by
  have haccepts : b.side.accepts t = true := by
    rw [← absorb?_isSome, h]
    rfl
  obtain ⟨_, rfl⟩ | ⟨_, rfl⟩ | ⟨_, rfl⟩ | ⟨-, _, rfl⟩ := (b.side.accepts_iff t).1 haccepts
  all_goals rfl

theorem plainEventsOfList_absorbAll (b : Border) (ts : List Token) :
    Token.plainEventsOfList (b.absorbAll ts).2 = Token.plainEventsOfList ts := by
  induction ts generalizing b with
  | nil => rfl
  | cons t ts ih =>
    unfold absorbAll
    split
    · rename_i b' hb
      rw [ih, Token.plainEventsOfList,
        Token.plainEvents_of_category (.inr (category_of_absorb? hb)), List.nil_append]
    · rfl

theorem reachesCellEnd_absorbAll (b : Border) {ts : List Token}
    (h : Token.reachesCellEnd ts = true) : Token.reachesCellEnd (b.absorbAll ts).2 = true := by
  induction ts generalizing b with
  | nil => exact h
  | cons t ts ih =>
    unfold absorbAll
    split
    · rename_i b' hb
      have hcategory := category_of_absorb? hb
      apply ih
      simp only [Token.reachesCellEnd, Bool.or_eq_true, Bool.and_eq_true] at h
      rcases h with hright | hrest
      · rw [Token.category_of_isRightCellBoundary hright] at hcategory
        exact absurd hcategory (by decide)
      · exact hrest.2
    · exact h

end Border

namespace Cell

/-- A run that reaches the end of its cell takes nothing that a plain reading finds. -/
theorem plainEventsOfList_take (cell : Cell) {ts : List Token}
    (h : Token.reachesCellEnd ts = true) :
    Token.plainEventsOfList (cell.take ts).2 = Token.plainEventsOfList ts := by
  fun_induction take cell ts with
  | case1 => rfl
  | case2 cell ts side ih =>
    have hts : Token.reachesCellEnd ts = true := by
      simp [Token.reachesCellEnd, Token.isRightCellBoundary] at h
      exact h.2
    rw [ih (Border.reachesCellEnd_absorbAll _ hts), Border.plainEventsOfList_absorbAll]
    rfl
  | case3 => rfl
  | case4 cell ts t hborder hright ih =>
    have hnot := Token.isRightCellBoundary_eq_false hright
    simp only [Token.reachesCellEnd, hnot, Bool.false_or, Bool.and_eq_true, Bool.or_eq_true,
      decide_eq_true_eq] at h
    rw [ih h.2, Token.plainEventsOfList, Token.plainEvents_of_category h.1, List.nil_append]

end Cell

namespace Token

/-- No list in the tree has a fence, and in each the descriptions of cells lead to their ends. -/
structure Delimited (ts : List Token) : Prop where
  fenceless : ∀ l ∈ ts :: listsOfList ts, ∀ t ∈ l, t.isFence = false
  cellsEnd : ∀ l ∈ ts :: listsOfList ts, cellsEnd l = true

namespace Delimited

theorem suffix {ts us : List Token} (hus : Delimited us) (h : ts <:+ us) : Delimited ts := by
  have hlists : ∀ l ∈ listsOfList ts, l ∈ listsOfList us := by
    obtain ⟨before, rfl⟩ := h
    intro l hl
    rw [listsOfList_append]
    exact List.mem_append_right _ hl
  constructor
  · intro l hl t ht
    rcases List.mem_cons.1 hl with rfl | hl
    · exact hus.fenceless us List.mem_cons_self t (h.subset ht)
    · exact hus.fenceless l (List.mem_cons_of_mem _ (hlists l hl)) t ht
  · intro l hl
    rcases List.mem_cons.1 hl with rfl | hl
    · exact cellsEnd_suffix h (hus.cellsEnd us List.mem_cons_self)
    · exact hus.cellsEnd l (List.mem_cons_of_mem _ (hlists l hl))

theorem tail {t : Token} {ts : List Token} (h : Delimited (t :: ts)) : Delimited ts :=
  h.suffix (List.suffix_cons t ts)

theorem contents {contents ts : List Token} (h : Delimited (.group contents :: ts)) :
    Delimited contents := by
  have hlists : ∀ l ∈ contents :: listsOfList contents, l ∈ listsOfList (.group contents :: ts) := by
    intro l hl
    exact List.mem_append_left _ hl
  constructor
  · intro l hl
    exact h.fenceless l (List.mem_cons_of_mem _ (hlists l hl))
  · intro l hl
    exact h.cellsEnd l (List.mem_cons_of_mem _ (hlists l hl))

theorem reachesCellEnd {a : Atom} {ts : List Token} (h : Delimited (.atom a :: ts))
    (ha : a.category = .cellFormat) : reachesCellEnd (.atom a :: ts) = true := by
  have hends := h.cellsEnd _ List.mem_cons_self
  have hcategory : (Token.atom a).category = .cellFormat := ha
  simp only [Token.cellsEnd, hcategory, ne_eq, not_true_eq_false, decide_false, Bool.false_or,
    Bool.and_eq_true, Bool.or_eq_true] at hends
  simp only [Token.reachesCellEnd, hcategory, decide_true, Bool.true_or, Bool.true_and,
    Bool.or_eq_true]
  exact hends.1

end Delimited

theorem reachesCellEnd_filter {p : Token → Bool}
    (hp : ∀ t : Token, t.category = .cellFormat ∨ t.category = .borderProperty → p t = true)
    {ts : List Token} (h : reachesCellEnd ts = true) : reachesCellEnd (ts.filter p) = true := by
  induction ts with
  | nil => exact h
  | cons t ts ih =>
    simp only [reachesCellEnd, Bool.or_eq_true, Bool.and_eq_true, decide_eq_true_eq] at h
    have hkept : p t = true := by
      rcases h with hright | hrest
      · exact hp t (.inl (category_of_isRightCellBoundary hright))
      · exact hp t hrest.1
    rw [List.filter_cons_of_pos hkept]
    simp only [reachesCellEnd, Bool.or_eq_true, Bool.and_eq_true, decide_eq_true_eq]
    exact h.imp id (fun hrest => ⟨hrest.1, ih hrest.2⟩)

theorem cellsEnd_filter {p : Token → Bool}
    (hp : ∀ t : Token, t.category = .cellFormat ∨ t.category = .borderProperty → p t = true)
    {ts : List Token} (h : cellsEnd ts = true) : cellsEnd (ts.filter p) = true := by
  induction ts with
  | nil => rfl
  | cons t ts ih =>
    simp only [cellsEnd, Bool.and_eq_true, Bool.or_eq_true] at h
    rw [List.filter_cons]
    split
    · simp only [cellsEnd, Bool.and_eq_true, Bool.or_eq_true]
      exact ⟨h.1.imp id (reachesCellEnd_filter hp), ih h.2⟩
    · exact ih h.2

theorem mem_listsOfList_filter {p : Token → Bool} {ts l : List Token}
    (h : l ∈ listsOfList (ts.filter p)) : l ∈ listsOfList ts := by
  induction ts with
  | nil => exact h
  | cons t ts ih =>
    rw [List.filter_cons] at h
    split at h
    · rcases List.mem_append.1 h with h | h
      · exact List.mem_append_left _ h
      · exact List.mem_append_right _ (ih h)
    · exact List.mem_append_right _ (ih h)

theorem Delimited.filter {p : Token → Bool}
    (hp : ∀ t : Token, t.category = .cellFormat ∨ t.category = .borderProperty → p t = true)
    {ts : List Token} (h : Delimited ts) : Delimited (ts.filter p) := by
  constructor
  · intro l hl t ht
    rcases List.mem_cons.1 hl with rfl | hl
    · exact h.fenceless ts List.mem_cons_self t (List.mem_filter.1 ht).1
    · exact h.fenceless l (List.mem_cons_of_mem _ (mem_listsOfList_filter hl)) t ht
  · intro l hl
    rcases List.mem_cons.1 hl with rfl | hl
    · exact cellsEnd_filter hp (h.cellsEnd ts List.mem_cons_self)
    · exact h.cellsEnd l (List.mem_cons_of_mem _ (mem_listsOfList_filter hl))

end Token

namespace Row

theorem splitAfterEnd_end (ts : List Token) :
    (splitAfterEnd ts).2 = [] ∨
      ∃ front t, (splitAfterEnd ts).1 = front ++ [t] ∧ t.endsRow = true := by
  induction ts with
  | nil => exact .inl rfl
  | cons t ts ih =>
    unfold splitAfterEnd
    split
    · rename_i hends
      exact .inr ⟨[], t, rfl, hends⟩
    · rcases ih with hrest | ⟨front, u, hfront, hends⟩
      · exact .inl hrest
      · exact .inr ⟨t :: front, u, by simp [hfront], hends⟩

theorem takeContents?_end {ts contents rest : List Token}
    (h : takeContents? ts = some (contents, rest)) :
    rest = [] ∨ ∃ front t, contents = front ++ [t] ∧ t.endsRow = true := by
  unfold takeContents? at h
  split at h
  · rename_i after _
    obtain ⟨rfl, rfl⟩ := Prod.mk.inj (Option.some.inj h)
    rcases splitAfterEnd_end after with hrest | ⟨front, t, hfront, hends⟩
    · exact .inl hrest
    · exact .inr ⟨ts.takeWhile isLead ++ .atom .rowDefaults :: front, t, by simp [hfront], hends⟩
  · simp at h

theorem delimited_of_takeContents? {ts contents rest : List Token}
    (h : takeContents? ts = some (contents, rest)) (hts : Token.Delimited ts) :
    Token.Delimited contents ∧ Token.Delimited rest := by
  have happend := takeContents?_append h
  have hrest : Token.Delimited rest := hts.suffix ⟨contents, happend⟩
  refine ⟨⟨?_, ?_⟩, hrest⟩
  · intro l hl t ht
    rcases List.mem_cons.1 hl with rfl | hl
    · refine hts.fenceless ts List.mem_cons_self t ?_
      rw [← happend]
      exact List.mem_append_left _ ht
    · refine hts.fenceless l (List.mem_cons_of_mem _ ?_) t ht
      rw [← happend, Token.listsOfList_append]
      exact List.mem_append_left _ hl
  · intro l hl
    rcases List.mem_cons.1 hl with rfl | hl
    · have hends := hts.cellsEnd ts List.mem_cons_self
      rw [← happend] at hends
      rcases takeContents?_end h with rfl | ⟨front, t, rfl, hend⟩
      · rwa [List.append_nil] at hends
      · rw [List.append_assoc] at hends
        exact Token.cellsEnd_of_append hend hends
    · refine hts.cellsEnd l (List.mem_cons_of_mem _ ?_)
      rw [← happend, Token.listsOfList_append]
      exact List.mem_append_left _ hl

theorem delimited_takeFrom (index : Nat) {ts : List Token} (hts : Token.Delimited ts) :
    (∀ r ∈ (takeFrom index ts).1, Token.Delimited r.contents) ∧
      Token.Delimited (takeFrom index ts).2 := by
  fun_induction takeFrom index ts with
  | case1 index ts contents rest h rows rest' hrec ih =>
    obtain ⟨hcontents, hrest⟩ := delimited_of_takeContents? h hts
    have hrows := ih hrest
    rw [hrec] at hrows
    refine ⟨?_, hrows.2⟩
    intro r hr
    rcases List.mem_cons.1 hr with rfl | hr
    · exact hcontents
    · exact hrows.1 r hr
  | case2 => exact ⟨by simp, hts⟩

end Row

end RichText
