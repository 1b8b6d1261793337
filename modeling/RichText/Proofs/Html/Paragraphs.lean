import Mathlib.Data.List.DropRight
import Mathlib.Data.List.Forall2
import Mathlib.Data.List.SplitBy
import RichText.Proofs.Html.Conformance
import RichText.Proofs.Html.Fragment
set_option autoImplicit false

/-!
Paragraphs outside of tables. A paragraph is one block, opened for the first thing to be seen in
it, at the latest for its end; the list of that block is opened, kept or closed just before the
block. Main statement: `html_ofParagraphs`.
-/
namespace RichText

def Event.fillsParagraph : Event → Bool
  | .text style _ | .picture style _ => !style.isInTable
  | .breaks style kind _ => !style.isInTable && kind ∈ [BreakKind.tab, .line]
  | .defaultFont _ | .defaultTabWidth _ | .close => false

namespace Html

/-- A paragraph outside of any table: its content and the style of its end. -/
structure Paragraph where
  content : List Event
  style : Style
  count : Nat := 1
  fills : ∀ e ∈ content, e.fillsParagraph = true
  notInTable : style.isInTable = false

def Paragraph.events (p : Paragraph) : List Event :=
  p.content ++ [.breaks p.style .paragraph p.count]

theorem close_notMem_events (paragraphs : List Paragraph) :
    Event.close ∉ paragraphs.flatMap Paragraph.events := by
  intro hmem
  obtain ⟨p, -, hp⟩ := List.mem_flatMap.1 hmem
  obtain hp | hp := List.mem_append.1 hp
  · exact Bool.noConfusion (p.fills _ hp)
  · cases List.mem_singleton.1 hp

/-! Blocks and lists -/

namespace ListMembership

def opening (list : ListMembership) : Markup :=
  .opening list.element (styleAttribute [⟨.listStyleType, listMarker list.numbering⟩])

def closing (list : ListMembership) : Markup := .closing list.element

end ListMembership

def listOpening (list : Option ListMembership) : List Markup :=
  (list.map ListMembership.opening).toList

def listClosing (list : Option ListMembership) : List Markup :=
  (list.map ListMembership.closing).toList

def listSwitch (list list' : Option ListMembership) : List Markup :=
  if list = list' then [] else listClosing list ++ listOpening list'

theorem listSwitch_none (list : Option ListMembership) :
    listSwitch list none = listClosing list := by
  cases list with
  | none => rfl
  | some list => exact List.append_nil _

def Block.ofList (list : Option ListMembership) : Block :=
  if list.isSome then .listItem else .paragraph

namespace Fragment

def list (fragment : Fragment) : Option ListMembership := ListMembership.ofStyle? fragment.style

def block (doc : Document) (fragment : Fragment) : List Markup :=
  let element := (Block.ofList fragment.list).element
  .opening element (styleAttribute (paragraphCss doc fragment.style)) :: fragment.content ++
    [.closing element]

def run (doc : Document) (blocks : List Fragment) : List Markup :=
  let list := blocks.head?.bind Fragment.list
  listOpening list ++ blocks.flatMap (block doc) ++ listClosing list

/-- The longest runs of blocks of one list. -/
def runs (blocks : List Fragment) : List (List Fragment) :=
  blocks.splitBy fun block block' => block.list = block'.list

/-- The fragment is the block of a paragraph: it is opened for the first event that writes, and
holds a line end if that is the end of the paragraph. -/
structure IsBlockOf (settings : RenderSettings) (p : Paragraph) (fragment : Fragment) : Prop where
  style_eq : (p.events.find? (Event.writes settings)).bind Event.style? = some fragment.style
  shows : fragment.Shows Element.isInline p.events
  content_of_empty : (∀ e ∈ p.content, e.writes settings = false) →
    fragment.content = [.void .br []]

/-! Blocks of paragraphs -/

section IsBlockOf

variable {settings : RenderSettings} {p : Paragraph}

theorem visibleText_events (p : Paragraph) :
    p.events.flatMap Event.visibleText = p.content.flatMap Event.visibleText := by
  simp [Paragraph.events, Event.visibleText]

theorem isBlockOf_empty (h : ∀ e ∈ p.content, e.writes settings = false) :
    IsBlockOf settings p ⟨p.style, [.void .br []]⟩ := by
  refine ⟨?_, ⟨?_, ?_⟩, fun _ => rfl⟩
  · have hfind : p.content.find? (Event.writes settings) = none := by simpa using h
    simp [Paragraph.events, List.find?_append, hfind, Event.writes, Event.style?]
  · simp [Markup.isWithin, Markup.element?]
  · rw [visibleText_events, Page.flatMap_visibleText_of_not_writes h]
    rfl

theorem isBlockOf_of_find? {e : Event} {style : Style} {pieces : List Markup}
    (hfind : p.content.find? (Event.writes settings) = some e) (hstyle : e.style? = some style)
    (hwithin : ∀ piece ∈ pieces, piece.isWithin Element.isInline = true)
    (htext : pieces.flatMap Markup.visibleText = p.content.flatMap Event.visibleText) :
    IsBlockOf settings p ⟨style, pieces⟩ := by
  refine ⟨?_, ⟨hwithin, htext.trans (visibleText_events p).symm⟩, fun hquiet => ?_⟩
  · rw [Paragraph.events, List.find?_append, hfind]
    exact hstyle
  · have hwrites := List.find?_some hfind
    rw [hquiet e (List.mem_of_find?_eq_some hfind)] at hwrites
    exact absurd hwrites Bool.false_ne_true

end IsBlockOf

/-! Runs -/

theorem runs_of_list {blocks : List Fragment} {list : Option ListMembership} (hne : blocks ≠ [])
    (h : ∀ block ∈ blocks, block.list = list) : runs blocks = [blocks] := by
  refine List.splitBy_of_isChain hne (List.Pairwise.isChain ?_)
  refine List.pairwise_of_forall_mem_list fun block hblock block' hblock' => ?_
  rw [h block hblock, h block' hblock', decide_eq_true rfl]

theorem run_of_list (doc : Document) {blocks : List Fragment} {list : Option ListMembership}
    (hne : blocks ≠ []) (h : ∀ block ∈ blocks, block.list = list) :
    run doc blocks = listOpening list ++ blocks.flatMap (block doc) ++ listClosing list := by
  obtain ⟨first, rest, rfl⟩ := List.exists_cons_of_ne_nil hne
  rw [run, List.head?_cons, Option.bind_some, h first List.mem_cons_self]

theorem runs_append {front : List Fragment} {blocks : List Fragment}
    {list : Option ListMembership} (hfront : ∀ last ∈ front.getLast?, last.list ≠ list)
    (hne : blocks ≠ []) (h : ∀ block ∈ blocks, block.list = list) :
    runs (front ++ blocks) = runs front ++ [blocks] := by
  rw [← runs_of_list hne h]
  refine List.splitBy_append fun last hlast first hfirst => ?_
  rw [h first (List.mem_of_mem_head? hfirst)]
  exact decide_eq_false (hfront last hlast)

theorem exists_last_of_list (blocks : List Fragment) (list : Option ListMembership) :
    ∃ front same, blocks = front ++ same ∧ (∀ last ∈ front.getLast?, last.list ≠ list) ∧
      ∀ block ∈ same, block.list = list := by
  refine ⟨blocks.rdropWhile (·.list = list), blocks.rtakeWhile (·.list = list),
    List.rdropWhile_append_rtakeWhile.symm, fun last hlast => ?_, fun block hblock => ?_⟩
  · obtain ⟨hne, rfl⟩ := List.mem_getLast?_eq_getLast hlast
    simpa using List.rdropWhile_last_not _ _ hne
  · simpa using List.mem_rtakeWhile_imp hblock

theorem listSwitch_of_last {front : List Fragment} {list : Option ListMembership}
    (hfront : ∀ last ∈ front.getLast?, last.list ≠ list) :
    listSwitch (front.getLast?.bind Fragment.list) list =
      listClosing (front.getLast?.bind Fragment.list) ++ listOpening list := by
  cases hlast : front.getLast? with
  | none => cases list <;> rfl
  | some last => exact if_neg (hfront last hlast)

/-- The pieces of some blocks without the end tag of the list that is open behind them, and what
one more block adds to them. -/
theorem flatMap_runs_concat (doc : Document) {blocks : List Fragment} {pieces : List Markup}
    (h : (runs blocks).flatMap (run doc) =
      pieces ++ listClosing (blocks.getLast?.bind Fragment.list)) (next : Fragment) :
    (runs (blocks ++ [next])).flatMap (run doc) =
      pieces ++ listSwitch (blocks.getLast?.bind Fragment.list) next.list ++ next.block doc ++
        listClosing next.list := by
  obtain ⟨front, same, rfl, hfront, hsame⟩ := exists_last_of_list blocks next.list
  have hsame' : ∀ block ∈ same ++ [next], block.list = next.list := by
    intro block hblock
    obtain hblock | hblock := List.mem_append.1 hblock
    · exact hsame block hblock
    · rw [List.mem_singleton.1 hblock]
  have hruns : (runs (front ++ same ++ [next])).flatMap (run doc) =
      (runs front).flatMap (run doc) ++ run doc (same ++ [next]) := by
    rw [List.append_assoc, runs_append hfront (by simp) hsame', List.flatMap_append,
      List.flatMap_singleton]
  rw [hruns, run_of_list doc (by simp) hsame']
  obtain rfl | hne := eq_or_ne same []
  · -- the block begins a run
    rw [List.append_nil] at h ⊢
    rw [h, listSwitch_of_last hfront]
    simp
  · -- the run goes on, its list stays open
    have hlast : (front ++ same).getLast?.bind Fragment.list = next.list := by
      rw [List.getLast?_append_of_ne_nil _ hne, List.getLast?_eq_some_getLast hne,
        Option.bind_some, hsame _ (List.getLast_mem hne)]
    rw [hlast] at h ⊢
    rw [runs_append hfront hne hsame, List.flatMap_append, List.flatMap_singleton,
      run_of_list doc hne hsame, ← List.append_assoc, ← List.append_assoc] at h
    rw [← List.append_cancel_right h, listSwitch, if_pos rfl]
    simp

end Fragment

namespace Page

variable {doc : Document} {settings : RenderSettings} {style : Style} {page start : Page}
  {list : Option ListMembership}

/-! Outside of tables -/

/-- Outside of any table, what a page has open of lists and blocks. -/
structure Stands (list : Option ListMembership) (block : Option Block) (page : Page) : Prop where
  table_eq : page.table = none
  list_eq : page.list = list
  block_eq : page.block = block

/-- Between two blocks of a list, or outside of any list. -/
structure BetweenBlocks (list : Option ListMembership) (page : Page) : Prop
    extends Stands list none page where
  link_eq : page.link = none
  span_eq : page.span = none

theorem Stands.of_continues {block : Option Block} {s : List Char} (h : Stands list block start)
    (hpage : Continues s start page) : Stands list block page :=
  ⟨hpage.table_eq.trans h.table_eq, hpage.list_eq.trans h.list_eq, hpage.block_eq.trans h.block_eq⟩

theorem Stands.closeTable {block : Option Block} (h : Stands list block page) :
    page.closeTable = page := by
  rw [Page.closeTable, h.table_eq]

theorem Stands.openBlock {block : Block} (h : Stands list (some block) page) (doc : Document)
    (hstyle : style.isInTable = false) : page.openBlock doc style = page := by
  simp [Page.openBlock, hstyle, h.closeTable, h.block_eq]

namespace BetweenBlocks

theorem closeBlock (h : BetweenBlocks list page) : page.closeBlock = page := by
  simp [Page.closeBlock, closeInline, closeSpan, closeLink, h.span_eq, h.link_eq, h.block_eq]

theorem closeList (h : BetweenBlocks list page) :
    BetweenBlocks none page.closeList ∧
      page.closeList.out.toList = page.out.toList ++ listClosing list := by
  unfold Page.closeList
  rw [h.list_eq, h.closeBlock]
  cases list with
  | none => exact ⟨h, (List.append_nil _).symm⟩
  | some list =>
    exact ⟨⟨⟨h.table_eq, rfl, h.block_eq⟩, h.link_eq, h.span_eq⟩, Array.toList_push⟩

theorem openList (h : BetweenBlocks list page) (list' : ListMembership) :
    BetweenBlocks (some list') (page.openList list') ∧
      (page.openList list').out.toList = page.out.toList ++ listSwitch list (some list') := by
  unfold Page.openList listSwitch
  rw [h.list_eq]
  split
  · rename_i hsame
    rw [← hsame]
    exact ⟨h, (List.append_nil _).symm⟩
  · obtain ⟨hclosed, hout⟩ := h.closeList
    refine ⟨⟨⟨hclosed.table_eq, rfl, hclosed.block_eq⟩, hclosed.link_eq, hclosed.span_eq⟩, ?_⟩
    simp [push, hout, listOpening, ListMembership.opening]

theorem openBlock (h : BetweenBlocks list page) (doc : Document)
    (hstyle : style.isInTable = false) :
    let list' := ListMembership.ofStyle? style
    let opened := page.openBlock doc style
    Stands list' (some (Block.ofList list')) opened ∧
      opened.link = none ∧ opened.span = none ∧ opened.blockEmpty = true ∧
      opened.out.toList = page.out.toList ++ listSwitch list list' ++
        [.opening (Block.ofList list').element (styleAttribute (paragraphCss doc style))] := by
  dsimp only
  unfold Page.openBlock
  simp only [hstyle, Bool.false_eq_true, if_false, h.closeTable, h.block_eq]
  cases ListMembership.ofStyle? style with
  | some list' =>
    obtain ⟨hopened, hout⟩ := h.openList list'
    refine ⟨⟨hopened.table_eq, hopened.list_eq, rfl⟩, hopened.link_eq, hopened.span_eq, trivial, ?_⟩
    simp [push, hout, Block.ofList]
  | none =>
    obtain ⟨hclosed, hout⟩ := h.closeList
    refine ⟨⟨hclosed.table_eq, hclosed.list_eq, rfl⟩, hclosed.link_eq, hclosed.span_eq, trivial, ?_⟩
    simp [push, hout, listSwitch_none, Block.ofList]

end BetweenBlocks

/-! A paragraph of events -/

theorem style_of_fillsParagraph {e : Event} (h : e.fillsParagraph = true) :
    ∃ style, e.style? = some style ∧ style.isInTable = false := by
  cases e with
  | text style _ | picture style _ => exact ⟨style, rfl, by simpa [Event.fillsParagraph] using h⟩
  | breaks style kind count =>
    exact ⟨style, rfl, by simpa using (Bool.and_eq_true_iff.1 h).1⟩
  | defaultFont _ | defaultTabWidth _ | close => exact absurd h Bool.false_ne_true

theorem kind_of_fillsParagraph {kind : BreakKind} {count : Nat}
    (h : (Event.breaks style kind count).fillsParagraph = true) : kind = .tab ∨ kind = .line := by
  simpa using (Bool.and_eq_true_iff.1 h).2

theorem not_paragraph_of_fillsParagraph {e : Event} (h : e.fillsParagraph = true) :
    ∀ style count, e ≠ .breaks style .paragraph count := by
  rintro style count rfl
  obtain h | h := kind_of_fillsParagraph h <;> cases h

theorem add_of_quiet {e : Event} (h : e.fillsParagraph = true)
    (hquiet : e.writes settings = false) : page.add doc settings e = page := by
  obtain ⟨style, hstyle, -⟩ := style_of_fillsParagraph h
  refine add_of_not_writes hquiet ?_ hstyle
  rintro style kind count rfl
  obtain rfl | rfl := kind_of_fillsParagraph h <;> exact Bool.noConfusion hquiet

theorem foldl_add_of_quiet {events : List Event} (h : ∀ e ∈ events, e.fillsParagraph = true)
    (hquiet : ∀ e ∈ events, e.writes settings = false) :
    events.foldl (add doc settings) page = page := by
  induction events with
  | nil => rfl
  | cons e es ih =>
    obtain ⟨he, hes⟩ := List.forall_mem_cons.1 h
    obtain ⟨hquiet, hrest⟩ := List.forall_mem_cons.1 hquiet
    rw [List.foldl_cons, add_of_quiet he hquiet, ih hes hrest]

theorem Fills.add {block : Block} {s : List Char} {e : Event}
    (hstart : Stands list (some block) start) (h : Fills s start page)
    (he : e.fillsParagraph = true) :
    Fills (s ++ e.visibleText) start (page.add doc settings e) := by
  cases hwrites : e.writes settings with
  | true =>
    obtain ⟨style, hstyle, hin⟩ := style_of_fillsParagraph he
    have hadded := fills_add doc page hwrites hstyle (not_paragraph_of_fillsParagraph he)
    rw [(hstart.of_continues h.toContinues).openBlock doc hin] at hadded
    exact h.trans hadded
  | false =>
    rw [add_of_quiet he hwrites, visibleText_of_not_writes hwrites, List.append_nil]
    exact h

theorem Fills.foldl_add {block : Block} {s : List Char} {events : List Event}
    (h : Fills s start page) (doc : Document) (settings : RenderSettings)
    (hstart : Stands list (some block) start) (hevents : ∀ e ∈ events, e.fillsParagraph = true) :
    Fills (s ++ events.flatMap Event.visibleText) start
      (events.foldl (Page.add doc settings) page) := by
  induction events generalizing s page with
  | nil => simpa using h
  | cons e es ih =>
    obtain ⟨he, hes⟩ := List.forall_mem_cons.1 hevents
    rw [List.flatMap_cons, ← List.append_assoc]
    exact ih (h.add hstart he) hes

theorem BetweenBlocks.of_closeBlock {block : Block} {s : List Char}
    (hstart : Stands list (some block) start) (h : Continues s start page) :
    BetweenBlocks list page.closeBlock ∧ ∃ pieces,
      page.closeBlock.out.toList = start.out.toList ++ pieces ++ [.closing block.element] ∧
      (∀ piece ∈ pieces, piece.isWithin Element.isInline = true) ∧
      pieces.flatMap Markup.visibleText = s := by
  have hinline := h.closeInline
  have hblock := hinline.block_eq.trans hstart.block_eq
  obtain ⟨pieces, hout, hrest⟩ := hinline.grows
  refine ⟨?_, pieces, ?_, hrest⟩
  · have hstands := hstart.of_continues h
    rw [closeBlock_eq]
    exact ⟨⟨hstands.table_eq, hstands.list_eq, rfl⟩, rfl, rfl⟩
  · unfold Page.closeBlock
    dsimp only
    rw [hblock]
    simp [push, hout]

theorem Fills.endParagraph {block : Block} {s : List Char} (hstart : Stands list (some block) start)
    (h : Fills s start page) (hstyle : style.isInTable = false) :
    page.endParagraph doc style = page.closeBlock := by
  have hopen := (hstart.of_continues h.toContinues).openBlock doc hstyle
  rw [Page.endParagraph, hopen, h.blockEmpty_eq, if_neg Bool.false_ne_true]

theorem BetweenBlocks.endParagraph (h : BetweenBlocks list page)
    (hstyle : style.isInTable = false) :
    let fragment : Fragment := ⟨style, [.void .br []]⟩
    BetweenBlocks fragment.list (page.endParagraph doc style) ∧
      (page.endParagraph doc style).out.toList =
        page.out.toList ++ listSwitch list fragment.list ++ fragment.block doc := by
  obtain ⟨hstands, hlink, hspan, hempty, hout⟩ := h.openBlock doc hstyle
  dsimp only at hstands hlink hspan hempty hout ⊢
  unfold Page.endParagraph
  dsimp only
  generalize page.openBlock doc style = opened at hstands hlink hspan hempty hout ⊢
  rw [hempty, if_pos rfl]
  constructor
  · rw [closeBlock_eq]
    exact ⟨⟨hstands.table_eq, hstands.list_eq, rfl⟩, rfl, rfl⟩
  · simp [Page.closeBlock, closeInline, closeSpan, closeLink, push, hspan, hlink,
      hstands.block_eq, hout, Fragment.block, Fragment.list]

theorem BetweenBlocks.add_paragraph (h : BetweenBlocks list page) (doc : Document)
    (settings : RenderSettings) (p : Paragraph) :
    ∃ fragment : Fragment, fragment.IsBlockOf settings p ∧
      BetweenBlocks fragment.list (p.events.foldl (Page.add doc settings) page) ∧
      (p.events.foldl (Page.add doc settings) page).out.toList =
        page.out.toList ++ listSwitch list fragment.list ++ fragment.block doc := by
  rw [Paragraph.events, List.foldl_append]
  change ∃ fragment : Fragment, _ ∧ BetweenBlocks _ (Page.endParagraph doc _ _) ∧
    (Page.endParagraph doc _ _).out.toList = _
  cases hfind : p.content.find? (Event.writes settings) with
  | none =>
    have hquiet : ∀ e ∈ p.content, e.writes settings = false := by
      simpa using hfind
    rw [foldl_add_of_quiet p.fills hquiet]
    exact ⟨_, Fragment.isBlockOf_empty hquiet, h.endParagraph p.notInTable⟩
  | some e =>
    obtain ⟨hwrites, before, after, hcontent, hquiet⟩ := List.find?_eq_some_iff_append.1 hfind
    have hquiet : ∀ e ∈ before, e.writes settings = false := by simpa using hquiet
    have hfills := p.fills
    rw [hcontent, List.forall_mem_append, List.forall_mem_cons] at hfills
    obtain ⟨hbefore, he, hafter⟩ := hfills
    obtain ⟨style, hstyle, hin⟩ := style_of_fillsParagraph he
    obtain ⟨hstands, -, -, -, hopened⟩ := h.openBlock doc hin
    have hfirst := fills_add doc page hwrites hstyle (not_paragraph_of_fillsParagraph he)
    have hall := hfirst.foldl_add doc settings hstands hafter
    obtain ⟨hend, pieces, hout, hwithin, htext⟩ :=
      BetweenBlocks.of_closeBlock hstands hall.toContinues
    rw [hcontent, List.foldl_append, foldl_add_of_quiet hbefore hquiet, List.foldl_cons,
      hall.endParagraph hstands p.notInTable]
    have htext : pieces.flatMap Markup.visibleText = p.content.flatMap Event.visibleText := by
      rw [htext, hcontent, List.flatMap_append, flatMap_visibleText_of_not_writes hquiet]
      rfl
    refine ⟨⟨style, pieces⟩, Fragment.isBlockOf_of_find? hfind hstyle hwithin htext, hend, ?_⟩
    rw [hout, hopened]
    simp [Fragment.block, Fragment.list]

/-! Paragraphs -/

/-- After some paragraphs all of their blocks are written, and the list of the last one is open. -/
theorem ofEvents_paragraphs (doc : Document) (settings : RenderSettings)
    (paragraphs : List Paragraph) :
    let page := ofEvents doc settings (paragraphs.flatMap Paragraph.events)
    ∃ blocks : List Fragment, List.Forall₂ (Fragment.IsBlockOf settings) paragraphs blocks ∧
      BetweenBlocks (blocks.getLast?.bind Fragment.list) page ∧
      (Fragment.runs blocks).flatMap (Fragment.run doc) =
        page.out.toList ++ listClosing (blocks.getLast?.bind Fragment.list) := by
  induction paragraphs using List.reverseRecOn with
  | nil => exact ⟨[], .nil, ⟨⟨rfl, rfl, rfl⟩, rfl, rfl⟩, rfl⟩
  | append_singleton paragraphs p ih =>
    obtain ⟨blocks, hall, hbetween, hpieces⟩ := ih
    obtain ⟨fragment, hblock, hbetween', hout⟩ :=
      hbetween.add_paragraph doc settings p
    dsimp only
    rw [List.flatMap_append, List.flatMap_singleton, ofEvents_append]
    refine ⟨blocks ++ [fragment], List.rel_append hall (.cons hblock .nil), ?_, ?_⟩
    · rwa [List.getLast?_concat]
    · rw [List.getLast?_concat, Option.bind_some, hout]
      exact Fragment.flatMap_runs_concat doc hpieces fragment

theorem BetweenBlocks.close (h : BetweenBlocks list page) (hopen : page.closed = false)
    (hwrap : settings.wrapInDiv = false) :
    (page.close settings).out.toList = page.out.toList ++ listClosing list := by
  have hmarked : BetweenBlocks list { page with closed := true } :=
    ⟨⟨h.table_eq, h.list_eq, h.block_eq⟩, h.link_eq, h.span_eq⟩
  obtain ⟨hclosed, hout⟩ := hmarked.closeList
  unfold Page.close
  rw [hopen, if_neg Bool.false_ne_true, hwrap, if_neg Bool.false_ne_true, hmarked.closeBlock,
    hclosed.closeTable]
  exact hout

/-- Paragraphs outside of tables are blocks in their order, each in the list that the style of its
first content has; the longest runs of blocks of one list stand in one list element. -/
theorem html_ofParagraphs (doc : Document) (settings : RenderSettings)
    (hwrap : settings.wrapInDiv = false) (paragraphs : List Paragraph) :
    ∃ blocks : List Fragment, List.Forall₂ (Fragment.IsBlockOf settings) paragraphs blocks ∧
      (ofEvents doc settings (paragraphs.flatMap Paragraph.events ++ [.close])).html =
        Markup.write ((Fragment.runs blocks).flatMap (Fragment.run doc)).toArray := by
  obtain ⟨blocks, hall, hbetween, hpieces⟩ := ofEvents_paragraphs doc settings paragraphs
  refine ⟨blocks, hall, ?_⟩
  have hopen := (nested_ofEvents doc settings (close_notMem_events paragraphs)).closed_eq
  rw [ofEvents_append, hpieces, ← hbetween.close hopen hwrap]
  rfl

/-- Two items of a list and a paragraph. The first item begins with a hidden text and ends in a
style without a list, and the second one is empty. -/
def twoItems : List Paragraph :=
  let bullets : Style := ⟨[.atom (.listStyleId 1), .atom (.numberingType .bullet)]⟩
  [{ content := [.text ⟨[.atom (.hidden true)]⟩ "no", .text bullets "yes"]
     style := {}
     fills := by decide
     notInTable := rfl },
    { content := [], style := bullets, fills := by decide, notInTable := rfl },
    { content := [.breaks {} .line 1], style := bullets, fills := by decide, notInTable := rfl }]

theorem html_ofParagraphs_twoItems :
    let settings : RenderSettings := { wrapInDiv := false }
    settings.wrapInDiv = false ∧
      ∃ blocks : List Fragment, List.Forall₂ (Fragment.IsBlockOf settings) twoItems blocks ∧
        Markup.write ((Fragment.runs blocks).flatMap (Fragment.run {})).toArray =
          "<ul style=\"list-style-type:disc\"><li>yes</li><li><br></li></ul><p><br></p>" := by
  intro settings
  obtain ⟨blocks, hblocks, hhtml⟩ := html_ofParagraphs {} settings rfl twoItems
  refine ⟨rfl, blocks, hblocks, hhtml.symm.trans ?_⟩
  decide +kernel

end Page

end Html

end RichText
