import RichText.Walk.Action
import RichText.Style.ListResolution
import RichText.Event
set_option autoImplicit false

/-!
Walks: reading a token tree depth first into a stream of events.

Every group and every table row is a scope. It starts with a copy of the style around it, and
what it records is dropped when it ends; only the end of a row reaches the scopes around it, which
all leave their table. A walk ends because a scope is smaller than the tokens that open it, and
because no table is opened inside a row.
-/
namespace RichText

/-- A walk in progress: the scope that it is in, the styles of the scopes around that, innermost
first, and the events reported so far. -/
structure Walk where
  style : Style := {}
  enclosing : List Style := []
  /-- Whether tokens count at this point of the scope. -/
  active : Bool := true
  /-- Tabs of this scope that are still to be reported. -/
  tabs : Nat := 0
  events : Array Event := #[]

namespace Walk

def scopes (w : Walk) : List Style := w.style :: w.enclosing

def emit (w : Walk) (event : Event) : Walk := { w with events := w.events.push event }

def resolve (doc : Document) (w : Walk) : Walk := { w with style := w.style.resolveList doc }

def flushTabs (w : Walk) : Walk :=
  if w.tabs = 0 then w else { w.emit (.breaks w.style .tab w.tabs) with tabs := 0 }

def leaveTable (w : Walk) : Walk :=
  { w with
    style := w.style.setInTable false
    enclosing := w.enclosing.map (fun style => style.setInTable false) }

/-- Reports a break. Tabs before it are dropped, and the end of a row leaves the table. -/
def reportBreak (doc : Document) (w : Walk) (kind : BreakKind) : Walk :=
  let w := w.resolve doc
  let w := w.emit (.breaks w.style kind 1)
  let w := if kind = .row then w.leaveTable else w
  { w with tabs := 0 }

def perform (doc : Document) (w : Walk) : Action → Walk
  | .pass | .rows _ | .scope _ => w
  | .activate active => { w with active := active }
  | .record entries => { w with style := w.style.addAll entries }
  | .cell cell =>
    { w with style := w.style.add (.cell (CellChain.extend w.style.cellChain? cell)) }
  | .tab => { w with tabs := w.tabs + 1 }
  | .text s =>
    let w := (w.resolve doc).flushTabs
    w.emit (.text w.style s)
  | .breakMark kind => w.reportBreak doc kind
  | .picture picture =>
    let w := (w.resolve doc).flushTabs
    w.emit (.picture w.style picture)

def enter (w : Walk) : Walk := { w with enclosing := w.style :: w.enclosing, tabs := 0 }

/-- Returns to the scope of `w` after a scope inside it has been walked. -/
def leave (w inner : Walk) : Walk :=
  { w with
    style := inner.enclosing.headD w.style
    enclosing := inner.enclosing.tail
    events := inner.events }

def run (doc : Document) (row : Option Row) : List Token → Walk → Walk
  | [], w => w
  | t :: ts, w =>
    match _h : Action.next row w.active t ts with
    | (.scope contents, rest) => run doc row rest (w.leave (run doc row contents w.enter))
    | (.rows rows, rest) =>
      run doc row rest
        (rows.foldl (fun w r => w.leave (run doc (some r) r.contents w.enter)) w)
    | (action, rest) => run doc row rest (w.perform doc action)
termination_by ts => (row.isNone.toNat, Token.nodesOfList ts)
decreasing_by
  · obtain rfl := Action.eq_group_of_next_eq_scope _h
    apply Prod.Lex.right
    simp only [Token.nodesOfList, Token.nodes]
    omega
  · exact Prod.Lex.right _ (Action.nodes_rest_lt _h)
  · obtain rfl := Action.row_eq_none_of_next_eq_rows _h
    exact Prod.Lex.left _ _ Nat.zero_lt_one
  · exact Prod.Lex.right _ (Action.nodes_rest_lt _h)
  · exact Prod.Lex.right _ (Action.nodes_rest_lt _h)

end Walk

namespace Document

/-- The event that a token at the top of a document causes before its body is walked. A font that
is not in the table is replaced by the first one. -/
def default? (doc : Document) : Token → Option Event
  | .atom (.defaultFontRef id) =>
    match doc.fonts.get? id with
    | some font => some (.defaultFont (some font))
    | none => some (.defaultFont doc.fonts.first?)
  | .atom (.defaultTabWidth width) => some (.defaultTabWidth width)
  | _ => none

def isBody : Token → Bool
  | .atom (.defaultFontRef _) | .atom (.defaultTabWidth _) => false
  | .atom a => !a.category.contains .headerTag
  | .group contents => !Group.isHeader contents

theorem isBody_text (s : String) : isBody (.text s) = true :=
  (by decide : (!Category.text.contains .headerTag) = true)

def body (doc : Document) : List Token := doc.contents.filter isBody

def walk (doc : Document) : Walk :=
  if Group.isIgnorable doc.body then {} else Walk.run doc none doc.body {}

def events (doc : Document) : List Event :=
  doc.contents.filterMap doc.default? ++ doc.walk.events.toList ++ [.close]

end Document

end RichText
