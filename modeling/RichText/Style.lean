import RichText.Kind
import RichText.Cell
import RichText.Hyperlink
set_option autoImplicit false

/-!
Styles: the ledger of the formatting in effect in one scope.

A style lists its entries, oldest first. Adding an entry replaces the one of its kind; the three
reset tokens are not stored but clear a category. Main statements: `unique_add`, kinds stay
unique, and `find?_add_self`, an entry just added is the one in effect.
-/
namespace RichText

/-- What a style can hold: a token as it was read, or one of the things assembled from tokens. -/
inductive Entry where
  | token (t : Token)
  | cell (chain : CellChain)
  | border (b : Border)
  | hyperlink (link : Hyperlink)
  | bookmark (mark : Bookmark)
deriving DecidableEq

namespace Entry

@[match_pattern] abbrev atom (a : Atom) : Entry := .token (.atom a)

def kind : Entry → Kind
  | .token t => t.kind
  | .cell _ => .cell
  | .border b => .border b.side
  | .hyperlink _ => .hyperlink
  | .bookmark _ => .bookmark

def category : Entry → Category
  | .token t => t.category
  | .cell _ => .cellFormat
  | .border b => b.side.category
  | .hyperlink _ | .bookmark _ => .format

/-- The categories that an entry clears instead of being stored. -/
def clears : Entry → List Category
  | .atom .paragraphDefault => [.paragraphFormat]
  | .atom .plainText => [.characterFormat]
  | .atom .rowDefaults => [.rowFormat, .cellFormat]
  | _ => []

end Entry

structure Style where
  entries : List Entry := []
deriving DecidableEq

namespace Style

/-- Removes the entries of exactly the given categories. -/
def clear (style : Style) (categories : List Category) : Style :=
  ⟨style.entries.filter (fun e => !categories.contains e.category)⟩

def erase (style : Style) (kind : Kind) : Style :=
  ⟨style.entries.filter (fun e => e.kind ≠ kind)⟩

def add (style : Style) (entry : Entry) : Style :=
  match entry.clears with
  | [] => ⟨(style.erase entry.kind).entries ++ [entry]⟩
  | categories => style.clear categories

def addAll (style : Style) (entries : List Entry) : Style := entries.foldl add style

def ofList (entries : List Entry) : Style := addAll {} entries

def find? (style : Style) (kind : Kind) : Option Entry :=
  style.entries.reverse.find? (fun e => e.kind = kind)

def contains (style : Style) (kind : Kind) : Bool := (style.find? kind).isSome

/-- Adds the entries of which the style has no kind yet and whose kinds are not excluded. -/
def addNew (style : Style) (entries : List Entry) (excluded : List Kind) : Style :=
  entries.foldl (fun style e =>
    if excluded.contains e.kind || style.contains e.kind then style else style.add e) style

def removeLast (style : Style) (kind : Kind) : Option Entry × Style :=
  let newest := style.entries.reverse
  (newest.find? (fun e => e.kind = kind), ⟨(newest.eraseP (fun e => e.kind = kind)).reverse⟩)

def size (style : Style) : Nat := style.entries.length

def isEmpty (style : Style) : Bool := style.entries.isEmpty

def findMap? {α : Type} (style : Style) (f : Entry → Option α) : Option α :=
  style.entries.reverse.findSome? f

def isInTable (style : Style) : Bool := style.contains .inTable

def setInTable (style : Style) (inTable : Bool) : Style :=
  if inTable then style.add (.atom .inTable)
  else ⟨style.entries.filter (fun e => e ≠ .atom .inTable)⟩

def cellChain? (style : Style) : Option CellChain :=
  style.findMap? fun | .cell chain => some chain | _ => none

def hyperlink? (style : Style) : Option Hyperlink :=
  style.findMap? fun | .hyperlink link => some link | _ => none

def bookmark? (style : Style) : Option Bookmark :=
  style.findMap? fun | .bookmark mark => some mark | _ => none

def border? (style : Style) (side : BorderSide) : Option Border :=
  style.findMap? fun | .border b => if b.side = side then some b else none | _ => none

def isHtmlTag (style : Style) : Bool :=
  style.entries.any (fun e => e = .atom (.destination .htmlTag))

def isHidden (style : Style) : Bool := style.find? .hidden = some (.atom (.hidden true))

def listStyleId? (style : Style) : Option Int32 :=
  style.findMap? fun | .atom (.listStyleId id) => some id | _ => none

def listLevel (style : Style) : UInt64 :=
  (style.findMap? fun | .atom (.listLevelNumber level) => some level | _ => none).getD 0

def numbering? (style : Style) : Option NumberingType :=
  match style.find? .numberingType with
  | some (.atom (.numberingType numbering)) => some numbering
  | _ => none

def Unique (style : Style) : Prop := (style.entries.map Entry.kind).Nodup

theorem unique_empty : Unique {} := by simp [Unique]

theorem unique_filter {style : Style} (h : style.Unique) (p : Entry → Bool) :
    Unique ⟨style.entries.filter p⟩ :=
  h.sublist (List.Sublist.map _ List.filter_sublist)

theorem unique_add {style : Style} (h : style.Unique) (entry : Entry) :
    (style.add entry).Unique := by
  unfold add
  split
  · have herase : ∀ e ∈ (style.erase entry.kind).entries, e.kind ≠ entry.kind := by
      intro e he
      simpa [erase] using (List.mem_filter.1 he).2
    simp only [Unique, List.map_append, List.map_cons, List.map_nil]
    refine List.nodup_append.2 ⟨unique_filter h _, by simp, ?_⟩
    intro k hk k' hk'
    obtain ⟨e, he, rfl⟩ := List.mem_map.1 hk
    rw [List.mem_singleton] at hk'
    subst hk'
    exact herase e he
  · exact unique_filter h _

theorem find?_add_self {style : Style} {entry : Entry} (h : entry.clears = []) :
    (style.add entry).find? entry.kind = some entry := by
  simp [add, h, find?]

theorem find?_add_of_ne {style : Style} {entry : Entry} {kind : Kind} (h : entry.clears = [])
    (hk : entry.kind ≠ kind) : (style.add entry).find? kind = style.find? kind := by
  simp only [add, h, find?, erase, List.reverse_append, List.reverse_cons, List.reverse_nil,
    List.nil_append, List.singleton_append, List.find?_cons]
  rw [decide_eq_false hk, ← List.filter_reverse, List.find?_filter]
  dsimp only
  congr 1
  funext e
  by_cases h' : e.kind = kind <;> simp [h', Ne.symm hk]

end Style

end RichText
