import RichText.Proofs.Html.Reading
set_option autoImplicit false

/-!
The content model of pages: which element may stand in which, and what is open after a part of a
page has been read. Main statement: `Opened.exists_forest`, once nothing is open any more, what has
been read is a forest that conforms to the content model.
-/
namespace RichText.Html

namespace Element

def holdsText : Element → Bool
  | .p | .li | .a | .span => true
  | .div | .ol | .ul | .table | .tr | .td => false

/-- An element may stand directly in another one. -/
def admits (parent child : Element) : Bool :=
  match parent with
  | .div => child ∈ [.div, .p, .ol, .ul, .table]
  | .table => child = .tr
  | .tr => child = .td
  | .td => child = .p
  | .ol | .ul => child = .li
  | .p | .li | .a | .span => child = .a || child = .span

def needsChild : Element → Bool
  | .table | .tr | .ol | .ul => true
  | .div | .p | .li | .td | .a | .span => false

theorem admits_of_holdsText {parent : Element} (h : parent.holdsText = true) :
    parent.admits .a = true ∧ parent.admits .span = true := by
  cases parent with
  | p | li | a | span => decide
  | _ => exact absurd h Bool.false_ne_true

theorem holdsText_of_admits {parent e : Element} (he : e = .a ∨ e = .span)
    (h : parent.admits e = true) : parent.holdsText = true := by
  obtain rfl | rfl := he
  · cases parent <;> first | rfl | exact absurd h (by decide)
  · cases parent <;> first | rfl | exact absurd h (by decide)

end Element

inductive Node where
  | element (element : Element) (attributes : List Attribute) (children : List Node)
  | void (element : VoidElement) (attributes : List Attribute)
  | char (c : Char)

namespace Node

mutual

def lexemes : Node → List Lexeme
  | .element e attributes children =>
    .opening e attributes :: lexemesOfList children ++ [.closing e]
  | .void e attributes => [.void e attributes]
  | .char c => [.char c]

def lexemesOfList : List Node → List Lexeme
  | [] => []
  | node :: nodes => node.lexemes ++ lexemesOfList nodes

end

mutual

/-- The node may stand in the parent, all that is in it may stand where it does, and no link is in
another one. -/
def conforms (parent : Element) (inLink : Bool) : Node → Bool
  | .element e _ children =>
    parent.admits e && !(e = .a && inLink) && !(e.needsChild && children.isEmpty) &&
      conformsAll e (inLink || e = .a) children
  | .void _ _ | .char _ => parent.holdsText

def conformsAll (parent : Element) (inLink : Bool) : List Node → Bool
  | [] => true
  | node :: nodes => node.conforms parent inLink && conformsAll parent inLink nodes

end

theorem lexemesOfList_concat (nodes : List Node) (node : Node) :
    lexemesOfList (nodes ++ [node]) = lexemesOfList nodes ++ node.lexemes := by
  induction nodes with
  | nil => simp [lexemesOfList]
  | cons first nodes ih => simp [lexemesOfList, ih]

theorem conformsAll_concat {parent : Element} {inLink : Bool} {nodes : List Node} {node : Node}
    (hnodes : conformsAll parent inLink nodes = true) (hnode : node.conforms parent inLink = true) :
    conformsAll parent inLink (nodes ++ [node]) = true := by
  induction nodes with
  | nil => simp [conformsAll, hnode]
  | cons first nodes ih =>
    simp only [conformsAll, Bool.and_eq_true] at hnodes
    simp only [List.cons_append, conformsAll, Bool.and_eq_true]
    exact ⟨hnodes.1, ih hnodes.2⟩

end Node

/-- `Opened found es settled`: what has been found conforms as far as it goes, it leaves the
elements `es` open, innermost first, and if settled the innermost one may be closed. Outside of
all elements may stand what may stand in a `div`. -/
inductive Opened : List Lexeme → List Element → Bool → Prop where
  | root {forest : List Node} (h : Node.conformsAll .div false forest = true) :
      Opened (Node.lexemesOfList forest) [] true
  | inside {found : List Lexeme} {es : List Element} {settled : Bool} {e : Element}
      (attributes : List Attribute) {children : List Node} (outer : Opened found es settled)
      (hadmits : (es.headD .div).admits e = true) (hlink : e = .a → .a ∉ es)
      (hchildren : Node.conformsAll e (.a ∈ e :: es) children = true) :
      Opened (found ++ .opening e attributes :: Node.lexemesOfList children) (e :: es)
        (!(e.needsChild && children.isEmpty))

def stacked : List Element → Bool
  | [] => true
  | e :: es => (es.headD .div).admits e && stacked es

theorem stacked_append {es es' : List Element} (h : stacked (es ++ es') = true) :
    stacked es' = true := by
  induction es with
  | nil => exact h
  | cons e es ih =>
    rw [List.cons_append, stacked, Bool.and_eq_true] at h
    exact ih h.2

theorem admits_of_stacked {before es : List Element} {e : Element}
    (h : stacked (before ++ e :: es) = true) : (es.headD .div).admits e = true := by
  have hrest := stacked_append h
  rw [stacked, Bool.and_eq_true] at hrest
  exact hrest.1

namespace Opened

variable {found : List Lexeme} {es : List Element} {settled : Bool} {e : Element}

theorem stacked_eq_true (h : Opened found es settled) : stacked es = true := by
  induction h with
  | root h => rfl
  | inside attributes outer hadmits hlink hchildren ih =>
    rw [stacked, hadmits, ih]
    rfl

theorem opening (h : Opened found es settled) (hadmits : (es.headD .div).admits e = true)
    (hlink : e = .a → .a ∉ es) (attributes : List Attribute) :
    Opened (found ++ [.opening e attributes]) (e :: es) (!e.needsChild) := by
  have hopened := Opened.inside attributes h hadmits hlink (show
    Node.conformsAll e (.a ∈ e :: es) [] = true from rfl)
  simpa [Node.lexemesOfList] using hopened

theorem node (h : Opened found es settled) {node : Node}
    (hnode : node.conforms (es.headD .div) (.a ∈ es) = true) :
    Opened (found ++ node.lexemes) es true := by
  cases h with
  | @root forest h =>
    rw [← Node.lexemesOfList_concat]
    exact .root (Node.conformsAll_concat h hnode)
  | @inside before es _ e attributes children outer hadmits hlink hchildren =>
    have hopened := Opened.inside attributes outer hadmits hlink
      (Node.conformsAll_concat hchildren hnode)
    have hfilled : (children ++ [node]).isEmpty = false := by simp
    rw [Node.lexemesOfList_concat, hfilled, Bool.and_false] at hopened
    rw [List.append_assoc, List.cons_append]
    exact hopened

theorem closing (h : Opened found (e :: es) true) : Opened (found ++ [.closing e]) es true := by
  generalize hsettled : true = settled at h
  cases h with
  | @inside before _ _ _ attributes children outer hadmits hlink hchildren =>
    have hlinked : (decide (e = .a) && decide (.a ∈ es)) = false := by
      cases he : decide (e = .a) with
      | false => rfl
      | true => simpa using hlink (by simpa using he)
    have hinLink : (decide (.a ∈ es) || decide (e = .a)) = decide (.a ∈ e :: es) := by
      simp [Bool.or_comm, eq_comm]
    have hnode : (Node.element e attributes children).conforms (es.headD .div) (.a ∈ es) =
        true := by
      rw [Node.conforms, hadmits, hlinked, ← hsettled, hinLink, hchildren]
      rfl
    have hclosed := outer.node hnode
    rw [← hsettled, List.append_assoc, List.cons_append]
    exact hclosed

theorem void (h : Opened found es settled) (hholds : (es.headD .div).holdsText = true)
    (element : VoidElement) (attributes : List Attribute) :
    Opened (found ++ [.void element attributes]) es true := by
  have hnode : (Node.void element attributes).conforms (es.headD .div) (.a ∈ es) = true := hholds
  exact h.node hnode

theorem chars (h : Opened found es true) (hholds : (es.headD .div).holdsText = true)
    (s : List Char) : Opened (found ++ s.map .char) es true := by
  induction s generalizing found with
  | nil =>
    rw [List.map_nil, List.append_nil]
    exact h
  | cons c s ih =>
    have hnode : (Node.char c).conforms (es.headD .div) (.a ∈ es) = true := hholds
    have hchar := h.node hnode
    have hrest := ih hchar
    rwa [List.append_assoc] at hrest

theorem exists_forest (h : Opened found [] settled) :
    ∃ forest, Node.conformsAll .div false forest = true ∧ Node.lexemesOfList forest = found := by
  cases h with
  | root h => exact ⟨_, h, rfl⟩

theorem empty : Opened [] [] true := @Opened.root [] rfl

theorem wrapped (h : Opened found [] settled) (attributes : List Attribute) :
    Opened (.opening .div attributes :: found ++ [.closing .div]) [] true := by
  obtain ⟨forest, hforest, rfl⟩ := h.exists_forest
  have hnode : (Node.element .div attributes forest).conforms .div false = true := by
    rw [Node.conforms]
    exact hforest
  exact empty.node hnode

end Opened

end RichText.Html
