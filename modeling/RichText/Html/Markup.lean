import RichText.Html.Declaration
import RichText.Html.Escape
set_option autoImplicit false

/-!
Markup: the pieces that a page is written as, and their text.

Everything that comes from a document is escaped when a piece is written, so angle brackets in the
text of a page stand only around tags. Main statement: `bracket_notMem_tagBody`, a tag has
brackets at its ends only.
-/
namespace RichText.Html

inductive Element where
  | div | p | ol | ul | li | table | tr | td | a | span
deriving DecidableEq

def Element.name : Element → String
  | .div => "div"
  | .p => "p"
  | .ol => "ol"
  | .ul => "ul"
  | .li => "li"
  | .table => "table"
  | .tr => "tr"
  | .td => "td"
  | .a => "a"
  | .span => "span"

inductive VoidElement where
  | br | img
deriving DecidableEq

def VoidElement.name : VoidElement → String
  | .br => "br"
  | .img => "img"

inductive AttributeName where
  | style | href | title | target | id | src
deriving DecidableEq

def AttributeName.text : AttributeName → String
  | .style => "style"
  | .href => "href"
  | .title => "title"
  | .target => "target"
  | .id => "id"
  | .src => "src"

structure Attribute where
  name : AttributeName
  value : String
deriving DecidableEq

inductive Markup where
  | opening (element : Element) (attributes : List Attribute)
  | closing (element : Element)
  | void (element : VoidElement) (attributes : List Attribute)
  | text (s : String)
deriving DecidableEq

def Attribute.chars (a : Attribute) : List Char :=
  ' ' :: a.name.text.toList ++ ['=', '"'] ++ escapeAttribute a.value.toList ++ ['"']

def tagBody (name : String) (attributes : List Attribute) : List Char :=
  name.toList ++ attributes.flatMap Attribute.chars

namespace Markup

def chars : Markup → List Char
  | .opening element attributes => '<' :: tagBody element.name attributes ++ ['>']
  | .closing element => '<' :: '/' :: element.name.toList ++ ['>']
  | .void element attributes => '<' :: tagBody element.name attributes ++ ['>']
  | .text s => escapeText s.toList

def write (pieces : Array Markup) : String :=
  String.ofList (pieces.toList.flatMap chars)

end Markup

/-- The style attribute for some declarations; without any there is none. -/
def styleAttribute (css : List Declaration) : List Attribute :=
  if css.isEmpty then [] else [⟨.style, cssText css⟩]

theorem bracket_notMem_attributeName (n : AttributeName) :
    '<' ∉ n.text.toList ∧ '>' ∉ n.text.toList := by
  cases n <;> decide

theorem bracket_notMem_attribute (a : Attribute) : '<' ∉ a.chars ∧ '>' ∉ a.chars := by
  have hn := bracket_notMem_attributeName a.name
  have hv := special_notMem_escapeAttribute a.value.toList
  simp [Attribute.chars, hn, hv]

theorem bracket_notMem_tagBody {name : String} (h : '<' ∉ name.toList ∧ '>' ∉ name.toList)
    (attributes : List Attribute) :
    '<' ∉ tagBody name attributes ∧ '>' ∉ tagBody name attributes := by
  simp only [tagBody, List.mem_append, List.mem_flatMap, not_or, not_exists, not_and]
  exact ⟨⟨h.1, fun a _ => (bracket_notMem_attribute a).1⟩,
    ⟨h.2, fun a _ => (bracket_notMem_attribute a).2⟩⟩

end RichText.Html
