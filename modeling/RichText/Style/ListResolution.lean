import RichText.Style
import RichText.Document
set_option autoImplicit false

/-!
List references: how a style takes over the paragraph formatting of the list level that it
refers to.

What the style says itself wins over the level, and indents always stay with the paragraph. The
reference is put back as the newest entry, so that later content in the scope resolves alike.
Main statement: a style without a reference is left alone.
-/
namespace RichText

/-- Kinds that a list level never contributes. -/
def ListLevel.withheld : List Kind := [.firstLineIndent, .leftIndent]

def ListLevel.formats (level : ListLevel) : List Entry :=
  (level.tokens.filter (fun t => t.category = .paragraphFormat)).map .token

namespace Style

def levelOf : Option Entry → UInt64
  | some (.atom (.listLevelNumber level)) => level
  | _ => 0

/-- Merges a level of a list style into the style. A level that the style lacks adds nothing. -/
def mergeLevel (style : Style) (definition : ListStyle) (level : UInt64) : Style :=
  match definition.level? level with
  | some found => style.addNew found.formats ListLevel.withheld
  | none => style

/-- Resolves the list reference of the style, if it has one that the document defines. -/
def resolveList (doc : Document) (style : Style) : Style :=
  match style.removeLast .listStyleId with
  | (none, _) => style
  | (some (.atom (.listStyleId id)), rest) =>
    match doc.listStyles.get? id with
    | none => rest.add (.atom (.listStyleId id))
    | some definition =>
      let (levelEntry, rest) := rest.removeLast .listLevelNumber
      let level := levelOf levelEntry
      (rest.mergeLevel definition level).addAll
        [.atom (.listStyleId id), .atom (.listLevelNumber level)]
  | (some entry, rest) => rest.add entry

theorem resolveList_of_find?_eq_none {doc : Document} {style : Style}
    (h : style.find? .listStyleId = none) : style.resolveList doc = style := by
  have h' : (style.removeLast .listStyleId).1 = none := h
  unfold resolveList
  generalize style.removeLast .listStyleId = p at h'
  obtain ⟨e, rest⟩ := p
  subst h'
  rfl

end Style

end RichText
