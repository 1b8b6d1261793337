import RichText.Style
import RichText.Font
import RichText.Picture
import RichText.Text.CharacterClass
set_option autoImplicit false

/-!
Events: what a walk over a document reports, in order.

Defaults of the document come before any content, and `close` comes last. Every content event
carries the style in effect for it, in which list references are already resolved.
-/
namespace RichText

namespace Text

def codePointEscape (c : Char) : List Char :=
  ['\\', 'u', '\x7b'] ++ Nat.toDigits 16 c.toNat ++ ['\x7d']

def quoteChar (c : Char) : List Char :=
  if c = '"' || c = '\\' then ['\\', c]
  else if c = '\n' then ['\\', 'n']
  else if c = '\r' then ['\\', 'r']
  else if c = '\t' then ['\\', 't']
  else if c = '\x00' then ['\\', '0']
  else if isUnprintable c then codePointEscape c
  else [c]

def quoted (s : String) : String :=
  String.ofList ('"' :: s.toList.flatMap quoteChar ++ ['"'])

end Text

inductive Event where
  /-- The font of text that names none; the document may name one that it does not have. -/
  | defaultFont (font : Option Font)
  | defaultTabWidth (width : Twips)
  | text (style : Style) (text : String)
  /-- The count is above one only for tabs, which are reported as one event per run. -/
  | breaks (style : Style) (kind : BreakKind) (count : Nat)
  | picture (style : Style) (picture : Picture)
  | close
deriving DecidableEq

namespace Event

def style? : Event → Option Style
  | .text style _ | .breaks style _ _ | .picture style _ => some style
  | .defaultFont _ | .defaultTabWidth _ | .close => none

def summary : Event → String
  | .defaultFont font => "font " ++ font.elim "-" Font.name
  | .defaultTabWidth width => "tabwidth " ++ toString width.toInt
  | .text _ s => "text " ++ Text.quoted s
  | .breaks _ kind count => "break " ++ Enumeration.name kind ++ " x" ++ toString count
  | .picture _ p =>
    match p.format with
    | some format => "picture Some(" ++ Enumeration.name format ++ ")"
    | none => "picture None"
  | .close => "close"

end Event

end RichText
