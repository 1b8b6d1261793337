import RichText.Walk
import RichText.Html.Page
set_option autoImplicit false

/-!
Rendering: a document as HTML.

A document that encapsulates HTML gives that HTML, put back together from its events: literal
markup is taken as it is and other text is escaped. What only serves readers without HTML never
reaches the events, so nothing is left out but hidden text. Any other document is written as a page.
-/
namespace RichText.Html.Encapsulated

def chars (settings : RenderSettings) : Event → List Char
  | .text style s =>
    if style.isHtmlTag then s.toList
    else if style.isHidden then []
    else escapeText s.toList
  | .breaks _ .paragraph _ | .breaks _ .line _ => ['\n']
  | .breaks _ .tab count => List.replicate count '\t'
  | .picture _ picture =>
    if settings.embedPictures then
      "<img src=\"".toList ++ picture.dataUri.toList ++ ['"', '>']
    else []
  | .breaks _ _ _ | .defaultFont _ | .defaultTabWidth _ | .close => []

def write (settings : RenderSettings) (events : List Event) : String :=
  String.ofList (events.flatMap (chars settings))

end RichText.Html.Encapsulated

namespace RichText.Document

def html (doc : Document) (settings : RenderSettings) : String :=
  if doc.hasHtml then Html.Encapsulated.write settings doc.events
  else (Html.Page.ofEvents doc settings doc.events).html

end RichText.Document
