import RichText.Token
set_option autoImplicit false

/-!
Kinds: which property a token describes. Of two tokens of one kind the newer one wins, so a
style holds at most one entry of each kind. Borders are told apart by side, so that a top border
never hides a bottom one; the two merge marks of a cell are one property.
-/
namespace RichText

inductive Kind where
  | text | group | destination | ignoreUnrecognized | unrecognized | htmlRtf | binary
  | defaultFontRef | defaultTabWidth | headerDistance | footerDistance | breakMark | plainText
  | bold | italic | underline | strike | hidden | fontRef | fontSize | foregroundColor
  | backgroundColor | script | paragraphDefault | inTable | alignment | leftIndent | rightIndent
  | firstLineIndent | spaceBefore | spaceAfter | listStyleId | listLevelNumber | numberingType
  | paragraphNumbering | borderPosition (side : BorderSide) | borderStyle | borderWidth
  | borderColor | borderSpacing | cellVerticalAlign | cellBackground | cellMerge
  | rightCellBoundary | rowDefaults | rowHeight | rowLeftOffset | pictureFormat | pictureWidth
  | pictureHeight | pictureGoalWidth | pictureGoalHeight | cell | border (side : BorderSide)
  | hyperlink | bookmark
deriving DecidableEq

namespace Kind

def label : Kind → String
  | .text => "Text"
  | .group => "Group"
  | .destination => "Destination"
  | .ignoreUnrecognized => "IgnoreUnrecognized"
  | .unrecognized => "Unrecognized"
  | .htmlRtf => "HtmlRtf"
  | .binary => "Binary"
  | .defaultFontRef => "DefaultFontRef"
  | .defaultTabWidth => "DefaultTabWidth"
  | .headerDistance => "HeaderDistance"
  | .footerDistance => "FooterDistance"
  | .breakMark => "Break"
  | .plainText => "PlainText"
  | .bold => "Bold"
  | .italic => "Italic"
  | .underline => "Underline"
  | .strike => "Strike"
  | .hidden => "Hidden"
  | .fontRef => "FontRef"
  | .fontSize => "FontSize"
  | .foregroundColor => "ForegroundColor"
  | .backgroundColor => "BackgroundColor"
  | .script => "Script"
  | .paragraphDefault => "ParagraphDefault"
  | .inTable => "InTable"
  | .alignment => "Alignment"
  | .leftIndent => "LeftIndent"
  | .rightIndent => "RightIndent"
  | .firstLineIndent => "FirstLineIndent"
  | .spaceBefore => "SpaceBefore"
  | .spaceAfter => "SpaceAfter"
  | .listStyleId => "ListStyleId"
  | .listLevelNumber => "ListLevelNumber"
  | .numberingType => "NumberingType"
  | .paragraphNumbering => "ParagraphNumbering"
  | .borderPosition side => "BorderPosition(" ++ Enumeration.name side ++ ")"
  | .borderStyle => "BorderStyle"
  | .borderWidth => "BorderWidth"
  | .borderColor => "BorderColor"
  | .borderSpacing => "BorderSpacing"
  | .cellVerticalAlign => "CellVerticalAlign"
  | .cellBackground => "CellBackground"
  | .cellMerge => "CellMerge"
  | .rightCellBoundary => "RightCellBoundary"
  | .rowDefaults => "RowDefaults"
  | .rowHeight => "RowHeight"
  | .rowLeftOffset => "RowLeftOffset"
  | .pictureFormat => "PictureFormat"
  | .pictureWidth => "PictureWidth"
  | .pictureHeight => "PictureHeight"
  | .pictureGoalWidth => "PictureGoalWidth"
  | .pictureGoalHeight => "PictureGoalHeight"
  | .cell => "Cell"
  | .border side => "Border(" ++ Enumeration.name side ++ ")"
  | .hyperlink => "Hyperlink"
  | .bookmark => "Bookmark"

end Kind

def Atom.kind : Atom → Kind
  | .text _ => .text
  | .destination _ => .destination
  | .ignoreUnrecognized => .ignoreUnrecognized
  | .unrecognized _ => .unrecognized
  | .htmlRtf _ => .htmlRtf
  | .binary _ => .binary
  | .defaultFontRef _ => .defaultFontRef
  | .defaultTabWidth _ => .defaultTabWidth
  | .headerDistance _ => .headerDistance
  | .footerDistance _ => .footerDistance
  | .breakMark _ => .breakMark
  | .plainText => .plainText
  | .bold _ => .bold
  | .italic _ => .italic
  | .underline _ => .underline
  | .strike _ => .strike
  | .hidden _ => .hidden
  | .fontRef _ => .fontRef
  | .fontSize _ => .fontSize
  | .foregroundColor _ => .foregroundColor
  | .backgroundColor _ => .backgroundColor
  | .script _ => .script
  | .paragraphDefault => .paragraphDefault
  | .inTable => .inTable
  | .alignment _ => .alignment
  | .leftIndent _ => .leftIndent
  | .rightIndent _ => .rightIndent
  | .firstLineIndent _ => .firstLineIndent
  | .spaceBefore _ => .spaceBefore
  | .spaceAfter _ => .spaceAfter
  | .listStyleId _ => .listStyleId
  | .listLevelNumber _ => .listLevelNumber
  | .numberingType _ => .numberingType
  | .paragraphNumbering => .paragraphNumbering
  | .borderPosition side => .borderPosition side
  | .borderStyle _ => .borderStyle
  | .borderWidth _ => .borderWidth
  | .borderColor _ => .borderColor
  | .borderSpacing _ => .borderSpacing
  | .cellVerticalAlign _ => .cellVerticalAlign
  | .cellBackground _ => .cellBackground
  | .cellMergeFirst | .cellMerge => .cellMerge
  | .rightCellBoundary _ => .rightCellBoundary
  | .rowDefaults => .rowDefaults
  | .rowHeight _ => .rowHeight
  | .rowLeftOffset _ => .rowLeftOffset
  | .pictureFormat _ => .pictureFormat
  | .pictureWidth _ => .pictureWidth
  | .pictureHeight _ => .pictureHeight
  | .pictureGoalWidth _ => .pictureGoalWidth
  | .pictureGoalHeight _ => .pictureGoalHeight

def Token.kind : Token → Kind
  | .atom a => a.kind
  | .group _ => .group

end RichText
