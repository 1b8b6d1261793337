import RichText.Toml.Reader
import RichText.Host
import RichText.Document
set_option autoImplicit false

/-!
The configuration: where pages go and how they are rendered.

It is kept in a TOML file in the home directory. Everything in it may be left out, and keys that
are not known are passed over.
-/
namespace RichText

structure Configuration where
  outputDirectory : Option Path := none
  render : RenderSettings := {}
deriving DecidableEq

namespace Configuration

inductive Error where
  | unreadable (path : Path)
  | malformed (path : Path)
deriving DecidableEq

def Error.message : Error → String
  | .unreadable path => "Failed to read config file at " ++ path.text
  | .malformed path => "Failed to parse config file at " ++ path.text

/-! Reading -/

def boolean? : Toml → Option Bool
  | .boolean b => some b
  | _ => none

def switch? (value : Option Toml) : Option Bool :=
  match value with
  | some value => boolean? value
  | none => some true

/-- The settings, given by name or as the first items of an array. A date-time is taken for a table
without any of the names. -/
def render? (value : Toml) : Option RenderSettings := do
  let (embedPictures, wrapInDiv, emitBookmarks) ←
    match value with
    | .table _ entries =>
      some (Toml.Table.get? entries "embed_pictures", Toml.Table.get? entries "wrap_in_div",
        Toml.Table.get? entries "emit_bookmarks")
    | .dateTime _ => some (none, none, none)
    | value => value.items?.map fun items => (items[0]?, items[1]?, items[2]?)
  return {
    embedPictures := ← switch? embedPictures
    wrapInDiv := ← switch? wrapInDiv
    emitBookmarks := ← switch? emitBookmarks }

def outputDirectory? : Toml → Option Path
  | .string s => some ⟨s⟩
  | _ => none

def optional? {α : Type} (default : α) (read : Toml → Option α) (value : Option Toml) : Option α :=
  match value with
  | some value => read value
  | none => some default

def ofTable? (table : Toml.Table) : Option Configuration := do
  let outputDirectory ← optional? none (fun value => (outputDirectory? value).map some)
    (Toml.Table.get? table "output_dir")
  let render ← optional? {} render? (Toml.Table.get? table "render")
  return { outputDirectory := outputDirectory, render := render }

def parse? (s : String) : Option Configuration := (Toml.Table.parse? s).bind ofTable?

def expand (env : Environment) (config : Configuration) : Configuration :=
  { config with outputDirectory := config.outputDirectory.map fun dir => ⟨env.expand dir.text⟩ }

/-- The configuration that a file holds before expansion, given what reading the file came to.
There is none without a file. -/
def ofContent (path : Path) :
    Except FileTree.ReadFailure ByteArray → Except Error (Option Configuration)
  | .error .missing => .ok none
  | .error .unreadable => .error (.unreadable path)
  | .ok content =>
    match String.fromUTF8? content with
    | none => .error (.unreadable path)
    | some text =>
      match parse? text with
      | none => .error (.malformed path)
      | some config => .ok (some config)

/-! Writing -/

def booleanText (b : Bool) : String := if b then "true" else "false"

def renderText (render : RenderSettings) : String :=
  "[render]\nembed_pictures = " ++ booleanText render.embedPictures ++
    "\nwrap_in_div = " ++ booleanText render.wrapInDiv ++
    "\nemit_bookmarks = " ++ booleanText render.emitBookmarks ++ "\n"

def write (config : Configuration) : String :=
  match config.outputDirectory with
  | some dir =>
    "output_dir = " ++ String.ofList (Toml.quote dir.text) ++ "\n\n" ++ renderText config.render
  | none => renderText config.render

/-! Places -/

def path (env : Environment) : Path :=
  Path.child ⟨String.ofList (env.expandTilde "~/.config/rtf-weave".toList)⟩ "config.toml".toList

def pageExtension : String := "html"

/-- Where the page of an input goes: beside the input with the extension of pages, or under that
name in the output directory if there is one. -/
def outputPath (config : Configuration) (input : Path) : Path :=
  let page := input.withExtension pageExtension
  match config.outputDirectory, page.fileName? with
  | some dir, some name => dir.child name
  | _, _ => page

/-! Files -/

section

variable {m : Type → Type} [Monad m] [Host m]

def loadFrom (path : Path) : m (Except Error (Option Configuration)) := do
  match ofContent path (← Host.read path) with
  | .ok (some config) =>
    let names := config.outputDirectory.elim [] fun dir => Environment.namesIn dir.text
    let env ← Host.environment names
    return .ok (some (config.expand env))
  | other => return other

def load : m (Except Error (Option Configuration)) := do
  loadFrom (path (← Host.environment [Environment.homeName]))

def saveTo (config : Configuration) (path : Path) : m Bool :=
  Host.writeWithParents path config.write.toUTF8

end

theorem run_loadFrom (machine : Machine) (path : Path) :
    (loadFrom path : Machine.Run _).run machine =
      ((ofContent path (machine.read path)).map (Option.map (expand machine.environment)),
        machine) := by
  have hread : (Host.read path : Machine.Run _).run machine = (machine.read path, machine) := rfl
  rw [loadFrom, Machine.run_bind hread]
  cases ofContent path (machine.read path) with
  | error => rfl
  | ok found => cases found <;> rfl

theorem run_load (machine : Machine) :
    (load : Machine.Run _).run machine =
      (loadFrom (path machine.environment) : Machine.Run _).run machine :=
  rfl

end Configuration

end RichText
