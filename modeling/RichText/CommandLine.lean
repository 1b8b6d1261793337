import RichText.Configuration
import RichText.DocumentFile
import RichText.Render
set_option autoImplicit false

/-!
The command line: a document file in, a page out.

Everything that can fail before the page is written fails before any file is touched.
-/
namespace RichText.CommandLine

inductive Failure where
  | usage
  | configuration (error : Configuration.Error)
  | reading (input : Path) (error : DocumentFile.Error)
  | writing (output : Path) (error : DocumentFile.Error)
deriving DecidableEq

def toolName : String := "rtf-weave"

def Failure.message : Failure → String
  | .usage => "Usage: " ++ toolName ++ " <document.json> [output.html]"
  | .configuration error => "Error: Failed to load config file: " ++ error.message
  | .reading input _ => "Error: reading document " ++ input.text
  | .writing output _ => "Error: writing " ++ output.text

def exitCode : Except Failure Unit → Nat
  | .ok _ => 0
  | .error _ => 1

def paths? : List String → Option (Path × Option Path)
  | [input] => some (⟨input⟩, none)
  | [input, output] => some (⟨input⟩, some ⟨output⟩)
  | _ => none

variable {m : Type → Type} [Monad m] [Host m]

/-- Renders the input to the output. Without an output path the configuration says where it
goes. -/
def convert (input : Path) (output : Option Path) : m (Except Failure Unit) := do
  match ← Configuration.load with
  | .error error => return .error (.configuration error)
  | .ok found =>
    let config := found.getD {}
    match ← DocumentFile.read input with
    | .error error => return .error (.reading input error)
    | .ok doc =>
      let output := output.getD (config.outputPath input)
      match ← DocumentFile.write output (doc.html config.render) with
      | .error error => return .error (.writing output error)
      | .ok _ => return .ok ()

def run (arguments : List String) : m (Except Failure Unit) :=
  match paths? arguments with
  | some (input, output) => convert input output
  | none => return .error .usage

end RichText.CommandLine
