import RichText.Document.Json
import RichText.Host
set_option autoImplicit false

namespace RichText.DocumentFile

inductive Error where
  | notFound (path : Path)
  /-- The file is there but cannot be read as text, or cannot be written. -/
  | io
  | invalidDocument (path : Path)
deriving DecidableEq

def Error.message : Error → String
  | .notFound path => "File not found: " ++ path.text
  | .io => "IO error"
  | .invalidDocument path => "Invalid document " ++ path.text

def ofContent (path : Path) : Except FileTree.ReadFailure ByteArray → Except Error Document
  | .error .missing => .error (.notFound path)
  | .error .unreadable => .error .io
  | .ok content =>
    match String.fromUTF8? content with
    | none => .error .io
    | some text =>
      match Document.parse? text with
      | none => .error (.invalidDocument path)
      | some doc => .ok doc

variable {m : Type → Type} [Monad m] [Host m]

def read (path : Path) : m (Except Error Document) := return ofContent path (← Host.read path)

def write (path : Path) (html : String) : m (Except Error Unit) := do
  if ← Host.writeWithParents path html.toUTF8 then return .ok () else return .error .io

theorem run_read (machine : Machine) (path : Path) :
    (read path : Machine.Run _).run machine = (ofContent path (machine.read path), machine) :=
  rfl

theorem run_write {machine machine' : Machine} {path : Path} {html : String} {written : Bool}
    (h : (Host.writeWithParents path html.toUTF8 : Machine.Run Bool).run machine =
      (written, machine')) :
    (write path html : Machine.Run _).run machine =
      (if written then .ok () else .error .io, machine') := by
  rw [write, Machine.run_bind h]
  cases written <;> rfl

end RichText.DocumentFile
