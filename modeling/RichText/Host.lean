import RichText.FileTree
import RichText.Environment
set_option autoImplicit false

namespace RichText

class Host (m : Type → Type) where
  /-- The variables with these names, as far as they are set. -/
  environment : List String → m Environment
  read : Path → m (Except FileTree.ReadFailure ByteArray)
  makeDirectories : List Path → m Bool
  write : Path → ByteArray → m Bool

/-- A machine: its files, the directory that relative paths start in, and its variables. It may
refuse a path whatever its files are, for want of permission, of room or for any other reason. -/
structure Machine where
  files : FileTree := {}
  workingDirectory : Location := []
  environment : Environment := {}
  refusesReading : Path → Option FileTree.ReadFailure := fun _ => none
  refusesDirectory : Path → Bool := fun _ => false
  refusesWriting : Path → Bool := fun _ => false

namespace Machine

abbrev Run := StateM Machine

def read (machine : Machine) (path : Path) : Except FileTree.ReadFailure ByteArray :=
  match machine.refusesReading path with
  | some failure => .error failure
  | none => machine.files.read machine.workingDirectory path

def makeDirectories (machine : Machine) (paths : List Path) : Bool × Machine :=
  let (made, files) := FileTree.makeDirectories machine.refusesDirectory
    machine.workingDirectory paths machine.files
  (made, { machine with files := files })

/-- Writes a file and tells whether it is there. A file that is not written stays as it was. -/
def write (machine : Machine) (path : Path) (content : ByteArray) : Bool × Machine :=
  if machine.refusesWriting path then (false, machine)
  else
    match machine.files.write? machine.workingDirectory path content with
    | some files => (true, { machine with files := files })
    | none => (false, machine)

instance : Host Run where
  environment _ := return (← get).environment
  read path := return (← get).read path
  makeDirectories paths := modifyGet fun machine => machine.makeDirectories paths
  write path content := modifyGet fun machine => machine.write path content

theorem run_bind {α β : Type} {first : Run α} {next : α → Run β} {machine machine' : Machine}
    {a : α} (h : first.run machine = (a, machine')) :
    (first >>= next).run machine = (next a).run machine' := by
  rw [StateT.run_bind, h]
  rfl

end Machine

def Host.writeWithParents {m : Type → Type} [Monad m] [Host m] (path : Path)
    (content : ByteArray) : m Bool := do
  let parents := path.parent?.elim [] Path.lineage
  if ← Host.makeDirectories parents then Host.write path content else return false

end RichText
