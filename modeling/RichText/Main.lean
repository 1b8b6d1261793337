import RichText.CommandLine
set_option autoImplicit false

namespace RichText

/-- The code of an error for a path that leads through something that is no directory. -/
def notADirectory : UInt32 := 20

def saysMissing : IO.Error → Bool
  | .noFileOrDirectory _ _ _ => true
  | .inappropriateType _ code _ => code = notADirectory
  | _ => false

def succeeds (action : IO Unit) : IO Bool := do
  try
    action
    return true
  catch _ => return false

instance : Host IO where
  environment names := do
    let found ← names.filterMapM fun name => do
      return (← IO.getEnv name).map fun value => (name, value)
    return { bindings := found }
  read path := do
    try
      return .ok (← IO.FS.readBinFile path.text)
    catch error => return .error (if saysMissing error then .missing else .unreadable)
  makeDirectories paths := paths.allM fun path => succeeds (IO.FS.createDirAll path.text)
  write path content := succeeds (IO.FS.writeBinFile path.text content)

end RichText

def main (arguments : List String) : IO UInt32 := do
  let outcome ← RichText.CommandLine.run arguments
  if let .error failure := outcome then
    IO.eprintln failure.message
  return UInt32.ofNat (RichText.CommandLine.exitCode outcome)
