import SqlDialects.CommandLine.Run

/-
The program. It reads the variables and files that an invocation needs, and prints what running it
gives.
-/
namespace SqlDialects.CommandLine

def fileFailure : IO.Error → FileFailure
  | .inappropriateType _ code _ => if code = 20 then .notDirectory else .directory
  | .invalidArgument _ _ _ => .nameTooLong
  | _ => .missing

def readText (path : String) : IO (Except FileFailure String) := do
  try
    return .ok (← IO.FS.readFile path)
  catch failure =>
    return .error (fileFailure failure)

partial def readAll (stream : IO.FS.Stream) (read : String) : IO String := do
  let line ← stream.getLine
  if line.isEmpty then return read
  readAll stream (read ++ line)

def settingsPath : IO (Option String) := do
  if let some directory ← IO.getEnv "XDG_CONFIG_HOME" then
    if directory.startsWith "/" then return some (directory ++ "/sqlport/config.toml")
  return (← IO.getEnv "HOME").map (· ++ "/.config/sqlport/config.toml")

def environment : IO (List (String × String)) := do
  let names := ["SQLPORT_FROM", "SQLPORT_TO", "SQLPORT_CONFIG"]
  let values ← names.mapM fun name => do
    return (← IO.getEnv name).map (name, ·)
  return values.filterMap id

end SqlDialects.CommandLine

open SqlDialects.CommandLine in
def main (arguments : List String) : IO UInt32 := do
  let entries ← environment
  let settingsPath ← settingsPath
  let invocation := Invocation.ofArguments? arguments (entries.lookup ·)
  let paths := (invocation.map (Invocation.paths settingsPath)).getD []
  let files ← paths.mapM fun path => do
    return (path, ← readText path)
  let input ←
    if (invocation.map Invocation.readsInput).getD false then readAll (← IO.getStdin) ""
    else pure ""
  let printed := run arguments (entries.lookup ·)
    { fileText := fun path => (files.lookup path).getD (.error .missing), input, settingsPath }
  IO.print printed.output
  IO.eprint printed.errors
  return UInt32.ofNat printed.exit
