import ResourceQuery.CommandLine.Answer

/-!
# The program

Reads the command line and the two files that it names, prints the answer, and reports a
failure on the standard error stream.
-/

namespace ResourceQuery
namespace CommandLine

/-- What is found under a path of the file system. -/
def lookUp (path : String) : IO FileContent := do
  try
    return .text (← IO.FS.readFile path)
  catch
    | .noFileOrDirectory .. => return .absent
    | .inappropriateType _ 20 _ => return .notDirectory
    | _ => return .directory

/-- The exit code of a command line that is not carried out; asking for help is no error. -/
def UsageError.exitCode : UsageError → UInt32
  | .displayHelp | .displayVersion => 0
  | _ => 2

/-- Carry out a command line. -/
def run (args : List String) : IO UInt32 := do
  match readCommand args with
  | .error e =>
    IO.eprintln e.name
    return e.exitCode
  | .ok (verb, given) =>
    let config ← lookUp given.configPath
    let fixture ← lookUp given.fixturePath
    match answer verb given config fixture with
    | .ok text =>
      IO.print text
      return 0
    | .error e =>
      IO.eprintln e.display
      return 1

end CommandLine
end ResourceQuery

/-- The entry point. -/
def main (args : List String) : IO UInt32 := ResourceQuery.CommandLine.run args
