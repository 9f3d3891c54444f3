import PinnedTree.Command.Output

/-!
The program: it reads the files that its command line names, prints the output, the log and the
failure of the command, and ends with a code that says how it went.
-/

open PinnedTree

def contents? (file : String) : IO (Option String) := do
  try
    return some (← IO.FS.readFile file)
  catch _ =>
    return none

def readFiles (command : Command) : IO (List (String × String)) := do
  let names := command.config.toList ++ [command.fixture]
  let files ← names.mapM fun name => return (name, ← contents? name)
  return files.filterMap fun (name, contents) => contents.map fun contents => (name, contents)

def main (arguments : List String) : IO UInt32 := do
  match Command.ofArguments? arguments with
  | none =>
    IO.eprintln "error: the arguments are not a command"
    return 2
  | some command =>
    let files ← readFiles command
    let colored ← (← IO.getStdout).isTty
    let (output, events) := command.run colored fun name => files.lookup name
    IO.eprint (command.errorText events output)
    match output with
    | .ok text =>
      IO.print text
      return 0
    | .error _ =>
      return 1
