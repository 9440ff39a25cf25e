import FlowTour.CommandLine.Execution

/-!
The program: reads the files that a command names, executes it, prints and writes the result. The
exit code is 2 for a usage error and 1 for a command that fails.
-/

namespace FlowTour.CommandLine

def usageText : String :=
  "Usage: flowtour [-v]... <max-flow | min-cut | min-cost-flow | tsp> [--<option> <value>]..."

def Fault.text : Fault → String
  | .inaccessible => "a file cannot be opened"
  | .table .unequalLengths => "a record has another number of fields than the header"
  | .table .unreadable => "a field cannot be read"
  | .unsolved failure => Text.quoteString failure.message

/-- Nothing for a file that cannot be opened or is not text. -/
def readContents (path : String) : IO (Option String) := do
  try
    let handle ← IO.FS.Handle.mk path .read
    let bytes ← try handle.readBinToEnd catch _ => pure ByteArray.empty
    return String.fromUTF8? bytes
  catch _ => return none

def readFiles (paths : List String) : IO Files := do
  let contents ← paths.mapM fun path => do return (path, ← readContents path)
  return fun path => (contents.lookup path).join

def report (fault : Fault) : IO UInt32 := do
  IO.eprintln ("Error: " ++ fault.text)
  return 1

def run (command : Command) : IO UInt32 := do
  match execute (← readFiles command.inputs) command with
  | .error fault => report fault
  | .ok output =>
      output.lines.forM IO.println
      match output.file with
      | none => return 0
      | some (path, text) =>
          try
            IO.FS.writeFile path text
            return 0
          catch _ => report .inaccessible

end FlowTour.CommandLine

open FlowTour.CommandLine in
def main (arguments : List String) : IO UInt32 :=
  match parse arguments with
  | .ok command => run command
  | .error .help => do
      IO.println usageText
      return 0
  | .error .usage => do
      IO.eprintln usageText
      return 2
