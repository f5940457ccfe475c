import ApiClient.CommandLine

/-! The program: runs the script of its arguments on the real files. -/

namespace ApiClient.CommandLine

def usageText : String :=
  "usage: reqgen generate -i FILE [-o FILE] [-c FILE] [--hook-factory NAME]\n" ++
  "                       [--client-request NAME] [--error-type NAME]\n" ++
  "       reqgen inspect -i FILE\n"

def readText (path : String) : IO (Option String) := do
  try return some (← IO.FS.readFile path) catch _ => return none

def writeText (path text : String) : IO Bool := do
  try
    IO.FS.writeFile path text
    return true
  catch _ => return false

def Script.perform : Script → IO UInt32
  | .done => return 0
  | .fail message => do
    IO.eprintln message
    return 1
  | .usage => do
    IO.eprint usageText
    return 2
  | .out text next => do
    IO.print text
    next.perform
  | .err text next => do
    IO.eprint text
    next.perform
  | .read path next => do (next (← readText path)).perform
  | .write path text next => do (next (← writeText path text)).perform

end ApiClient.CommandLine

def main (args : List String) : IO UInt32 := (ApiClient.CommandLine.script args).perform
