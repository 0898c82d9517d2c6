import DesignTokens.CommandLine.Session

/-!
The program. The files that a command line names are read, the session is prepared from them, and
its actions are carried out on the disk. There is no connection to the web: addresses cannot be
fetched.
-/
namespace DesignTokens.Program

def string (t : Text) : String := String.ofList t

def offline : Web := fun _ => .error "no connection".toList

def load (path : Path) : IO (Option (Path × Bytes)) := do
  try
    return some (path, (← IO.FS.readBinFile (string path.text)).toList)
  catch _ => return none

def loadInputs (i : Invocation) : IO Files := do
  let paths := (i.input :: i.configPath.toList).map Path.ofText
  let found ← paths.filterMapM load
  return fun path => (found.lookup path).elim (.error ⟨.notFound, path⟩) .ok

def report (message : Text) : IO Unit := do
  (← IO.getStderr).putStrLn (string message)

def execute : List Action → IO UInt32
  | [] => return 0
  | .print line :: rest => do
    IO.println (string line)
    execute rest
  | .write path content :: rest => do
    IO.FS.createDirAll (string path.parent.text)
    IO.FS.writeFile (string path.text) (string content)
    execute rest
  | .fail fault :: _ => do
    report fault.message
    return 1

def finish : Ending → IO UInt32
  | .finished => return 0
  | .exit code => return UInt32.ofNat code
  | .failed fault => do
    report fault.message
    return 1

def run (i : Invocation) : IO UInt32 := do
  let (printed, result) := (i.prepare (← loadInputs i) offline).outcome
  IO.print (string printed)
  match result with
  | .ok actions => execute actions
  | .error ending => finish ending

def usage : List String :=
  "usage: design-tokens [FLAG]... INPUT" :: Flag.all.map fun f => s!"  {f.name}  {f.purpose}"

end DesignTokens.Program

open DesignTokens in
def main (arguments : List String) : IO UInt32 := do
  match Request.parse (arguments.map String.toList) with
  | .ok (.run i) => Program.run i
  | .ok .help => do
    Program.usage.forM IO.println
    return 0
  | .error e => do
    Program.report e.message
    return 2
