import BuildChain.Command.Arguments
import BuildChain.Command.Perform
import BuildChain.Stamp

/-!
# The command line program

The files that a command may touch are looked at first, the command is carried out on that view, and
the file it changed is written back, whether the command came through or failed.
-/

namespace BuildChain.Program

/-- Adds what is found on the way along a path, and at its end, to a view. -/
def look (d : Directory) (path : String) : IO Directory := do
  let mut view := d
  let mut place : Place := []
  let mut here ← IO.currentDir
  for name in Directory.names path do
    place := place ++ [name]
    here := here / name
    if ← here.isDir then
      view := view.put place .folder
    else if ← here.pathExists then
      view := view.put place (.file (← IO.FS.readBinFile here))
  return view

/-- Writes the file at a path if its content is not what it was. -/
def store (before after : Directory) (path : String) : IO Unit := do
  match after.read path with
  | .error _ => return
  | .ok bytes =>
    let same := match before.read path with
      | .ok old => old == bytes
      | .error _ => false
    unless same do IO.FS.writeBinFile path bytes

/-- The seconds since the first of January 1970; the entry of a process in the table of all
processes is as old as the process. -/
def secondsNow : IO Nat := do
  let entry ← IO.FS.realPath "/proc/self"
  return (← entry.metadata).modified.sec.toNat

def run (i : Invocation) : IO UInt32 := do
  let before ← i.files.foldlM look Directory.empty
  let ended := (i.perform (Stamp.ofSeconds (← secondsNow))).run { directory := before }
  let after := Command.worldAfter ended
  for path in i.files do store before after.directory path
  IO.print after.output
  if let .error f _ := ended then IO.eprintln ("error: " ++ f.message)
  return (Command.exitStatus ended).toUInt32

end BuildChain.Program

def main (args : List String) : IO UInt32 := do
  match BuildChain.Command.ofArguments args with
  | .error .usage =>
    IO.eprint BuildChain.Command.usageText
    return 2
  | .error .help =>
    IO.print BuildChain.Command.usageText
    return 0
  | .error .version =>
    IO.print BuildChain.Command.versionText
    return 0
  | .ok invocation => BuildChain.Program.run invocation
