import PhpAtlas.CommandLine.Run

/-!
# The command line

The part of the disk that a command may look at is read once; the rest is done by
`CommandLine.answer`.
-/

namespace PhpAtlas
namespace CommandLine

/-- What is printed when help is asked for. -/
def usage : String :=
  "Index PHP projects and query their symbols and types\n\n" ++
  "Commands:\n" ++
  "  index PATH... [--prune]             index files or directories and print the report\n" ++
  "  deduce FILE --offset N EXPRESSION   deduce the types of an expression at a byte offset\n" ++
  "  resolve FILE NAME                   print the flat view of a classlike\n" ++
  "  lint FILE                           report syntax errors and unknown symbols of a file\n\n" ++
  "Options:\n" ++
  "  --include PATH                      index a path before running the command"

/-- Add a file, or a directory with all it holds, to a disk. -/
partial def readTree (d : Disk) (path : String) : IO Disk := do
  let p ← IO.FS.realPath path
  if ← p.isDir then
    let entries ← p.readDir
    entries.foldlM (fun d e => readTree d e.path.toString) (d.makeDirectory p.toString)
  else if ← p.pathExists then
    let bytes ← IO.FS.readBinFile p
    return d.write p.toString ⟨String.fromUTF8? bytes, 0⟩
  else return d

/-- Add the files that mark the root of a project, from a directory upwards. -/
def readMarkers (d : Disk) (path : String) : IO Disk :=
  (Path.ancestors path).foldlM (fun d dir => do
    let d ← readTree d (Path.join dir Config.projectFile)
    readTree d (Path.join dir "composer.json")) d

/-- The directory in which the user keeps settings. -/
def settingsDirectory : IO (Option String) := do
  match ← IO.getEnv "XDG_CONFIG_HOME" with
  | some dir => return some dir
  | none => return (← IO.getEnv "HOME").map fun home => Path.join home ".config"

/-- A disk with what an invocation may look at. -/
def readDisk (i : Invocation) : IO Disk := do
  let work := (← IO.currentDir).toString
  let settings ← settingsDirectory
  let start : Disk := { settingsDirectory := settings }
  let d := { start.makeDirectory work with
    workDirectory := (Path.parts work).foldl Disk.follow [] }
  let d ← match settings with
    | some dir => readTree d (Path.join dir Config.userFile)
    | none => pure d
  let paths := match i.command with
    | .index paths _ => paths
    | .deduce file .. | .resolve file _ | .lint file => [file]
  let d ← (i.includes ++ paths).foldlM readTree d
  let d ← paths.foldlM (fun d path => readMarkers d (Path.join work path)) d
  match i.command with
  | .index .. => return d
  | _ => paths.foldlM (fun d path => readTree d (d.projectRoot (Path.join work path))) d

end CommandLine
end PhpAtlas

open PhpAtlas CommandLine in
/-- Run a command: print its answer, and complain on the other stream. -/
def main (arguments : List String) : IO UInt32 := do
  let d ← match Invocation.parse arguments with
    | .ok i => readDisk i
    | .error _ => pure {}
  let a := answer d arguments
  match a.output, a.complaint with
  | some json, _ => IO.println json.pretty
  | none, some complaint => IO.eprintln complaint
  | none, none => IO.println usage
  return a.exitCode.toUInt32
