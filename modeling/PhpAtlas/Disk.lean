import PhpAtlas.Path

/-!
# Files and directories

A disk holds files and directories under absolute names.  A path is followed from the root or from
the working directory, and every part but the last has to be a directory.

## Main definitions

* `DiskFile`, `Disk` — files with their times, and directories.
* `Disk.locate?` — the absolute names behind a path.
* `Disk.isFile`, `Disk.isDirectory`, `Disk.has`, `Disk.read` — what a path stands for.
* `Disk.write`, `Disk.makeDirectory`, `Disk.remove` — changes.
* `Disk.filesBelow` — all files below a path.
-/

namespace PhpAtlas

/-- A file: its text, unless it is not text, and the time of its last change. -/
structure DiskFile where
  text : Option String
  modified : Nat
  deriving DecidableEq, Repr

/-- Why a file cannot be read. -/
inductive ReadError
  | missing
  | directory
  | notText
  deriving DecidableEq, Repr

/-- The text of an error. -/
def ReadError.message : ReadError → String
  | .missing => "No such file or directory (os error 2)"
  | .directory => "Is a directory (os error 21)"
  | .notText => "stream did not contain valid UTF-8"

/-- Absolute names: the parts of an absolute path without `.` and `..`. -/
abbrev DiskName := List String

/-- Files and directories. -/
structure Disk where
  files : List (DiskName × DiskFile) := []
  directories : List DiskName := []
  /-- Where relative paths start. -/
  workDirectory : DiskName := []
  /-- Where the user keeps settings. -/
  settingsDirectory : Option String := none

namespace Disk

/-- The file of an absolute name. -/
def fileAt? (d : Disk) (name : DiskName) : Option DiskFile := d.files.lookup name

/-- Whether an absolute name is that of a directory; the root always is. -/
def isDirectoryAt (d : Disk) (name : DiskName) : Bool :=
  name.isEmpty || d.directories.contains name

/-- One step along a path. -/
def follow (name : DiskName) : PathPart → DiskName
  | .root => []
  | .here => name
  | .up => name.dropLast
  | .name n => name ++ [n]

/-- Follow the parts of a path; every step starts in a directory. -/
def followAll (d : Disk) : DiskName → List PathPart → Option DiskName
  | name, [] => some name
  | name, p :: ps => if d.isDirectoryAt name then d.followAll (follow name p) ps else none

/-- The absolute name behind a path, whether or not something is there. -/
def target? (d : Disk) (path : String) : Option DiskName :=
  if path.isEmpty then none
  else if Path.isAbsolute path then d.followAll [] (Path.parts path)
  else d.followAll d.workDirectory (Path.parts path)

/-- The absolute name of the file or directory behind a path. -/
def locate? (d : Disk) (path : String) : Option DiskName :=
  (d.target? path).filter fun name =>
    d.isDirectoryAt name || ((d.fileAt? name).isSome && !Path.endsAsDirectory path)

/-- Whether there is a file or a directory behind a path. -/
def has (d : Disk) (path : String) : Bool := (d.locate? path).isSome

/-- Whether there is a directory behind a path. -/
def isDirectory (d : Disk) (path : String) : Bool :=
  ((d.locate? path).filter d.isDirectoryAt).isSome

/-- The file behind a path. -/
def file? (d : Disk) (path : String) : Option DiskFile := (d.locate? path).bind d.fileAt?

/-- Whether there is a file behind a path. -/
def isFile (d : Disk) (path : String) : Bool := (d.file? path).isSome

/-- The time of the last change of a file. -/
def modified? (d : Disk) (path : String) : Option Nat := (d.file? path).map (·.modified)

/-- The text of a file. -/
def read (d : Disk) (path : String) : Except ReadError String :=
  match d.locate? path with
  | none => .error .missing
  | some name =>
      match d.fileAt? name with
      | none => .error .directory
      | some file =>
          match file.text with
          | some text => .ok text
          | none => .error .notText

/-- The absolute path of a name. -/
def pathOf (name : DiskName) : String := "/" ++ String.intercalate "/" name

/-- The absolute path of what a path stands for. -/
def canonical? (d : Disk) (path : String) : Option String := (d.locate? path).map pathOf

/-! ### Changes -/

/-- A directory and all above it. -/
def addDirectory (d : Disk) (name : DiskName) : Disk :=
  let chain := (List.range name.length).map fun n => name.take (n + 1)
  { d with directories := d.directories ++ chain.filter fun n => !d.directories.contains n }

/-- Make a directory with all above it. -/
def makeDirectory (d : Disk) (path : String) : Disk :=
  d.addDirectory ((Path.parts path).foldl follow d.workDirectory)

/-- Write a file, making the directories above it. -/
def write (d : Disk) (path : String) (file : DiskFile) : Disk :=
  let name := (Path.parts path).foldl follow d.workDirectory
  let d := d.addDirectory name.dropLast
  { d with files := (name, file) :: d.files.filter fun e => e.1 != name }

/-- Remove a file, or a directory with all it holds. -/
def remove (d : Disk) (path : String) : Disk :=
  match d.locate? path with
  | none => d
  | some name =>
      { d with
        files := d.files.filter fun e => !name.isPrefixOf e.1
        directories := d.directories.filter fun n => !name.isPrefixOf n }

/-! ### Listing -/

/-- The names of the files below a directory, relative to it. -/
def namesBelow (d : Disk) (directory : DiskName) : List DiskName :=
  d.files.filterMap fun e =>
    if directory.isPrefixOf e.1 then some (e.1.drop directory.length) else none

/-- The paths of the files below a directory, each written below the path as given. -/
def filesBelow (d : Disk) (path : String) : List String :=
  match (d.locate? path).filter d.isDirectoryAt with
  | some directory =>
      (d.namesBelow directory).map fun n => Path.join path (String.intercalate "/" n)
  | none => []

end Disk
end PhpAtlas
