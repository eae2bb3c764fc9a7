import PhpAtlas.Text.Basic

/-!
# Paths

A path is a text whose parts are divided by `/`.  Two paths are compared by their parts: repeated
dividers and parts `.` vanish, except that a relative path may start with `.`, and `..` is a part
like any other.

## Main definitions

* `PathPart`, `Path.parts` — the parts of a path.
* `Path.startsWith` — one path lies in another.
* `Path.join`, `Path.parent?`, `Path.ancestors` — paths from paths.
* `Path.extension?` — the extension of the last part.
-/

namespace PhpAtlas

/-- A part of a path. -/
inductive PathPart
  | root
  /-- The directory itself, at the start of a relative path. -/
  | here
  /-- The directory above. -/
  | up
  | name (text : String)
  deriving DecidableEq, Repr

namespace PathPart

/-- The part that a piece between dividers stands for, if it counts. -/
def ofPiece? (piece : Text) : Option PathPart :=
  match piece with
  | [] | ['.'] => none
  | ['.', '.'] => some up
  | _ => some (name (String.ofList piece))

end PathPart

namespace Path

/-- The character between the parts of a path. -/
def divider : Char := '/'

/-- Whether a path starts at the root. -/
def isAbsolute (path : String) : Bool := path.toList.head? == some divider

/-- The pieces between dividers. -/
def pieces (path : String) : List Text := Text.splitAll (· == divider) path.toList

/-- The part in front: the root, or the directory itself. -/
def front (path : String) : List PathPart :=
  if isAbsolute path then [.root]
  else if (pieces path).head? == some ['.'] then [.here]
  else []

/-- The parts of a path. -/
def parts (path : String) : List PathPart :=
  front path ++ (pieces path).filterMap PathPart.ofPiece?

/-- Whether a path lies in another or is the same, compared by parts. -/
def startsWith (path base : String) : Bool := (parts base).isPrefixOf (parts path)

/-- A path below another; an absolute path stands by itself. -/
def join (base path : String) : String :=
  if isAbsolute path || base.isEmpty then path
  else if base.toList.getLast? == some divider then base ++ path
  else base ++ "/" ++ path

/-- Write the parts of a path. -/
def ofParts : List PathPart → String
  | .root :: ps => "/" ++ ofParts ps
  | ps => String.intercalate "/" (ps.map text)
where
  text : PathPart → String
    | .root => ""
    | .here => "."
    | .up => ".."
    | .name n => n

/-- The path without its last part; the root and the empty path have none. -/
def parent? (path : String) : Option String :=
  match (parts path).getLast? with
  | none | some .root => none
  | some _ => some (ofParts (parts path).dropLast)

/-- The path, then the paths above it. -/
def ancestors (path : String) : List String :=
  path :: above (parts path).length path
where
  above : Nat → String → List String
    | 0, _ => []
    | n + 1, p =>
        match parent? p with
        | some q => q :: above n q
        | none => []

/-- The extension of a name: what stands behind its last dot, unless nothing stands before it. -/
def nameExtension? (name : Text) : Option String :=
  match Text.splitLast? ['.'] name with
  | some (_ :: _, _ :: ext) => some (String.ofList ext)
  | _ => none

/-- The extension of the last part of a path. -/
def extension? (path : String) : Option String :=
  match (parts path).getLast? with
  | some (.name n) => nameExtension? n.toList
  | _ => none

/-- Whether a path can only mean a directory by the way it is written. -/
def endsAsDirectory (path : String) : Bool :=
  match (pieces path).reverse with
  | last :: _ :: _ => last.isEmpty || last == ['.']
  | _ => false

end Path
end PhpAtlas
