import PhpAtlas.Text.Fold

/-!
# Symbol names

A symbol name is a string of segments separated by backslashes.  A leading backslash makes it fully
qualified.  Classlikes and functions are looked up without regard to ASCII case, so their table key
is the folded fully qualified name.

## Main definitions

* `Name.isStart`, `Name.isRest` — the characters of a segment.
* `Name.short` — the last segment.
* `Name.qualify` — add the leading backslash.
* `Name.join` — put a name into a namespace.
* `Name.key` — the key of a name that is compared without regard to case.
-/

namespace PhpAtlas

/-- What a name stands for. -/
inductive SymbolKind
  | classlike
  | function
  | constant
  deriving DecidableEq, Repr, Inhabited

namespace Name

/-- The separator of segments. -/
def separator : Char := '\\'

/-- A character that may start a segment: an ASCII letter, an underscore, or not ASCII. -/
def isStart (c : Char) : Bool := c.isAlpha || c == '_' || 128 ≤ c.toNat

/-- A character that may continue a segment. -/
def isRest (c : Char) : Bool := isStart c || c.isDigit

/-- The last segment of a name. -/
def short (name : String) : String :=
  String.ofList (name.toList.reverse.takeWhile (· != separator)).reverse

/-- Whether a name is written with a leading backslash. -/
def isQualified (name : String) : Bool := name.toList.head? == some separator

/-- Add the leading backslash unless the name has one. -/
def qualify (name : String) : String :=
  if isQualified name then name else "\\" ++ name

/-- Drop all backslashes at both ends. -/
def bare (name : String) : String :=
  String.ofList (Text.dropTrailing separator (Text.dropLeading separator name.toList))

/-- The fully qualified form of a name in a namespace; an empty namespace is the global one. -/
def join (space : Option String) (name : String) : String :=
  match space.map bare with
  | none => "\\" ++ name
  | some ns => if ns.isEmpty then "\\" ++ name else "\\" ++ ns ++ "\\" ++ name

/-- Classlikes and functions are stored under the folded fully qualified name. -/
def key (name : String) : String := fold (qualify name)

/-- Whether the name has more than one segment, or a leading backslash. -/
def hasSeparator (name : String) : Bool := name.toList.contains separator

end Name

end PhpAtlas
