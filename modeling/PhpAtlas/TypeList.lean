import PhpAtlas.Text.Fold

/-!
# Lists of candidate types

A candidate type is a name as written together with its fully qualified form.  A type list is an
ordered union of them: a name already present, up to ASCII case, is not added again, so the first
discovery keeps its place.  The empty list means that nothing is known.

## Main definitions

* `TypeRef` — one candidate.
* `TypeList` — an ordered list of candidates.
* `TypeList.push`, `TypeList.extend`, `TypeList.ofList` — insertion without duplicates.
* `TypeList.remove`, `TypeList.filter`, `TypeList.withoutNull` — removal.
-/

namespace PhpAtlas

/-- One candidate type.  Keywords have the same text in both fields. -/
structure TypeRef where
  /-- The name as written. -/
  written : String
  /-- The fully qualified name, or the keyword. -/
  full : String
  deriving DecidableEq, Repr, Inhabited

namespace TypeRef

/-- A type that is a word of the language. -/
def keyword (word : String) : TypeRef := ⟨word, word⟩

/-- Whether a type is `null`, in any case. -/
def isNull (t : TypeRef) : Bool := foldEq t.full "null"

/-- Names that never stand for a classlike when they are written as a type. -/
def builtinWords : List String :=
  ["int", "integer", "float", "double", "string", "bool", "boolean", "array", "callable",
    "iterable", "object", "resource", "null", "true", "false", "mixed", "void", "never", "static",
    "$this", "array-key", "scalar", "numeric", "class-string", "callable-string", "numeric-string",
    "non-empty-string", "positive-int", "negative-int"]

/-- Whether a name never stands for a classlike, in any case. -/
def isBuiltin (name : String) : Bool := foldMem name builtinWords

end TypeRef

/-- An ordered union of candidate types. -/
structure TypeList where
  entries : List TypeRef
  deriving DecidableEq, Repr, Inhabited

namespace TypeList

/-- No candidates. -/
def empty : TypeList := ⟨[]⟩

/-- One candidate. -/
def single (t : TypeRef) : TypeList := ⟨[t]⟩

/-- One candidate that is a word of the language. -/
def keyword (word : String) : TypeList := single (TypeRef.keyword word)

/-- Whether there are no candidates. -/
def isEmpty (l : TypeList) : Bool := l.entries.isEmpty

/-- The number of candidates. -/
def size (l : TypeList) : Nat := l.entries.length

/-- The fully qualified names, in order. -/
def names (l : TypeList) : List String := l.entries.map (·.full)

/-- Whether a candidate has this fully qualified name, up to ASCII case. -/
def contains (l : TypeList) (full : String) : Bool := l.entries.any fun t => foldEq t.full full

/-- Add a candidate at the end unless its name is present. -/
def push (l : TypeList) (t : TypeRef) : TypeList :=
  if l.contains t.full then l else ⟨l.entries ++ [t]⟩

/-- Add candidates one after the other. -/
def extend (l : TypeList) (more : List TypeRef) : TypeList := more.foldl push l

/-- Keep the first occurrence of each name. -/
def ofList (ts : List TypeRef) : TypeList := empty.extend ts

/-- All candidates of the first list, then the new ones of the second. -/
def append (a b : TypeList) : TypeList := a.extend b.entries

/-- Keep the candidates that satisfy `p`. -/
def filter (p : TypeRef → Bool) (l : TypeList) : TypeList := ⟨l.entries.filter p⟩

/-- Remove the candidate with this fully qualified name, up to ASCII case. -/
def remove (l : TypeList) (full : String) : TypeList := l.filter fun t => !foldEq t.full full

/-- Remove `null`. -/
def withoutNull (l : TypeList) : TypeList := l.filter fun t => !t.isNull

end TypeList

end PhpAtlas
