import PhpAtlas.Text.Basic

/-!
# Settings as trees

The data of a TOML document.  A table remembers how it came to be, because that decides whether it
may be opened again or extended.

## Main definitions

* `TomlScalar`, `Toml` — values.
* `TomlTable.enter` — change the table at the end of a path.
* `TomlTable.putPair`, `TomlTable.openTable`, `TomlTable.openElement` — what a line does.
-/

namespace PhpAtlas

/-- A value without parts. -/
inductive TomlScalar
  | text (value : String)
  | integer (value : Int)
  | float
  | bool (value : Bool)
  /-- A date, a time, or both. -/
  | moment
  deriving DecidableEq, Repr

/-- How a table came to be. -/
inductive TableForm
  /-- By its own header. -/
  | header
  /-- As a part in front of a header. -/
  | implicit
  /-- By a key with dots. -/
  | dotted
  /-- In braces. -/
  | inline
  deriving DecidableEq, Repr

/-- Named values of a type, each name once. -/
structure TomlTableOf (τ : Type) where
  form : TableForm
  entries : List (String × τ)

/-- A value. -/
inductive Toml
  | scalar (value : TomlScalar)
  | array (items : List Toml)
  /-- The tables of headers in double brackets, the latest first. -/
  | elements (latest : TomlTableOf Toml) (earlier : List (TomlTableOf Toml))
  | table (table : TomlTableOf Toml)

/-- Named values. -/
abbrev TomlTable := TomlTableOf Toml

namespace TomlTable

/-- The table of a form without values. -/
def empty (form : TableForm) : TomlTable := ⟨form, []⟩

/-- The value under a key. -/
def get? (t : TomlTable) (key : String) : Option Toml := t.entries.lookup key

/-- Enter a value under a key. -/
def set (t : TomlTable) (key : String) (value : Toml) : TomlTable :=
  ⟨t.form, t.entries.filter (fun e => e.1 != key) ++ [(key, value)]⟩

/-- The form of a table that a path makes on its way. -/
def passingForm (dotted : Bool) : TableForm := if dotted then .dotted else .implicit

/-- Whether a path may lead through a table.  A table in braces is closed, and a key with dots
does not lead through a table that has a header. -/
def admits (dotted : Bool) (t : TomlTable) : Bool :=
  t.form != .inline && !(dotted && t.form == .header)

/-- Change the table at the end of a path, making the tables on the way.  A path leads into the
latest of several elements. -/
def enter (dotted : Bool) (change : TomlTable → Option TomlTable) :
    List String → TomlTable → Option TomlTable
  | [], t => change t
  | key :: path, t =>
      match t.get? key with
      | none => do
          let child ← enter dotted change path (empty (passingForm dotted))
          return t.set key (.table child)
      | some (.table child) =>
          if admits dotted child then do
            return t.set key (.table (← enter dotted change path child))
          else none
      | some (.elements latest earlier) => do
          return t.set key (.elements (← enter dotted change path latest) earlier)
      | some _ => none

/-- Add a value under a new key to the table at the end of a path.  A path leads to a table that
such paths have made, and no path to any other. -/
def putPair (path : List String) (key : String) (value : Toml) (t : TomlTable) :
    Option TomlTable :=
  enter (!path.isEmpty) (fun t =>
    if (t.form == .dotted) == path.isEmpty || (t.get? key).isSome then none
    else some (t.set key value)) path t

/-- Open a table by its header: it is new, or was only passed through by headers. -/
def openTable (path : List String) (key : String) (t : TomlTable) : Option TomlTable :=
  enter false (fun t =>
    match t.get? key with
    | none => some (t.set key (.table (empty .header)))
    | some (.table ⟨.implicit, entries⟩) => some (t.set key (.table ⟨.header, entries⟩))
    | some _ => none) path t

/-- Add an element by its header in double brackets. -/
def openElement (path : List String) (key : String) (t : TomlTable) : Option TomlTable :=
  enter false (fun t =>
    match t.get? key with
    | none => some (t.set key (.elements (empty .header) []))
    | some (.elements latest earlier) =>
        some (t.set key (.elements (empty .header) (latest :: earlier)))
    | some _ => none) path t

end TomlTable
end PhpAtlas
