import PhpAtlas.Config.Basic
import PhpAtlas.Disk
import PhpAtlas.Text.Fold
import PhpAtlas.Toml.Document

/-!
# Reading settings

Missing settings have their defaults and unknown ones do not count, but a setting of a wrong type
makes the whole document useless.  A section may also be written as an array of its settings in
their fixed order.

## Main definitions

* `Config.parse` — the settings in a document.
* `Config.load` — the settings of a project.
* `Config.isIndexable`, `Config.isExcluded` — which files are indexed.
-/

namespace PhpAtlas

namespace Toml

/-- The settings of a section: by place in an array, and by name in a table. -/
def section? : Toml → Option (Nat → String → Option Toml)
  | .table t => some fun _ name => TomlTable.get? t name
  | .array items => some fun place _ => items[place]?
  | .elements latest earlier =>
      some fun place _ => ((latest :: earlier).reverse[place]?).map .table
  | .scalar .moment => some fun _ _ => none
  | .scalar _ => none

/-- A string. -/
def text? : Toml → Option String
  | .scalar (.text s) => some s
  | _ => none

/-- A truth value. -/
def bool? : Toml → Option Bool
  | .scalar (.bool b) => some b
  | _ => none

/-- A number of 64 bits without a sign. -/
def natural? : Toml → Option Nat
  | .scalar (.integer n) => if 0 ≤ n && n < 1 <<< 64 then some n.toNat else none
  | _ => none

/-- An array of strings and nothing else. -/
def texts? : Toml → Option (List String)
  | .array items => items.mapM text?
  | _ => none

/-- A setting, or its default if it is missing. -/
def setting {α : Type} (read : Toml → Option α) (default : α) (value : Option Toml) : Option α :=
  match value with
  | some v => read v
  | none => some default

end Toml

namespace Config

open Toml

/-- The section for reports. -/
def readLint (v : Toml) : Option LintSettings := do
  let s ← section? v
  return {
    syntaxErrors := ← setting bool? true (s 0 "syntax_errors")
    unknownClasses := ← setting bool? true (s 1 "unknown_classes")
    unknownFunctions := ← setting bool? true (s 2 "unknown_functions")
    unknownConstants := ← setting bool? true (s 3 "unknown_constants")
    unknownMembers := ← setting bool? true (s 4 "unknown_members") }

/-- The section for indexing: extensions and excluded paths. -/
def readIndexing (v : Toml) : Option (List String × List String) := do
  let s ← section? v
  let defaults : Config := {}
  return (← setting texts? defaults.extensions (s 0 "extensions"),
    ← setting texts? defaults.exclude (s 1 "exclude"))

/-- The section for resolution: how deep a question may go. -/
def readResolution (v : Toml) : Option Nat := do
  let s ← section? v
  let defaults : Config := {}
  setting natural? defaults.maxDepth (s 0 "max_depth")

/-- The settings in a document. -/
def parse (source : String) : Option Config := do
  let t ← Toml.parse source
  let defaults : Config := {}
  let (extensions, exclude) ←
    setting readIndexing (defaults.extensions, defaults.exclude) (t.get? "indexing")
  return {
    extensions := extensions
    exclude := exclude
    maxDepth := ← setting readResolution defaults.maxDepth (t.get? "resolution")
    lint := ← setting readLint {} (t.get? "linting") }

/-! ### Where settings are found -/

/-- The file with the settings of a project. -/
def projectFile : String := ".phpantom.toml"

/-- The file with the settings of a user, below the directory for settings. -/
def userFile : String := "phpantom/config.toml"

/-- The settings in a file, if it can be read. -/
def loadFile (d : Disk) (path : String) : Option Config := (d.read path).toOption.bind parse

/-- The settings of a project: its own, else those of the user, else the defaults. -/
def load (d : Disk) (root : String) : Config :=
  ((loadFile d (Path.join root projectFile)).or
    (d.settingsDirectory.bind fun dir => loadFile d (Path.join dir userFile))).getD {}

/-! ### Which files are indexed -/

/-- Whether a path has one of the extensions, which may be written with a dot. -/
def isIndexable (c : Config) (path : String) : Bool :=
  match Path.extension? path with
  | some ext =>
      c.extensions.any fun e => foldEq (String.ofList (Text.dropLeading '.' e.toList)) ext
  | none => false

/-- Whether a path lies in one of the excluded paths below a root. -/
def isExcluded (c : Config) (root path : String) : Bool :=
  c.exclude.any fun e => Path.startsWith path (Path.join root e)

end Config
end PhpAtlas
