import PhpAtlas.Json.Basic

/-!
# Settings

## Main definitions

* `LintSettings` — which reports are wanted.
* `Config` — the settings of a project.
-/

namespace PhpAtlas

/-- Which reports are wanted; by default all are. -/
structure LintSettings where
  syntaxErrors : Bool := true
  unknownClasses : Bool := true
  unknownFunctions : Bool := true
  unknownConstants : Bool := true
  unknownMembers : Bool := true
  deriving DecidableEq, Repr, Inhabited

/-- The settings of a project. -/
structure Config where
  /-- The extensions of files that are indexed. -/
  extensions : List String := ["php"]
  /-- The paths below a root that are never indexed. -/
  exclude : List String := []
  /-- How deep a question may go. -/
  maxDepth : Nat := 32
  lint : LintSettings := {}
  deriving DecidableEq, Repr, Inhabited

/-- The settings of the linter as data. -/
def LintSettings.toJson (s : LintSettings) : Json :=
  .object
    [("syntax_errors", .bool s.syntaxErrors), ("unknown_classes", .bool s.unknownClasses),
      ("unknown_constants", .bool s.unknownConstants),
      ("unknown_functions", .bool s.unknownFunctions),
      ("unknown_members", .bool s.unknownMembers)]

/-- The settings as data. -/
def Config.toJson (c : Config) : Json :=
  .object
    [("exclude", Json.texts c.exclude), ("extensions", Json.texts c.extensions),
      ("linting", c.lint.toJson), ("max_depth", .number c.maxDepth)]

end PhpAtlas
