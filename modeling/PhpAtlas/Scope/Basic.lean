import PhpAtlas.Name

/-!
# Namespaces and imports

A file is divided into namespace scopes by lines.  A name context is what is in effect at one place:
the namespace and the imports declared up to there.  Aliases of constants are compared exactly and
all others without regard to ASCII case; the last matching import counts.

## Main definitions

* `Import`, `NamespaceScope` — what a file declares.
* `NameContext`, `NameContext.atLine` — what is in effect at a line.
* `NameContext.import?` — the import behind an alias.
-/

namespace PhpAtlas

/-- An alias in effect from its line to the end of its scope. -/
structure Import where
  kind : SymbolKind
  aliasName : String
  /-- The fully qualified name behind the alias. -/
  target : String
  line : Nat
  deriving DecidableEq, Repr

/-- The lines of one namespace; the global namespace has no name. -/
structure NamespaceScope where
  name : Option String
  startLine : Nat
  endLine : Nat
  imports : List Import
  deriving DecidableEq, Repr

/-- Whether a line belongs to a namespace; both ends do. -/
def NamespaceScope.hasLine (s : NamespaceScope) (line : Nat) : Bool :=
  s.startLine ≤ line && line ≤ s.endLine

/-- The namespace and the imports in effect at one place. -/
structure NameContext where
  space : Option String
  imports : List Import
  deriving DecidableEq, Repr

/-- The classlike around a place, with its parent class. -/
structure ClassScope where
  full : String
  parent : Option String
  deriving DecidableEq, Repr

namespace NameContext

/-- The global namespace without imports. -/
def global : NameContext := ⟨none, []⟩

/-- A namespace without imports; an empty name means the global one. -/
def ofNamespace (space : Option String) : NameContext :=
  ⟨(space.map Name.bare).filter (!·.isEmpty), []⟩

/-- Add an import. -/
def withImport (c : NameContext) (kind : SymbolKind) (aliasName target : String) : NameContext :=
  { c with imports := c.imports ++ [⟨kind, aliasName, Name.qualify target, 0⟩] }

/-- The context at a line: the last scope that holds it, with the imports declared up to it. -/
def atLine (scopes : List NamespaceScope) (line : Nat) : Option NameContext :=
  (scopes.reverse.find? (·.hasLine line)).map fun s =>
    ⟨s.name, s.imports.filter (·.line ≤ line)⟩

/-- Whether an import declares an alias. -/
def declares (kind : SymbolKind) (aliasName : String) (i : Import) : Bool :=
  i.kind == kind &&
    match kind with
    | .constant => i.aliasName == aliasName
    | _ => foldEq i.aliasName aliasName

/-- The last import that declares an alias. -/
def import? (c : NameContext) (kind : SymbolKind) (aliasName : String) : Option Import :=
  c.imports.reverse.find? (declares kind aliasName)

end NameContext
end PhpAtlas
