import PhpAtlas.Scope.Basic
import PhpAtlas.Source.Document

/-!
# The namespace scopes of a document

A file without namespaces is one global scope.  Otherwise each namespace is a scope: in braces it
covers its own lines, without braces it runs to the line before the next one.  Code in front of the
first namespace is in a global scope of its own.

## Main definitions

* `registerImport` — enter one imported name; a later alias replaces an earlier one.
* `Document.scopes` — the scopes of a document.
* `Document.contextAt` — what is in effect at an offset.
-/

namespace PhpAtlas

/-- The name behind an import, without a leading backslash. -/
def UseItem.target (item : UseItem) : String :=
  let own := String.ofList (Text.dropLeading Name.separator item.name.toList)
  match item.group with
  | some group => Name.bare group ++ "\\" ++ own
  | none => own

/-- The alias that an import declares. -/
def UseItem.aliasName (item : UseItem) : String := item.newName.getD (Name.short item.target)

/-- Enter an imported name.  An alias of the same kind is replaced, whatever its case. -/
def registerImport (line : Nat) (imports : List Import) (item : UseItem) : List Import :=
  let name := item.aliasName
  imports.filter (fun i => !(i.kind == item.kind && foldEq i.aliasName name)) ++
    [⟨item.kind, name, Name.qualify item.target, line⟩]

/-- One namespace of a file. -/
structure NamespaceNode where
  span : Span
  name : Option String
  braced : Bool
  statements : List Stmt

/-- The namespace that a statement declares. -/
def Stmt.namespace? : Stmt → Option NamespaceNode
  | .space span name braced statements => some ⟨span, name, braced, statements⟩
  | _ => none

/-- Whether a statement in front of the first namespace calls for a global scope. -/
def Stmt.needsScope : Stmt → Bool
  | .use .. | .classlike .. | .function .. | .constants .. | .expression .. => true
  | _ => false

namespace Document

/-- The imports of a list of statements. -/
def imports (d : Document) (statements : List Stmt) : List Import :=
  statements.foldl
    (fun acc s =>
      match s with
      | .use span items => items.foldl (registerImport (d.lineAt span.start)) acc
      | _ => acc)
    []

/-- The name of a namespace without leading backslashes; an empty one is the global namespace. -/
def namespaceName (name : Option String) : Option String :=
  (name.map fun n => String.ofList (Text.dropLeading Name.separator n.toList)).filter (!·.isEmpty)

/-- The last line of the file. -/
def lastLine (d : Document) : Nat := d.lineAt (Text.byteLength d.text)

/-- The scopes of a list of namespaces. -/
def namespaceScopes (d : Document) : List NamespaceNode → List NamespaceScope
  | [] => []
  | n :: rest =>
      let startLine := d.lineAt n.span.start
      let endLine :=
        if n.braced then d.lineAt n.span.stop
        else
          match rest with
          | [] => d.lastLine
          | m :: _ => max (d.lineAt m.span.start - 1) startLine
      ⟨namespaceName n.name, startLine, endLine, d.imports n.statements⟩ :: namespaceScopes d rest

/-- The scope of the code in front of the first namespace. -/
def leadingScope (d : Document) (first : NamespaceNode) : List NamespaceScope :=
  let leading := (d.statements.takeWhile fun s => s.namespace?.isNone).filter Stmt.needsScope
  let firstLine := d.lineAt first.span.start
  if !leading.isEmpty && 1 < firstLine then [⟨none, 1, firstLine - 1, d.imports leading⟩] else []

/-- The namespace scopes of a document. -/
def scopes (d : Document) : List NamespaceScope :=
  match d.statements.filterMap Stmt.namespace? with
  | [] => [⟨none, 1, d.lastLine, d.imports d.statements⟩]
  | first :: rest => d.leadingScope first ++ d.namespaceScopes (first :: rest)

/-- What is in effect at an offset. -/
def contextAt (d : Document) (scopes : List NamespaceScope) (offset : Nat) : NameContext :=
  (NameContext.atLine scopes (d.lineAt offset)).getD NameContext.global

end Document
end PhpAtlas
