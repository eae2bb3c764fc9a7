import PhpAtlas.Ancestry.Resolve
import PhpAtlas.Signature
import PhpAtlas.Store.Basic

/-!
# What questions are answered from

## Main definitions

* `Atlas` — the symbols of a project and how deep a question may go.
* `Atlas.known`, `Atlas.flat?` — what it knows of a name.
* `Atlas.classScope`, `Atlas.siteAt` — the place of an offset in a document.
-/

namespace PhpAtlas

/-- The symbols of a project, and how deep a question about them may go. -/
structure Atlas where
  tables : Tables
  maxDepth : Nat

namespace Atlas

/-- Whether a symbol is declared. -/
def known (a : Atlas) : Known := a.tables.knows

/-- The flat view of a classlike. -/
def flat? (a : Atlas) (name : String) : Option FlatClass := a.tables.flat? a.maxDepth name

/-- The class that a class declaration extends, fully qualified. -/
def parentOf (a : Atlas) (c : NameContext) (d : ClassDecl Expr Stmt) : Option String :=
  match d.kind with
  | .cls => d.parentNames.head?.map (a.known.resolve c .classlike)
  | _ => none

/-- What `self` and `parent` stand for in a classlike. -/
def classScope (a : Atlas) (doc : Document) (scopes : List NamespaceScope)
    (d : ClassDecl Expr Stmt) : ClassScope :=
  let c := doc.contextAt scopes d.span.start
  ⟨Name.join c.space d.name, a.parentOf c d⟩

/-- The place of an offset in a document. -/
def siteAt (a : Atlas) (doc : Document) (offset : Nat) : Site :=
  let scopes := doc.scopes
  ⟨doc, scopes, (classAt? offset doc.statements).map (a.classScope doc scopes)⟩

end Atlas
end PhpAtlas
