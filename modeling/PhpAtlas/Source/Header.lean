import PhpAtlas.Doc.Comment
import PhpAtlas.Doc.Locate
import PhpAtlas.Source.Document
import PhpAtlas.Symbol

/-!
# What declarations say about themselves

## Main definitions

* `visibilityOf` — the visibility among modifiers.
* `ClassDecl.kind`, `ClassDecl.parentNames`, `ClassDecl.interfaceNames` — the head of a classlike.
* `Document.docFor` — the documentation of the node at an offset.
* `documentationOf` — the part of it that symbols keep.
* `classAt?` — the classlike around an offset.
-/

namespace PhpAtlas

/-- The first visibility among modifiers; members are public by default. -/
def visibilityOf : List Modifier → Visibility
  | [] => .pub
  | .priv :: _ => .priv
  | .prot :: _ => .prot
  | .pub :: _ => .pub
  | _ :: ms => visibilityOf ms

namespace ClassDecl

variable {ε σ : Type}

/-- Enumerations are classes. -/
def kind (d : ClassDecl ε σ) : ClassKind :=
  match d.form with
  | .cls | .enum _ => .cls
  | .interface => .interface
  | .trait => .trait

/-- Whether an enumeration is declared. -/
def isEnum (d : ClassDecl ε σ) : Bool :=
  match d.form with
  | .enum _ => true
  | _ => false

/-- The names behind `extends`: one for a class, any number for an interface. -/
def parentNames (d : ClassDecl ε σ) : List String :=
  match d.form with
  | .cls => (d.parents.take 1).map (·.text)
  | .interface => d.parents.map (·.text)
  | .trait | .enum _ => []

/-- The names behind `implements`.  An enumeration also implements the interface of its form. -/
def interfaceNames (d : ClassDecl ε σ) : List String :=
  match d.form with
  | .cls => d.interfaces.map (·.text)
  | .enum backed =>
      d.interfaces.map (·.text) ++ [if backed then "\\BackedEnum" else "\\UnitEnum"]
  | .interface | .trait => []

/-- Only a class can be abstract. -/
def isAbstract (d : ClassDecl ε σ) : Bool := d.form = .cls && d.modifiers.contains .abstract

/-- Enumerations are final. -/
def isFinal (d : ClassDecl ε σ) : Bool :=
  d.isEnum || (d.form = .cls && d.modifiers.contains .final)

end ClassDecl

/-- The documentation of a node and the offset at which it starts. -/
structure NodeDoc where
  comment : DocComment
  offset : Nat

/-- The documentation of the node that starts at an offset.  An annotation that names another
variable than the item is left out. -/
def Document.docFor (d : Document) (start : Nat) (item : Option String) : Option NodeDoc :=
  (Trivia.docBefore? d.text d.trivia start).map fun t =>
    ⟨DocComment.read t.text TagKind.all item, t.span.start⟩

/-- The part of a documentation that symbols keep. -/
def documentationOf : Option NodeDoc → Documentation
  | none => {}
  | some doc =>
      { short := doc.comment.short
        long := doc.comment.long
        deprecated := doc.comment.deprecated
        present := true
        inherits := doc.comment.inheritDoc }

/-- The classlike around an offset: the first statement that holds the offset decides, and
namespaces and blocks are entered. -/
def classAt? (offset : Nat) : List Stmt → Option (ClassDecl Expr Stmt)
  | [] => none
  | .space span _ _ inner :: rest =>
      if span.holds offset then classAt? offset inner else classAt? offset rest
  | .block ⟨span, inner⟩ :: rest =>
      if span.holds offset then classAt? offset inner else classAt? offset rest
  | .classlike d :: rest => if d.span.holds offset then some d else classAt? offset rest
  | s :: rest => if s.span.holds offset then none else classAt? offset rest

end PhpAtlas
