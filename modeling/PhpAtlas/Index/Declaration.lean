import PhpAtlas.Index.Member

/-!
# The declarations of a document

Declarations are found at the top level, in namespaces, in blocks and in the branches of
conditionals; the bodies of functions are not entered.

## Main definitions

* `Declaration` — a function, a constant, a defined constant, or a classlike.
* `declarations` — the declarations among statements, in order.
* `Atlas.functionOf`, `Atlas.constantOf`, `Atlas.definedOf`, `Atlas.classlikeOf` — their symbols.
* `Declaration.op` — the store operation that records a declaration.
-/

namespace PhpAtlas

/-- A declaration that becomes a global symbol. -/
inductive Declaration
  | function (decl : FunctionDecl Expr Stmt)
  /-- One constant of the statement that starts at `start`. -/
  | constant (start : Nat) (item : Item Expr)
  /-- A constant made by a call in the statement that starts at `start`. -/
  | defined (start : Nat) (offset : Nat) (name : String) (value : Expr)
  | classlike (decl : ClassDecl Expr Stmt)

/-- The name and the value in a call that defines a constant: the name is a literal. -/
def definition? : Expr → Option (String × Expr)
  | .call _ (.function (.name r)) (first :: second :: _) =>
      if foldEq (String.ofList (Text.dropLeading Name.separator r.text.toList)) "define" then
        match first.value?, second.value? with
        | some (.literal _ (.string text)), some value =>
            let name := Text.dropLeading Name.separator text.toList
            if name.isEmpty then none else some (String.ofList name, value)
        | _, _ => none
      else none
  | _ => none

mutual

/-- The declarations among statements, in order. -/
def declarations : List Stmt → List Declaration
  | [] => []
  | s :: rest => declarationsOf s ++ declarations rest

/-- The declarations of a statement. -/
def declarationsOf : Stmt → List Declaration
  | .space _ _ _ inner => declarations inner
  | .block ⟨_, inner⟩ => declarations inner
  | .cond _ branches => branchDeclarations branches
  | .function d => [.function d]
  | .constants span items => items.map (.constant span.start)
  | .expression span e =>
      match definition? e with
      | some (name, value) => [.defined span.start e.span.start name value]
      | none => []
  | .classlike d => [.classlike d]
  | _ => []

/-- The declarations in branches. -/
def branchDeclarations : List (Branch Expr Stmt) → List Declaration
  | [] => []
  | ⟨_, ⟨_, inner⟩⟩ :: rest => declarations inner ++ branchDeclarations rest

end

namespace Atlas

/-- The symbol of a function. -/
def functionOf (a : Atlas) (site : Site) (d : FunctionDecl Expr Stmt) : FunctionSymbol :=
  let doc := site.doc.docFor d.span.start none
  { full := Name.join (site.contextAt d.span.start).space d.name.text
    name := d.name.text
    file := site.doc.path
    startLine := site.doc.lineAt d.span.start
    endLine := site.doc.lineAt d.span.stop
    parameters := a.known.parameters site doc d.parameters
    returns := a.known.returnTypes site doc d.returns
    throws := a.known.throwTypes site doc
    documentation := documentationOf doc }

/-- The symbol of a constant. -/
def constantOf (a : Atlas) (site : Site) (start : Nat) (item : Item Expr) : ConstantSymbol :=
  let doc := site.doc.docFor start none
  let name := item.name.text
  let offset := item.name.span.start
  { full := Name.join (site.contextAt offset).space name
    name := name
    file := site.doc.path
    line := site.doc.lineAt offset
    value := itemText site item
    types := Known.firstKnown (a.annotatedTypes site doc name) (a.itemTypes site item)
    documentation := documentationOf doc }

/-- The symbol of a constant that a call defines; its name is taken as qualified. -/
def definedOf (a : Atlas) (site : Site) (start offset : Nat) (name : String) (value : Expr) :
    ConstantSymbol :=
  let doc := site.doc.docFor start none
  let short := Name.short name
  { full := Name.qualify name
    name := short
    file := site.doc.path
    line := site.doc.lineAt offset
    value := site.doc.textOf value.span
    types := Known.firstKnown (a.annotatedTypes site doc short) (a.valueTypes site value)
    documentation := documentationOf doc }

/-- The symbol of a classlike, without the members that its documentation adds. -/
def declaredClasslike (a : Atlas) (site : Site) (scope : ClassScope) (doc : Option NodeDoc)
    (d : ClassDecl Expr Stmt) : ClasslikeSymbol :=
  let resolve := a.qualified site d.span.start
  { full := scope.full
    name := d.name
    kind := d.kind
    file := site.doc.path
    startLine := site.doc.lineAt d.span.start
    endLine := site.doc.lineAt d.span.stop
    documentation := documentationOf doc
    abstract := d.isAbstract
    final := d.isFinal
    enumeration := d.isEnum
    parents := d.parentNames.map resolve
    interfaces := d.interfaceNames.map resolve
    traits := DocType.addNew [] (d.members.flatMap (a.traitNames site))
    aliases := d.members.flatMap (a.aliases site)
    precedences := d.members.flatMap (a.precedences site)
    constants := d.members.flatMap (a.constants site scope.full d.name)
    properties := d.members.flatMap (a.properties site scope.full)
    methods := d.members.flatMap (a.methods site scope.full d.kind) }

/-- The symbol of a classlike. -/
def classlikeOf (a : Atlas) (site : Site) (d : ClassDecl Expr Stmt) : ClasslikeSymbol :=
  let scope := a.classScope site.doc site.scopes d
  let site := { site with cls := some scope }
  let doc := site.doc.docFor d.span.start none
  a.addMagic site doc (a.declaredClasslike site scope doc d)

end Atlas

/-- The store operation that records a declaration. -/
def Declaration.op (a : Atlas) (site : Site) : Declaration → StoreOp
  | .function d => .putFunction (a.functionOf site d)
  | .constant start item => .putConstant (a.constantOf site start item)
  | .defined start offset name value => .putConstant (a.definedOf site start offset name value)
  | .classlike d => .putClasslike (a.classlikeOf site d)

end PhpAtlas
