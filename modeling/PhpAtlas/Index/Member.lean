import PhpAtlas.Deduction.Basic

/-!
# The members of classlikes

Every member of a declaration becomes symbols on its own.  Parameters of a constructor that carry a
modifier are properties too, and the documentation of a classlike adds the members that it names
and that are not declared.

## Main definitions

* `Atlas.methods`, `Atlas.properties`, `Atlas.constants` — the symbols of a declared member.
* `Atlas.traitNames`, `Atlas.aliases`, `Atlas.precedences` — what a use of traits says.
* `Atlas.addMagic` — the members that documentation adds.
-/

namespace PhpAtlas

/-- A name without its leading `$`. -/
def withoutSigil (name : String) : String := String.ofList (Text.dropLeading '$' name.toList)

/-- A constructor parameter with a modifier or with accessors is a property. -/
def Parameter.isPromoted {ε : Type} (p : Parameter ε) : Bool := !p.modifiers.isEmpty || p.hooked

namespace Atlas

/-- The types that an annotation gives a name. -/
def annotatedTypes (a : Atlas) (site : Site) (doc : Option NodeDoc) (name : String) : TypeList :=
  match doc with
  | none => TypeList.empty
  | some doc =>
      match doc.comment.varFor? name with
      | some tag => a.known.resolveDocType (site.contextAt doc.offset) site.cls tag.type
      | none => TypeList.empty

/-- The types of a native type in front of a member. -/
def memberHint (a : Atlas) (site : Site) (start : Nat) (hint : Option Hint) : TypeList :=
  match hint with
  | some h => a.known.resolveHint (site.contextAt start) site.cls h
  | none => TypeList.empty

/-- The types of a value where it ends. -/
def valueTypes (a : Atlas) (site : Site) (value : Expr) : TypeList :=
  a.deduce site.doc value.span.stop value

/-! ### Methods -/

/-- A declared method. -/
def methodSymbol (a : Atlas) (site : Site) (owner : String) (kind : ClassKind)
    (d : FunctionDecl Expr Stmt) : MethodSymbol :=
  let doc := site.doc.docFor d.span.start none
  { name := d.name.text
    owner := owner
    visibility := visibilityOf d.modifiers
    static := d.modifiers.contains .static
    abstract := d.modifiers.contains .abstract || kind == .interface
    final := d.modifiers.contains .final
    magic := false
    line := site.doc.lineAt d.span.start
    parameters := a.known.parameters site doc d.parameters
    returns := a.known.returnTypes site doc d.returns
    throws := a.known.throwTypes site doc
    documentation := documentationOf doc }

/-- The methods of a member. -/
def methods (a : Atlas) (site : Site) (owner : String) (kind : ClassKind) :
    Member Expr Stmt → List MethodSymbol
  | .method d => [a.methodSymbol site owner kind d]
  | _ => []

/-! ### Properties -/

/-- The property that a constructor parameter declares. -/
def promoted (a : Atlas) (site : Site) (owner : String) (doc : Option NodeDoc)
    (p : Parameter Expr) : PropertySymbol :=
  let symbol := a.known.parameter site doc p
  { name := withoutSigil symbol.name
    owner := owner
    visibility := visibilityOf p.modifiers
    static := false
    magic := false
    readable := true
    writable := true
    line := site.doc.lineAt p.span.start
    default := symbol.default
    types := symbol.types
    documentation := { short := symbol.description } }

/-- A declared property. -/
def propertySymbol (a : Atlas) (site : Site) (owner : String) (start : Nat)
    (modifiers : List Modifier) (hint : Option Hint) (name : String) : PropertySymbol :=
  let doc := site.doc.docFor start (some name)
  { name := withoutSigil name
    owner := owner
    visibility := visibilityOf modifiers
    static := modifiers.contains .static
    magic := false
    readable := true
    writable := true
    line := site.doc.lineAt start
    default := none
    types := Known.firstKnown (a.annotatedTypes site doc name) (a.memberHint site start hint)
    documentation := documentationOf doc }

/-- The properties of a member. -/
def properties (a : Atlas) (site : Site) (owner : String) :
    Member Expr Stmt → List PropertySymbol
  | .method d =>
      if foldEq d.name.text "__construct" then
        (d.parameters.filter Parameter.isPromoted).map
          (a.promoted site owner (site.doc.docFor d.span.start none))
      else []
  | .property span modifiers hint items _ =>
      items.map fun item =>
        a.propertySymbol site owner span.start modifiers hint item.name.text
  | _ => []

/-! ### Constants -/

/-- The text and the types of the value of an item. -/
def itemText (site : Site) (item : Item Expr) : String :=
  match item.value with
  | some value => site.doc.textOf value.span
  | none => ""

/-- The types of the value of an item. -/
def itemTypes (a : Atlas) (site : Site) (item : Item Expr) : TypeList :=
  match item.value with
  | some value => a.valueTypes site value
  | none => TypeList.empty

/-- A declared constant: annotated types win over the native type, and that over the value. -/
def constantSymbol (a : Atlas) (site : Site) (owner : String) (start : Nat)
    (modifiers : List Modifier) (hint : Option Hint) (item : Item Expr) : ClassConstantSymbol :=
  let doc := site.doc.docFor start none
  { name := item.name.text
    owner := owner
    visibility := visibilityOf modifiers
    line := site.doc.lineAt item.name.span.start
    value := itemText site item
    types := Known.firstKnown (a.annotatedTypes site doc item.name.text)
      (Known.firstKnown (a.memberHint site start hint) (a.itemTypes site item))
    documentation := documentationOf doc }

/-- A case of an enumeration, which has the type of the enumeration. -/
def caseSymbol (site : Site) (owner short : String) (start : Nat) (item : Item Expr) :
    ClassConstantSymbol :=
  { name := item.name.text
    owner := owner
    visibility := .pub
    line := site.doc.lineAt start
    value := ""
    types := TypeList.single ⟨short, owner⟩
    documentation := documentationOf (site.doc.docFor start none) }

/-- The constants of a member. -/
def constants (a : Atlas) (site : Site) (owner short : String) :
    Member Expr Stmt → List ClassConstantSymbol
  | .constant span modifiers hint items =>
      items.map (a.constantSymbol site owner span.start modifiers hint)
  | .enumCase span item => [caseSymbol site owner short span.start item]
  | _ => []

/-! ### Traits -/

/-- The fully qualified name of a classlike at an offset. -/
def qualified (a : Atlas) (site : Site) (offset : Nat) (name : String) : String :=
  a.known.resolve (site.contextAt offset) .classlike name

/-- The traits that a member uses. -/
def traitNames (a : Atlas) (site : Site) : Member Expr Stmt → List String
  | .traitUse span names _ => names.map fun r => a.qualified site span.start r.text
  | _ => []

/-- The visibility that a renamed method gets. -/
def aliasVisibility : Modifier → Visibility
  | .priv => .priv
  | .prot => .prot
  | _ => .pub

/-- The alias that an adaptation declares, with the trait under its full name. -/
def aliasOf? (a : Atlas) (site : Site) (start : Nat) : Adaptation → Option TraitAlias
  | .rename owner method newName visibility =>
      some ⟨owner.map (a.qualified site start), method, newName, visibility.map aliasVisibility⟩
  | .insteadOf .. => none

/-- The precedence that an adaptation declares, with the traits under their full names. -/
def precedenceOf? (a : Atlas) (site : Site) (start : Nat) : Adaptation → Option TraitPrecedence
  | .insteadOf owner method others =>
      some ⟨a.qualified site start owner, method, others.map (a.qualified site start)⟩
  | .rename .. => none

/-- The methods that a member renames. -/
def aliases (a : Atlas) (site : Site) : Member Expr Stmt → List TraitAlias
  | .traitUse span _ adaptations => adaptations.filterMap (a.aliasOf? site span.start)
  | _ => []

/-- The methods that a member prefers. -/
def precedences (a : Atlas) (site : Site) : Member Expr Stmt → List TraitPrecedence
  | .traitUse span _ adaptations => adaptations.filterMap (a.precedenceOf? site span.start)
  | _ => []

/-! ### Documented members -/

/-- The types of an optional documentation type. -/
def optionalTypes (a : Atlas) (site : Site) (offset : Nat) (t : Option DocType) : TypeList :=
  match t with
  | some t => a.known.resolveDocType (site.contextAt offset) site.cls t
  | none => TypeList.empty

/-- A property that exists by documentation only. -/
def magicProperty (a : Atlas) (site : Site) (owner : String) (offset : Nat)
    (tag : PropertyTag) : PropertySymbol :=
  { name := tag.name
    owner := owner
    visibility := .pub
    static := false
    magic := true
    readable := tag.readable
    writable := tag.writable
    line := site.doc.lineAt offset
    default := none
    types := a.optionalTypes site offset tag.type
    documentation := { short := tag.description } }

/-- A parameter of a method that exists by documentation only. -/
def magicParameter (a : Atlas) (site : Site) (offset : Nat) (tag : MethodTagParam) :
    ParameterSymbol :=
  let types := a.optionalTypes site offset tag.type
  { name := tag.name
    types := types
    default := tag.default
    nullable := types.entries.any TypeRef.isNull
    byRef := tag.byRef
    variadic := tag.variadic
    description := "" }

/-- A method that exists by documentation only. -/
def magicMethod (a : Atlas) (site : Site) (owner : String) (offset : Nat) (tag : MethodTag) :
    MethodSymbol :=
  { name := tag.name
    owner := owner
    visibility := .pub
    static := tag.static
    abstract := false
    final := false
    magic := true
    line := site.doc.lineAt offset
    parameters := tag.parameters.map (a.magicParameter site offset)
    returns := a.optionalTypes site offset tag.returns
    throws := TypeList.empty
    documentation := { short := tag.description } }

/-- Add a property unless one has its name. -/
def addProperty (c : ClasslikeSymbol) (p : PropertySymbol) : ClasslikeSymbol :=
  if c.properties.any (·.name == p.name) then c
  else { c with properties := c.properties ++ [p] }

/-- Add a method unless one has its name. -/
def addMethod (c : ClasslikeSymbol) (m : MethodSymbol) : ClasslikeSymbol :=
  if (c.method? m.name).isSome then c else { c with methods := c.methods ++ [m] }

/-- Add the members that documentation names and that are not there yet. -/
def addMagic (a : Atlas) (site : Site) (doc : Option NodeDoc) (c : ClasslikeSymbol) :
    ClasslikeSymbol :=
  match doc with
  | none => c
  | some doc =>
      let c := (doc.comment.properties.map (a.magicProperty site c.full doc.offset)).foldl
        addProperty c
      (doc.comment.methods.map (a.magicMethod site c.full doc.offset)).foldl addMethod c

end Atlas
end PhpAtlas
