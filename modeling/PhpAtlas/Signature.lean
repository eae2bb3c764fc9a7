import PhpAtlas.Scope.Collect
import PhpAtlas.Scope.Resolve
import PhpAtlas.Source.Header

/-!
# The types of signatures

The types of a parameter or of a result come from the documentation, else from the native type,
else from the default value.  Documented types are resolved where the comment stands and native
ones where the declaration stands.

## Main definitions

* `Site` — a document with its scopes and the classlike around a declaration.
* `Hint.members`, `Known.resolveHint` — the types of a native type.
* `Expr.literalTypes` — the types of an expression that need no context.
* `Known.parameter`, `Known.returnTypes`, `Known.throwTypes` — the parts of a signature.
-/

namespace PhpAtlas

/-- Where the names of a declaration are resolved. -/
structure Site where
  doc : Document
  scopes : List NamespaceScope
  cls : Option ClassScope

/-- The namespace and the imports at an offset of the document. -/
def Site.contextAt (s : Site) (offset : Nat) : NameContext := s.doc.contextAt s.scopes offset

/-! ### Native types -/

/-- The alternatives of a native type.  A question mark adds `null`, and of an intersection only
the first member counts. -/
def Hint.members : Hint → List String
  | .nullable h =>
      let ms := h.members
      if foldMem "null" ms then ms else ms ++ ["null"]
  | .union a b => DocType.addNew a.members b.members
  | .intersection a _ => a.members
  | .group h => h.members
  | .name r => [r.text]
  | .keyword w => [w]

/-! ### Literals -/

/-- The type of a literal. -/
def Literal.type : Literal → String
  | .string _ => "string"
  | .integer => "int"
  | .float => "float"
  | .true | .false => "bool"
  | .null => "null"

/-- The type of a number behind a sign. -/
def Expr.numberType? : Expr → Option String
  | .literal _ .integer => some "int"
  | .literal _ .float => some "float"
  | _ => none

/-- The type of the constants that are literals under a qualified name. -/
def constantType? (name : String) : Option String :=
  match fold (String.ofList (Text.dropLeading Name.separator name.toList)) with
  | "true" | "false" => some "bool"
  | "null" => some "null"
  | _ => none

/-- The type of an expression that needs no context. -/
def Expr.literalType? : Expr → Option String
  | .literal _ value => some value.type
  | .array .. => some "array"
  | .paren _ inner => inner.literalType?
  | .unary _ .not _ => some "bool"
  | .unary _ _ operand => operand.numberType?
  | .constant r => constantType? r.text
  | _ => none

/-- The types of an expression that need no context. -/
def Expr.literalTypes (e : Expr) : TypeList :=
  match e.literalType? with
  | some t => TypeList.keyword t
  | none => TypeList.empty

namespace Known

/-- The types that a native type stands for. -/
def resolveHint (known : Known) (c : NameContext) (cls : Option ClassScope) (h : Hint) :
    TypeList :=
  known.resolveTypes c cls h.members

/-! ### Signatures -/

/-- The types that the documentation gives a parameter. -/
def docParameterTypes (known : Known) (site : Site) (doc : Option NodeDoc) (name : String) :
    TypeList :=
  match doc with
  | none => TypeList.empty
  | some doc =>
      match (doc.comment.param? name).bind (·.type) with
      | some t => known.resolveDocType (site.contextAt doc.offset) site.cls t
      | none => TypeList.empty

/-- The types that the native type gives a parameter; a default of `null` adds `null`. -/
def hintParameterTypes (known : Known) (site : Site) (p : Parameter Expr) (nullDefault : Bool) :
    TypeList :=
  match p.hint with
  | none => TypeList.empty
  | some h =>
      let types := known.resolveHint (site.contextAt p.span.start) site.cls h
      if nullDefault then types.push (TypeRef.keyword "null") else types

/-- The types that the default value gives a parameter. -/
def defaultParameterTypes (p : Parameter Expr) : TypeList :=
  match p.default with
  | some e => e.literalTypes
  | none => TypeList.empty

/-- The first list that is not empty, else the last. -/
def firstKnown (a b : TypeList) : TypeList := if a.isEmpty then b else a

/-- An array of a type. -/
def arrayOf (t : TypeRef) : TypeRef := ⟨t.written ++ "[]", t.full ++ "[]"⟩

/-- What is known of a parameter. -/
def parameter (known : Known) (site : Site) (doc : Option NodeDoc) (p : Parameter Expr) :
    ParameterSymbol :=
  let default := p.default.map fun e => site.doc.textOf e.span
  let nullDefault := (default.map (foldEq · "null")).getD false
  let types := firstKnown (known.docParameterTypes site doc p.name)
    (firstKnown (known.hintParameterTypes site p nullDefault) (defaultParameterTypes p))
  let types := if p.variadic then TypeList.ofList (types.entries.map arrayOf) else types
  { name := p.name
    types := types
    default := default
    nullable := types.entries.any TypeRef.isNull
    byRef := p.byRef
    variadic := p.variadic
    description := ((doc.bind (·.comment.param? p.name)).map (·.description)).getD "" }

/-- The parameters of a function, in order. -/
def parameters (known : Known) (site : Site) (doc : Option NodeDoc)
    (ps : List (Parameter Expr)) : List ParameterSymbol :=
  ps.map (known.parameter site doc)

/-- The types that the documentation gives a result. -/
def docReturnTypes (known : Known) (site : Site) (doc : Option NodeDoc) : TypeList :=
  match doc with
  | none => TypeList.empty
  | some doc =>
      match doc.comment.returns with
      | some tag => known.resolveDocType (site.contextAt doc.offset) site.cls tag.type
      | none => TypeList.empty

/-- The types of a result: documented ones win over the native type. -/
def returnTypes (known : Known) (site : Site) (doc : Option NodeDoc)
    (returns : Option ReturnHint) : TypeList :=
  firstKnown (known.docReturnTypes site doc)
    (match returns with
    | some r => known.resolveHint (site.contextAt r.colon) site.cls r.hint
    | none => TypeList.empty)

/-- The documented exceptions. -/
def throwTypes (known : Known) (site : Site) (doc : Option NodeDoc) : TypeList :=
  match doc with
  | none => TypeList.empty
  | some doc =>
      let c := site.contextAt doc.offset
      TypeList.ofList
        (doc.comment.throws.flatMap fun t => (known.resolveDocType c site.cls t.type).entries)

end Known
end PhpAtlas
