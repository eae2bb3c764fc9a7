import PhpAtlas.Doc.TypeExpr
import PhpAtlas.Scope.Basic
import PhpAtlas.Text.Offset
import PhpAtlas.TypeList

/-!
# From names to fully qualified names and back

A fully qualified name stands for itself.  The first segment of a qualified name may be an imported
alias.  A name without separator is an import or lies in the current namespace; functions and
constants fall back to the global namespace when the current one has none of that name.  Knowing
which symbols exist is therefore an input, `Known`.

## Main definitions

* `Known` — which symbols exist.
* `Known.resolve`, `Known.resolve?` — the fully qualified form of a name.
* `Known.resolveType`, `Known.resolveDocType` — of the types of a signature.
* `Known.localize` — the shortest name for a symbol.
-/

namespace PhpAtlas

/-- Which symbols exist, by kind and fully qualified name. -/
abbrev Known := SymbolKind → String → Bool

/-- A name was resolved without a context. -/
structure MissingContext where
  name : String
  deriving DecidableEq, Repr

/-- The text of the error. -/
def MissingContext.message (e : MissingContext) : String :=
  "no namespace context available for name " ++ e.name

/-- The words for the class around a place. -/
def classWords : List String := ["self", "static", "parent"]

namespace Known

/-- The fully qualified form of a name without separator. -/
def resolveShort (known : Known) (c : NameContext) (kind : SymbolKind) (name : String) : String :=
  if kind = .classlike && foldMem name classWords then fold name
  else
    match c.import? kind name with
    | some i => i.target
    | none =>
        let own := Name.join c.space name
        if kind = .classlike || c.space.isNone || known kind own then own else "\\" ++ name

/-- The fully qualified form of a name. -/
def resolve (known : Known) (c : NameContext) (kind : SymbolKind) (name : String) : String :=
  if Name.isQualified name then name
  else
    match Text.stripStart? "namespace\\".toList name.toList with
    | some rest => Name.join c.space (String.ofList rest)
    | none =>
    match Text.splitOnce? (· == Name.separator) name.toList with
    | some (first, rest) =>
        match c.import? .classlike (String.ofList first) with
        | some i => i.target ++ "\\" ++ String.ofList rest
        | none => Name.join c.space name
    | none => resolveShort known c kind name

/-- The fully qualified form of a name, if there is a context. -/
def resolve? (known : Known) (c : Option NameContext) (kind : SymbolKind) (name : String) :
    Except MissingContext String :=
  match c with
  | some c => .ok (known.resolve c kind name)
  | none => .error ⟨name⟩

/-! ### Types -/

/-- The base of a type name and its trailing brackets. -/
def splitBrackets (name : String) : String × String :=
  let t := name.toList
  let base := Text.dropTrailingCopies ['[', ']'] t
  (String.ofList base, String.ofList (t.drop base.length))

/-- The fully qualified form of a type name without brackets.  Words of the language are folded,
and `self` and `parent` become the class around the place and its parent. -/
def resolveBase (known : Known) (c : NameContext) (cls : Option ClassScope) (base : String) :
    String :=
  let lower := fold base
  match lower with
  | "self" => (cls.map (·.full)).getD lower
  | "parent" => (cls.bind (·.parent)).getD lower
  | "integer" => "int"
  | "double" => "float"
  | "boolean" => "bool"
  | _ => if TypeRef.isBuiltin lower then lower else known.resolve c .classlike base

/-- The type that a name in a signature stands for. -/
def resolveType (known : Known) (c : NameContext) (cls : Option ClassScope) (name : String) :
    TypeRef :=
  let (base, brackets) := splitBrackets name
  ⟨name, known.resolveBase c cls base ++ brackets⟩

/-- The types that several names stand for. -/
def resolveTypes (known : Known) (c : NameContext) (cls : Option ClassScope)
    (names : List String) : TypeList :=
  TypeList.ofList (names.map (known.resolveType c cls))

/-- The types that a documentation type stands for. -/
def resolveDocType (known : Known) (c : NameContext) (cls : Option ClassScope) (t : DocType) :
    TypeList :=
  known.resolveTypes c cls t.flatten

/-! ### The shortest name -/

/-- How one import names a symbol: by its alias, or by its alias and the rest of the name. -/
def localizeBy (kind : SymbolKind) (full : String) (i : Import) : Option String :=
  if foldEq i.target full && i.kind == kind then some i.aliasName
  else if i.kind == .classlike then
    let front := (i.target ++ "\\").toList
    match Text.splitAtByte? (Text.byteLength front) full.toList with
    | some (head, rest) =>
        if !rest.isEmpty && Text.fold head == Text.fold front then
          some (i.aliasName ++ "\\" ++ String.ofList rest)
        else none
    | none => none
  else none

/-- The name relative to the current namespace, unless an import hides it. -/
def localizeIn (c : NameContext) (kind : SymbolKind) (full : String) : Option String :=
  match Text.stripStart? (Name.join c.space "").toList full.toList with
  | none => none
  | some rest =>
      let relative := String.ofList rest
      if Name.hasSeparator relative || (c.import? kind relative).isNone then some relative else none

/-- The short name of a global function or constant, unless the current namespace has one. -/
def localizeGlobal (known : Known) (c : NameContext) (kind : SymbolKind) (full : String) :
    Option String :=
  if kind ≠ .classlike && full.toList.count Name.separator == 1 &&
      !known kind (Name.join c.space (Name.short full)) then
    some (Name.short full)
  else none

/-- The shortest name that stands for a symbol. -/
def localize (known : Known) (c : NameContext) (kind : SymbolKind) (name : String) : String :=
  let full := Name.qualify name
  ((c.imports.reverse.findSome? (localizeBy kind full)).or
    ((localizeIn c kind full).or (localizeGlobal known c kind full))).getD full

end Known
end PhpAtlas
