import PhpAtlas.Ancestry.Flat
import PhpAtlas.Json.Basic
import PhpAtlas.Scope.Basic

/-!
# Symbols as data

Every record becomes an object whose keys are sorted; absent values are `null`.

## Main definitions

* `TypeList.toJson`, `Documentation.toJson` — parts of symbols.
* `FunctionSymbol.toJson`, `ConstantSymbol.toJson`, `ClasslikeSymbol.toJson` — global symbols.
* `MethodSymbol.fields`, `PropertySymbol.fields`, `ClassConstantSymbol.fields` — members.
* `FlatClass.toJson` — a flat view.
* `NamespaceScope.toJson`, `NameContext.toJson`, `FileRecord.toJson` — scopes and files.
-/

namespace PhpAtlas

open Json

/-- A candidate type: its full name, and the name as written. -/
def TypeRef.toJson (t : TypeRef) : Json :=
  .object [("fqn", .text t.full), ("local", .text t.written)]

/-- The candidates in their order. -/
def TypeList.toJson (l : TypeList) : Json := Json.ofList TypeRef.toJson l.entries

/-- What a symbol keeps of its documentation. -/
def Documentation.toJson (d : Documentation) : Json :=
  .object
    [("has_docblock", .bool d.present), ("inherits_documentation", .bool d.inherits),
      ("is_deprecated", .bool d.deprecated), ("long_description", .text d.long),
      ("short_description", .text d.short)]

/-- The word for a visibility. -/
def Visibility.word : Visibility → String
  | .pub => "public"
  | .prot => "protected"
  | .priv => "private"

/-- A visibility by its word. -/
def Visibility.toJson (v : Visibility) : Json := .text v.word

/-! ### Functions and members -/

/-- A parameter; it has a default only if one is written. -/
def ParameterSymbol.toJson (p : ParameterSymbol) : Json :=
  .object
    [("default_value", ofOption .text p.default), ("description", .text p.description),
      ("is_nullable", .bool p.nullable), ("is_reference", .bool p.byRef),
      ("is_variadic", .bool p.variadic), ("name", .text p.name), ("types", p.types.toJson)]

/-- A function with its signature and its place. -/
def FunctionSymbol.toJson (f : FunctionSymbol) : Json :=
  .object
    [("documentation", f.documentation.toJson), ("end_line", .number f.endLine),
      ("file", .text f.file), ("fqsen", .text f.full), ("name", .text f.name),
      ("parameters", ofList ParameterSymbol.toJson f.parameters),
      ("return_types", f.returns.toJson), ("start_line", .number f.startLine),
      ("throws", f.throws.toJson)]

/-- A constant with the text of its value. -/
def ConstantSymbol.toJson (c : ConstantSymbol) : Json :=
  .object
    [("default_value", .text c.value), ("documentation", c.documentation.toJson),
      ("file", .text c.file), ("fqsen", .text c.full), ("line", .number c.line),
      ("name", .text c.name), ("types", c.types.toJson)]

/-- The fields of a method, with more fields that come behind `name`. -/
def MethodSymbol.fields (m : MethodSymbol) (more : List (String × Json)) : Json :=
  .object <|
    [("declaring_fqcn", .text m.owner), ("documentation", m.documentation.toJson),
      ("is_abstract", .bool m.abstract), ("is_final", .bool m.final),
      ("is_magic", .bool m.magic), ("is_static", .bool m.static), ("line", .number m.line),
      ("name", .text m.name)] ++ more ++
    [("parameters", ofList ParameterSymbol.toJson m.parameters),
      ("return_types", m.returns.toJson), ("throws", m.throws.toJson),
      ("visibility", m.visibility.toJson)]

/-- A method outside of a flat view. -/
def MethodSymbol.toJson (m : MethodSymbol) : Json := m.fields []

/-- The fields of a property, with more fields that come behind `name`. -/
def PropertySymbol.fields (p : PropertySymbol) (more : List (String × Json)) : Json :=
  .object <|
    [("declaring_fqcn", .text p.owner), ("default_value", ofOption .text p.default),
      ("documentation", p.documentation.toJson), ("is_magic", .bool p.magic),
      ("is_readable", .bool p.readable), ("is_static", .bool p.static),
      ("is_writable", .bool p.writable), ("line", .number p.line),
      ("name", .text p.name)] ++ more ++
    [("types", p.types.toJson), ("visibility", p.visibility.toJson)]

/-- A property outside of a flat view. -/
def PropertySymbol.toJson (p : PropertySymbol) : Json := p.fields []

/-- The fields of a class constant, with more fields that come behind `name`. -/
def ClassConstantSymbol.fields (c : ClassConstantSymbol) (more : List (String × Json)) : Json :=
  .object <|
    [("declaring_fqcn", .text c.owner), ("default_value", .text c.value),
      ("documentation", c.documentation.toJson), ("line", .number c.line),
      ("name", .text c.name)] ++ more ++
    [("types", c.types.toJson), ("visibility", c.visibility.toJson)]

/-- A class constant outside of a flat view. -/
def ClassConstantSymbol.toJson (c : ClassConstantSymbol) : Json := c.fields []

/-! ### Classlikes -/

/-- The word for a kind of classlike. -/
def ClassKind.word : ClassKind → String
  | .cls => "class"
  | .interface => "interface"
  | .trait => "trait"

/-- An `as` of a trait use. -/
def TraitAlias.toJson (a : TraitAlias) : Json :=
  .object
    [("alias", ofOption .text a.newName), ("method", .text a.method),
      ("trait_fqcn", ofOption .text a.owner),
      ("visibility", ofOption Visibility.toJson a.visibility)]

/-- An `insteadof` of a trait use. -/
def TraitPrecedence.toJson (p : TraitPrecedence) : Json :=
  .object
    [("insteadof", texts p.insteadOf), ("method", .text p.method), ("trait_fqcn", .text p.owner)]

/-- A classlike with the members that it declares itself. -/
def ClasslikeSymbol.toJson (c : ClasslikeSymbol) : Json :=
  .object
    [("constants", ofList ClassConstantSymbol.toJson c.constants),
      ("documentation", c.documentation.toJson), ("end_line", .number c.endLine),
      ("file", .text c.file), ("fqcn", .text c.full), ("interfaces", texts c.interfaces),
      ("is_abstract", .bool c.abstract), ("is_enum", .bool c.enumeration),
      ("is_final", .bool c.final), ("kind", .text c.kind.word),
      ("methods", ofList MethodSymbol.toJson c.methods), ("name", .text c.name),
      ("parents", texts c.parents), ("properties", ofList PropertySymbol.toJson c.properties),
      ("start_line", .number c.startLine),
      ("trait_aliases", ofList TraitAlias.toJson c.aliases),
      ("trait_precedences", ofList TraitPrecedence.toJson c.precedences),
      ("traits", texts c.traits)]

/-! ### Flat views -/

/-- The word for an origin. -/
def Origin.word : Origin → String
  | .own => "own"
  | .inherited => "inherited"

/-- A member of a flat view: the fields of the member, its origin, and what it overrides. -/
def FlatMember.toJson {α : Type} (fields : α → List (String × Json) → Json) (m : FlatMember α) :
    Json :=
  fields m.member
    [("origin", .text m.origin.word), ("overrides", ofOption .text m.overrides)]

/-- A classlike with its ancestors and all members. -/
def FlatClass.toJson (f : FlatClass) : Json :=
  .object
    [("classlike", f.classlike.toJson),
      ("constants", ofList (FlatMember.toJson ClassConstantSymbol.fields) f.constants),
      ("interfaces", texts f.interfaces),
      ("methods", ofList (FlatMember.toJson MethodSymbol.fields) f.methods),
      ("parents", texts f.parents),
      ("properties", ofList (FlatMember.toJson PropertySymbol.fields) f.properties),
      ("traits", texts f.traits)]

/-! ### Scopes and files -/

/-- The word for a kind of symbol. -/
def SymbolKind.word : SymbolKind → String
  | .classlike => "classlike"
  | .function => "function"
  | .constant => "constant"

/-- An imported name. -/
def Import.toJson (i : Import) : Json :=
  .object
    [("alias", .text i.aliasName), ("kind", .text i.kind.word), ("line", .number i.line),
      ("name", .text i.target)]

/-- The lines of a namespace and its imports. -/
def NamespaceScope.toJson (s : NamespaceScope) : Json :=
  .object
    [("end_line", .number s.endLine), ("imports", ofList Import.toJson s.imports),
      ("name", ofOption .text s.name), ("start_line", .number s.startLine)]

/-- The namespace and the imports at a place. -/
def NameContext.toJson (c : NameContext) : Json :=
  .object [("imports", ofList Import.toJson c.imports), ("namespace", ofOption .text c.space)]

/-- A complaint and its place. -/
def Diagnostic.toJson (d : Diagnostic) : Json :=
  .object
    [("end", .number d.span.stop), ("message", .text d.message), ("start", .number d.span.start)]

/-- A file and its complaints; the time of indexing is left out. -/
def FileRecord.toJson (r : FileRecord) : Json :=
  .object [("diagnostics", ofList Diagnostic.toJson r.diagnostics), ("path", .text r.path)]

end PhpAtlas
