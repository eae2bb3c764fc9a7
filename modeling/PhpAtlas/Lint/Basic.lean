import PhpAtlas.Config.Basic
import PhpAtlas.Deduction.Basic
import PhpAtlas.Lint.Reference

/-!
# Reports on a document

A document is compared with what is known of the project.  Syntax errors and unknown symbols are
errors; a member that is missing on every type of an object is a warning.  The document is not
indexed: its own declarations count only if it was indexed before.

## Main definitions

* `LintMessage`, `LintReport` — what is reported.
* `Atlas.unknown?` — the name of a symbol that is not known.
* `Atlas.missingOn?` — the owners of an object that all lack a member.
* `Atlas.lint` — the report on a document.
-/

namespace PhpAtlas

/-- A report on a range of a document. -/
structure LintMessage where
  message : String
  line : Nat
  span : Span
  deriving DecidableEq, Repr

/-- The reports on a document. -/
structure LintReport where
  errors : List LintMessage := []
  warnings : List LintMessage := []
  deriving DecidableEq, Repr

namespace LintReport

/-- Whether nothing is reported. -/
def isClean (r : LintReport) : Bool := r.errors.isEmpty && r.warnings.isEmpty

end LintReport

/-- The word for a kind of symbol in reports. -/
def SymbolKind.noun : SymbolKind → String
  | .classlike => "class"
  | .function => "function"
  | .constant => "constant"

/-- Whether unknown symbols of a kind are reported. -/
def LintSettings.wants (s : LintSettings) : SymbolKind → Bool
  | .classlike => s.unknownClasses
  | .function => s.unknownFunctions
  | .constant => s.unknownConstants

/-- Whether a classlike answers for a member, by declaration or by a catch-all method. -/
def FlatClass.answers (f : FlatClass) : MemberKey → Bool
  | .method name => (f.method? name).isSome || (f.method? "__call").isSome
  | .property name => (f.property? name).isSome || (f.method? "__get").isSome
  | .constant name => (f.constant? name).isSome

namespace Atlas

/-- The qualified name of a symbol that is not known. -/
def unknown? (a : Atlas) (c : NameContext) (kind : SymbolKind) (name : String) : Option String :=
  if kind = .classlike && TypeRef.isBuiltin name then none
  else
    let full := a.known.resolve c kind name
    if a.known kind full then none else some full

/-- Whether a type is a known classlike that does not answer for a member. -/
def lacks (a : Atlas) (key : MemberKey) (t : TypeRef) : Bool :=
  t.mayOwn &&
    match a.flat? t.full with
    | some view => !view.answers key
    | none => false

/-- The types of an object, if there are any and all lack a member. -/
def missingOn? (a : Atlas) (doc : Document) (object : Expr) (key : MemberKey) : Option String :=
  let types := (a.deduce doc object.span.stop object).withoutNull
  if types.isEmpty || !types.entries.all (a.lacks key) then none
  else some (String.intercalate "|" types.names)

/-- A report on a range. -/
def report (doc : Document) (span : Span) (message : String) : LintMessage :=
  ⟨message, doc.lineAt span.start, span⟩

/-- The report on a symbol that is not known. -/
def unknownSymbol (a : Atlas) (s : LintSettings) (doc : Document) (kind : SymbolKind)
    (r : NameRef) : Option LintMessage :=
  if s.wants kind then
    (a.unknown? (doc.contextAt doc.scopes r.span.start) kind r.text).map fun full =>
      report doc r.span ("Unknown " ++ kind.noun ++ " " ++ full)
  else none

/-- The report on a method that is missing. -/
def missingMethod (a : Atlas) (s : LintSettings) (doc : Document) (object : Expr)
    (r : NameRef) : Option LintMessage :=
  if s.unknownMembers then
    (a.missingOn? doc object (.method r.text)).map fun owners =>
      report doc r.span ("Method " ++ r.text ++ "() not found on " ++ owners)
  else none

/-- The report on a property that is missing. -/
def missingProperty (a : Atlas) (s : LintSettings) (doc : Document) (object : Expr)
    (r : NameRef) : Option LintMessage :=
  if s.unknownMembers then
    (a.missingOn? doc object (.property r.text)).map fun owners =>
      report doc r.span ("Property $" ++ r.text ++ " not found on " ++ owners)
  else none

/-- The error that a use gives rise to. -/
def errorOf? (a : Atlas) (s : LintSettings) (doc : Document) : Reference → Option LintMessage
  | .symbol kind r => a.unknownSymbol s doc kind r
  | _ => none

/-- The warning that a use gives rise to. -/
def warningOf? (a : Atlas) (s : LintSettings) (doc : Document) : Reference → Option LintMessage
  | .method object r => a.missingMethod s doc object r
  | .property object r => a.missingProperty s doc object r
  | .symbol .. => none

/-- The errors of the syntax. -/
def syntaxReports (s : LintSettings) (doc : Document) : List LintMessage :=
  if s.syntaxErrors then
    doc.diagnostics.map fun d => report doc d.span ("Syntax error: " ++ d.message)
  else []

/-- The report on a document. -/
def lint (a : Atlas) (s : LintSettings) (doc : Document) : LintReport :=
  let uses := references doc.statements
  { errors := syntaxReports s doc ++ uses.filterMap (a.errorOf? s doc)
    warnings := uses.filterMap (a.warningOf? s doc) }

end Atlas

/-! ### Reports as data -/

/-- One report, with its line and its place. -/
def LintMessage.toJson (m : LintMessage) : Json :=
  .object
    [("end", .number m.span.stop), ("line", .number m.line), ("message", .text m.message),
      ("start", .number m.span.start)]

/-- All reports on a document. -/
def LintReport.toJson (r : LintReport) : Json :=
  .object
    [("errors", Json.ofList LintMessage.toJson r.errors),
      ("warnings", Json.ofList LintMessage.toJson r.warnings)]

end PhpAtlas
