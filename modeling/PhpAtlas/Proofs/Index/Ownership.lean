import PhpAtlas.Proofs.Index.Atomicity
import PhpAtlas.Proofs.Steps

/-!
# Which file owns a symbol

A symbol is stored under its name alone, and the file that declared it last owns it.  Entering a
declaration makes its file the owner, whoever was it before, and deleting a file takes away what the
file owns.  The names that a document declares are settled by the document: they do not depend on
what is known when they are entered.

## Main definitions

* `Tables.owner?` — the file that owns a symbol.
* `Declaration.full`, `Declaration.declares` — the name of a declaration.
* `Document.declares` — the symbols that a document declares.

## Main results

* `Declaration.enters` — a declaration enters a symbol of its name, owned by its document.
* `Tables.owner?_deleteFile`, `Tables.owner?_withDocument` — who owns a symbol after a file was
  deleted, and after a document was entered.
* `Tables.file?_withDocument`, `Tables.scopes_withDocument` — the same for records and namespaces.
-/

namespace PhpAtlas

/-- How symbols are stored: constants under their exact names, the others without regard to case. -/
def SymbolKind.key : SymbolKind → String → String
  | .classlike, name | .function, name => Name.key name
  | .constant, name => Name.qualify name

namespace Tables

/-- The file that owns a symbol. -/
def owner? (t : Tables) : SymbolKind → String → Option String
  | .classlike, name => (t.classlike? name).map (·.file)
  | .function, name => (t.function? name).map (·.file)
  | .constant, name => (t.constant? name).map (·.file)

/-- A symbol is known if a file owns it. -/
theorem knows_eq_isSome_owner? (t : Tables) (kind : SymbolKind) (name : String) :
    t.knows kind name = (t.owner? kind name).isSome := by
  cases kind <;> simp [knows, owner?]

theorem owner?_deleteFile (t : Tables) (path : String) (kind : SymbolKind) (name : String) :
    (t.deleteFile path).owner? kind name = (t.owner? kind name).filter (· != path) := by
  have h := t.lacks_deleteFile path
  cases kind with
  | classlike => simp only [owner?, h.classlike, Option.filter_map, Function.comp_def]
  | function => simp only [owner?, h.function, Option.filter_map, Function.comp_def]
  | constant => simp only [owner?, h.constant, Option.filter_map, Function.comp_def]

end Tables

/-! ### What an operation enters -/

theorem KeyedTable.map_get?_put {α β : Type} {key : α → String} (t : KeyedTable key) (f : α → β)
    (a : α) (k : String) :
    ((t.put a).get? k).map f = if k = key a then some (f a) else (t.get? k).map f := by
  rw [get?_put]
  split <;> rfl

/-- The operation enters a symbol of a kind and name, owned by a file. -/
inductive StoreOp.Enters : StoreOp → SymbolKind → String → String → Prop
  | classlike (c : ClasslikeSymbol) : Enters (.putClasslike c) .classlike c.full c.file
  | function (f : FunctionSymbol) : Enters (.putFunction f) .function f.full f.file
  | constant (c : ConstantSymbol) : Enters (.putConstant c) .constant c.full c.file

namespace StoreOp.Enters

variable {op : StoreOp} {k : SymbolKind} {full file : String} {t : Tables}

/-- Whoever owned the symbol, the file of the entry does now. -/
theorem owner?_write (h : op.Enters k full file) (t : Tables) (kind : SymbolKind) (name : String) :
    (op.write t).owner? kind name =
      if k = kind ∧ kind.key name = kind.key full then some file else t.owner? kind name := by
  cases h with
  | classlike c =>
    cases kind with
    | classlike =>
      simp only [true_and]
      exact t.classlikes.map_get?_put (·.file) c (Name.key name)
    | _ => simp only [reduceCtorEq, false_and, if_false]; rfl
  | function f =>
    cases kind with
    | function =>
      simp only [true_and]
      exact t.functions.map_get?_put (·.file) f (Name.key name)
    | _ => simp only [reduceCtorEq, false_and, if_false]; rfl
  | constant c =>
    cases kind with
    | constant =>
      simp only [true_and]
      exact t.constants.map_get?_put (·.file) c (Name.qualify name)
    | _ => simp only [reduceCtorEq, false_and, if_false]; rfl

/-- Symbols are entered apart from files and namespaces. -/
theorem files_write (h : op.Enters k full file) (t : Tables) : (op.write t).files = t.files := by
  cases h <;> rfl

theorem scopes_write (h : op.Enters k full file) (t : Tables) : (op.write t).scopes = t.scopes := by
  cases h <;> rfl

end StoreOp.Enters

/-! ### Declarations -/

namespace Declaration

/-- The kind of the symbol that a declaration makes. -/
def kind : Declaration → SymbolKind
  | .function _ => .function
  | .constant .. | .defined .. => .constant
  | .classlike _ => .classlike

/-- The fully qualified name of the symbol that a declaration makes. -/
def full (site : Site) : Declaration → String
  | .function d => Name.join (site.contextAt d.span.start).space d.name.text
  | .constant _ item => Name.join (site.contextAt item.name.span.start).space item.name.text
  | .defined _ _ name _ => Name.qualify name
  | .classlike d => Name.join (site.contextAt d.span.start).space d.name

/-- Whether a declaration makes the symbol of a name. -/
def declares (site : Site) (kind : SymbolKind) (name : String) (d : Declaration) : Bool :=
  d.kind = kind && kind.key name == kind.key (d.full site)

end Declaration

namespace Atlas

theorem addProperty_keeps (c : ClasslikeSymbol) (p : PropertySymbol) :
    ((addProperty c p).full, (addProperty c p).file) = (c.full, c.file) := by
  unfold addProperty
  split <;> rfl

theorem addMethod_keeps (c : ClasslikeSymbol) (m : MethodSymbol) :
    ((addMethod c m).full, (addMethod c m).file) = (c.full, c.file) := by
  unfold addMethod
  split <;> rfl

/-- Documented members change neither the name nor the file of a classlike. -/
theorem addMagic_keeps (a : Atlas) (site : Site) (doc : Option NodeDoc) (c : ClasslikeSymbol) :
    ((a.addMagic site doc c).full, (a.addMagic site doc c).file) = (c.full, c.file) := by
  cases doc with
  | none => rfl
  | some doc =>
    exact (foldl_keeps (fun c : ClasslikeSymbol => (c.full, c.file)) addMethod_keeps _ _).trans
      (foldl_keeps (fun c : ClasslikeSymbol => (c.full, c.file)) addProperty_keeps _ _)

end Atlas

/-- Whatever is known, a declaration enters the symbol of its name, owned by its document. -/
theorem Declaration.enters (a : Atlas) (site : Site) (d : Declaration) :
    (d.op a site).Enters d.kind (d.full site) site.doc.path := by
  cases d with
  | function d => exact .function (a.functionOf site d)
  | constant start item => exact .constant (a.constantOf site start item)
  | defined start offset name value => exact .constant (a.definedOf site start offset name value)
  | classlike d =>
    have hkeeps : ((a.classlikeOf site d).full, (a.classlikeOf site d).file) =
        ((Declaration.classlike d).full site, site.doc.path) := a.addMagic_keeps _ _ _
    obtain ⟨hfull, hfile⟩ := Prod.mk.injEq .. ▸ hkeeps
    exact hfull ▸ hfile ▸ .classlike (a.classlikeOf site d)

/-! ### Documents -/

namespace Document

/-- Where the declarations of a document stand. -/
def site (doc : Document) : Site := ⟨doc, doc.scopes, none⟩

/-- Whether a document declares the symbol of a name. -/
def declares (doc : Document) (kind : SymbolKind) (name : String) : Bool :=
  (declarations doc.statements).any (·.declares doc.site kind name)

end Document

namespace Tables

variable (maxDepth : Nat)

theorem owner?_withDeclarations (site : Site) (ds : List Declaration) (t : Tables)
    (kind : SymbolKind) (name : String) :
    (t.withDeclarations maxDepth site ds).owner? kind name =
      if ds.any (·.declares site kind name) then some site.doc.path else t.owner? kind name := by
  induction ds generalizing t with
  | nil => simp [withDeclarations]
  | cons d ds ih =>
    refine (ih _).trans ?_
    rw [(d.enters ⟨t, maxDepth⟩ site).owner?_write, List.any_cons]
    -- the last declaration of a name decides, and all of them have the same owner
    cases ds.any (·.declares site kind name) with
    | true => simp
    | false => simp [Declaration.declares]

theorem files_withDeclarations (site : Site) (ds : List Declaration) (t : Tables) :
    (t.withDeclarations maxDepth site ds).files = t.files :=
  foldl_keeps Tables.files (fun t d => (d.enters ⟨t, maxDepth⟩ site).files_write t) ds t

theorem scopes_withDeclarations (site : Site) (ds : List Declaration) (t : Tables) :
    (t.withDeclarations maxDepth site ds).scopes = t.scopes :=
  foldl_keeps Tables.scopes (fun t d => (d.enters ⟨t, maxDepth⟩ site).scopes_write t) ds t

variable (doc : Document) (time : Nat) (t : Tables)

/-- A document owns what it declares; others keep what they own, unless it declares it too. -/
theorem owner?_withDocument (kind : SymbolKind) (name : String) :
    (t.withDocument maxDepth doc time).owner? kind name =
      if doc.declares kind name then some doc.path
      else (t.owner? kind name).filter (· != doc.path) := by
  refine (owner?_withDeclarations maxDepth doc.site _ _ kind name).trans ?_
  rw [← owner?_deleteFile]
  cases kind <;> rfl

theorem file?_withDocument (path : String) :
    (t.withDocument maxDepth doc time).file? path =
      if path = doc.path then some ⟨doc.path, time, doc.diagnostics⟩ else t.file? path := by
  rw [file?, withDocument, files_withDeclarations]
  by_cases hpath : path = doc.path <;>
    simp [withRecord, putFile, putScopes, deleteFile, file?, hpath]

theorem scopes_withDocument (path : String) :
    (t.withDocument maxDepth doc time).scopes.get? path =
      if path = doc.path then some doc.scopes else t.scopes.get? path := by
  rw [withDocument, scopes_withDeclarations]
  by_cases hpath : path = doc.path <;>
    simp [withRecord, putFile, putScopes, deleteFile, hpath]

end Tables
end PhpAtlas
