import PhpAtlas.Scope.Basic
import PhpAtlas.Store.Table
import PhpAtlas.Symbol

/-!
# The symbol store

The store holds five tables.  Classlikes and functions are stored under their folded names,
constants under their exact ones, and files under their paths.  Writes are accepted only while a
transaction is open; opening one keeps a copy of the tables, which a rollback restores.

## Main definitions

* `Tables` — files, scopes, classlikes, functions and constants.
* `Store` — the tables and the copy that an open transaction keeps.
* `StoreOp`, `Store.apply` — the operations that may fail.
* `StoreError`, `StoreError.message` — why they fail.
-/

namespace PhpAtlas

/-- Classlikes are found without regard to case. -/
def ClasslikeSymbol.key (c : ClasslikeSymbol) : String := Name.key c.full

/-- Functions are found without regard to case. -/
def FunctionSymbol.key (f : FunctionSymbol) : String := Name.key f.full

/-- Constants are found by their exact names. -/
def ConstantSymbol.key (c : ConstantSymbol) : String := Name.qualify c.full

/-- Everything that is known. -/
@[ext] structure Tables where
  files : KeyedTable FileRecord.path
  scopes : Table (List NamespaceScope)
  classlikes : KeyedTable ClasslikeSymbol.key
  functions : KeyedTable FunctionSymbol.key
  constants : KeyedTable ConstantSymbol.key
  deriving Inhabited

namespace Tables

/-- Nothing is known. -/
def empty : Tables := ⟨.empty, .empty, .empty, .empty, .empty⟩

/-! ### Reading -/

/-- The record of a file. -/
def file? (t : Tables) (path : String) : Option FileRecord := t.files.get? path

/-- The scopes of a file; none for an unknown file. -/
def scopesOf (t : Tables) (path : String) : List NamespaceScope := (t.scopes.get? path).getD []

/-- The classlike of this name, up to ASCII case. -/
def classlike? (t : Tables) (name : String) : Option ClasslikeSymbol :=
  t.classlikes.get? (Name.key name)

/-- The function of this name, up to ASCII case. -/
def function? (t : Tables) (name : String) : Option FunctionSymbol :=
  t.functions.get? (Name.key name)

/-- The constant of exactly this name. -/
def constant? (t : Tables) (name : String) : Option ConstantSymbol :=
  t.constants.get? (Name.qualify name)

/-- Whether a symbol is known. -/
def knows (t : Tables) (kind : SymbolKind) (name : String) : Bool :=
  match kind with
  | .classlike => (t.classlike? name).isSome
  | .function => (t.function? name).isSome
  | .constant => (t.constant? name).isSome

/-- All classlikes, ordered by name. -/
def classlikeList (t : Tables) : List ClasslikeSymbol :=
  t.classlikes.values.mergeSort fun a b => a.full ≤ b.full

/-- All files, ordered by path. -/
def fileList (t : Tables) : List FileRecord := t.files.values

/-! ### Writing -/

/-- Remove a file with everything that it owns. -/
def deleteFile (t : Tables) (path : String) : Tables :=
  { files := t.files.erase path
    scopes := t.scopes.erase path
    classlikes := t.classlikes.keep (·.file != path)
    functions := t.functions.keep (·.file != path)
    constants := t.constants.keep (·.file != path) }

/-- Enter the record of a file. -/
def putFile (t : Tables) (r : FileRecord) : Tables :=
  { t with files := t.files.put r }

/-- Enter the scopes of a file. -/
def putScopes (t : Tables) (path : String) (scopes : List NamespaceScope) : Tables :=
  { t with scopes := t.scopes.insert path scopes }

/-- Enter a classlike; one of its name is replaced. -/
def putClasslike (t : Tables) (c : ClasslikeSymbol) : Tables :=
  { t with classlikes := t.classlikes.put c }

/-- Enter a function; one of its name is replaced. -/
def putFunction (t : Tables) (f : FunctionSymbol) : Tables :=
  { t with functions := t.functions.put f }

/-- Enter a constant; one of its name is replaced. -/
def putConstant (t : Tables) (c : ConstantSymbol) : Tables :=
  { t with constants := t.constants.put c }

/-- Remove the classlike of this name, up to ASCII case. -/
def deleteClasslike (t : Tables) (name : String) : Tables :=
  { t with classlikes := t.classlikes.erase (Name.key name) }

/-- Remove the function of this name, up to ASCII case. -/
def deleteFunction (t : Tables) (name : String) : Tables :=
  { t with functions := t.functions.erase (Name.key name) }

/-- Remove the constant of exactly this name. -/
def deleteConstant (t : Tables) (name : String) : Tables :=
  { t with constants := t.constants.erase (Name.qualify name) }

end Tables

/-! ### Transactions -/

/-- Why a store operation fails. -/
inductive StoreError
  | transactionActive
  | noTransaction
  /-- The storage behind the store failed. -/
  | backend (reason : String)
  deriving DecidableEq, Repr

/-- The text of an error. -/
def StoreError.message : StoreError → String
  | .transactionActive => "a transaction is already active"
  | .noTransaction => "no transaction is active"
  | .backend reason => "store backend failure: " ++ reason

/-- The tables, and the copy that an open transaction keeps. -/
structure Store where
  tables : Tables
  saved : Option Tables
  deriving Inhabited

/-- An operation on the store that may fail. -/
inductive StoreOp
  | begin
  | commit
  | rollback
  | deleteFile (path : String)
  | putFile (record : FileRecord)
  | putScopes (path : String) (scopes : List NamespaceScope)
  | putClasslike (symbol : ClasslikeSymbol)
  | putFunction (symbol : FunctionSymbol)
  | putConstant (symbol : ConstantSymbol)
  | deleteClasslike (name : String)
  | deleteFunction (name : String)
  | deleteConstant (name : String)

namespace StoreOp

/-- What a write does to the tables; the operations on transactions write nothing. -/
def write : StoreOp → Tables → Tables
  | .begin, t | .commit, t | .rollback, t => t
  | .deleteFile path, t => t.deleteFile path
  | .putFile r, t => t.putFile r
  | .putScopes path scopes, t => t.putScopes path scopes
  | .putClasslike c, t => t.putClasslike c
  | .putFunction f, t => t.putFunction f
  | .putConstant c, t => t.putConstant c
  | .deleteClasslike name, t => t.deleteClasslike name
  | .deleteFunction name, t => t.deleteFunction name
  | .deleteConstant name, t => t.deleteConstant name

/-- The name of an operation in messages. -/
def method : StoreOp → String
  | .begin => "begin"
  | .commit => "commit"
  | .rollback => "rollback"
  | .deleteFile _ => "delete_file"
  | .putFile _ => "upsert_file"
  | .putScopes .. => "upsert_namespaces"
  | .putClasslike _ => "upsert_classlike"
  | .putFunction _ => "upsert_function"
  | .putConstant _ => "upsert_constant"
  | .deleteClasslike _ => "delete_classlike"
  | .deleteFunction _ => "delete_function"
  | .deleteConstant _ => "delete_constant"

/-- The path or the name that an operation is about. -/
def key? : StoreOp → Option String
  | .begin | .commit | .rollback => none
  | .deleteFile path => some path
  | .putFile r => some r.path
  | .putScopes path _ => some path
  | .putClasslike c => some c.full
  | .putFunction f => some f.full
  | .putConstant c => some c.full
  | .deleteClasslike name | .deleteFunction name | .deleteConstant name => some name

end StoreOp

namespace Store

/-- Nothing is known, and no transaction is open. -/
def empty : Store := ⟨Tables.empty, none⟩

/-- Whether a transaction is open. -/
def inTransaction (s : Store) : Bool := s.saved.isSome

/-- Run an operation. -/
def apply (s : Store) (op : StoreOp) : Except StoreError Store :=
  match op, s.saved with
  | .begin, none => .ok ⟨s.tables, some s.tables⟩
  | .begin, some _ => .error .transactionActive
  | _, none => .error .noTransaction
  | .commit, some _ => .ok ⟨s.tables, none⟩
  | .rollback, some saved => .ok ⟨saved, none⟩
  | op, some saved => .ok ⟨op.write s.tables, some saved⟩

end Store
end PhpAtlas
