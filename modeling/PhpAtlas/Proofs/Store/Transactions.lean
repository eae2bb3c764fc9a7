import Mathlib.Logic.Function.Basic
import PhpAtlas.Proofs.Store.Listings
import PhpAtlas.Proofs.Store.Runs

/-!
# Transactions as working copies

A store changes its tables in place and keeps a copy to go back to.  Seen from outside it is a
machine of the other kind: what was committed stays as it is, a transaction works on a copy, and
committing puts the copy in its place.  Both are told apart by their answers only, and these are the
same for every sequence of calls.

## Main definitions

* `Contents` — what is stored, as five maps.
* `Machine`, `Machine.Step`, `Machine.Reads` — committed contents with a working copy, and the rules
  for its operations and its reads.
* `Machine.Run`, `Store.run` — the answers to a sequence of calls.
* `Store.machine` — a store seen as such a machine.

## Main results

* `Tables.contents_write` — every write does to the maps what the machine says.
* `Store.step_machine_iff`, `Store.reads_machine_iff` — one call, seen on the machine.
* `Machine.run_empty_iff` — the answers of the empty store are the answers of the empty machine, and
  the machine has no others.
-/

namespace PhpAtlas

/-! ### Calls and answers -/

/-- A read of the store. -/
inductive Query
  | file (path : String)
  | files
  | scopes (path : String)
  | classlike (name : String)
  | classlikes
  | function (name : String)
  | constant (name : String)
  | knows (kind : SymbolKind) (name : String)
  | inTransaction

/-- A call of the store: an operation that may fail, or a read. -/
inductive Call
  | op (op : StoreOp)
  | read (query : Query)

/-- What a call returns. -/
inductive Answer
  | done
  | failed (e : StoreError)
  | file (record : Option FileRecord)
  | files (records : List FileRecord)
  | scopes (scopes : List NamespaceScope)
  | classlike (symbol : Option ClasslikeSymbol)
  | classlikes (symbols : List ClasslikeSymbol)
  | function (symbol : Option FunctionSymbol)
  | constant (symbol : Option ConstantSymbol)
  | flag (value : Bool)

namespace Store

/-- The answer to a read. -/
def read (s : Store) : Query → Answer
  | .file path => .file (s.tables.file? path)
  | .files => .files s.tables.fileList
  | .scopes path => .scopes (s.tables.scopesOf path)
  | .classlike name => .classlike (s.tables.classlike? name)
  | .classlikes => .classlikes s.tables.classlikeList
  | .function name => .function (s.tables.function? name)
  | .constant name => .constant (s.tables.constant? name)
  | .knows kind name => .flag (s.tables.knows kind name)
  | .inTransaction => .flag s.inTransaction

/-- The answer to an operation, and the store behind it. -/
def respond (s : Store) (op : StoreOp) : Answer × Store :=
  match s.apply op with
  | .ok next => (.done, next)
  | .error e => (.failed e, s)

/-- The answers to a sequence of calls. -/
def run : Store → List Call → List Answer
  | _, [] => []
  | s, .op op :: calls => (s.respond op).1 :: (s.respond op).2.run calls
  | s, .read query :: calls => s.read query :: s.run calls

end Store

/-! ### The machine -/

/-- What is stored, by the keys of the store. -/
@[ext] structure Contents where
  file : String → Option FileRecord
  scopes : String → Option (List NamespaceScope)
  classlike : String → Option ClasslikeSymbol
  function : String → Option FunctionSymbol
  constant : String → Option ConstantSymbol

namespace Contents

open Function (update)

/-- Nothing is stored. -/
def empty : Contents :=
  ⟨fun _ => none, fun _ => none, fun _ => none, fun _ => none, fun _ => none⟩

/-- What a write does.  Deleting a file takes everything with it that the file owns. -/
def write (c : Contents) : StoreOp → Contents
  | .begin | .commit | .rollback => c
  | .deleteFile path =>
      { file := update c.file path none
        scopes := update c.scopes path none
        classlike := fun key => (c.classlike key).filter (·.file != path)
        function := fun key => (c.function key).filter (·.file != path)
        constant := fun key => (c.constant key).filter (·.file != path) }
  | .putFile r => { c with file := update c.file r.path (some r) }
  | .putScopes path scopes => { c with scopes := update c.scopes path (some scopes) }
  | .putClasslike s => { c with classlike := update c.classlike (Name.key s.full) (some s) }
  | .putFunction s => { c with function := update c.function (Name.key s.full) (some s) }
  | .putConstant s => { c with constant := update c.constant (Name.qualify s.full) (some s) }
  | .deleteClasslike name => { c with classlike := update c.classlike (Name.key name) none }
  | .deleteFunction name => { c with function := update c.function (Name.key name) none }
  | .deleteConstant name => { c with constant := update c.constant (Name.qualify name) none }

/-- Whether a symbol is stored. -/
def knows (c : Contents) : SymbolKind → String → Bool
  | .classlike, name => (c.classlike (Name.key name)).isSome
  | .function, name => (c.function (Name.key name)).isSome
  | .constant, name => (c.constant (Name.qualify name)).isSome

/-- What a read of contents answers.  A listing is an increasing list of what is stored. -/
inductive Reads (c : Contents) : Query → Answer → Prop
  | file (path) : Reads c (.file path) (.file (c.file path))
  | files {l} (hl : Increasing FileRecord.path l)
      (hmem : ∀ r, r ∈ l ↔ ∃ path, c.file path = some r) : Reads c .files (.files l)
  | scopes (path) : Reads c (.scopes path) (.scopes ((c.scopes path).getD []))
  | classlike (name) : Reads c (.classlike name) (.classlike (c.classlike (Name.key name)))
  | classlikes {l} (hl : Increasing ClasslikeSymbol.full l)
      (hmem : ∀ s, s ∈ l ↔ ∃ key, c.classlike key = some s) : Reads c .classlikes (.classlikes l)
  | function (name) : Reads c (.function name) (.function (c.function (Name.key name)))
  | constant (name) : Reads c (.constant name) (.constant (c.constant (Name.qualify name)))
  | knows (kind name) : Reads c (.knows kind name) (.flag (c.knows kind name))

/-- A read has one answer. -/
theorem Reads.unique {c : Contents} {query : Query} {a b : Answer} (h : c.Reads query a)
    (h' : c.Reads query b) : a = b := by
  cases h with
  | files hl hmem =>
    cases h' with
    | files hl' hmem' =>
      rw [hl.eq_of_mem_iff hl' fun r => (hmem r).trans (hmem' r).symm]
  | classlikes hl hmem =>
    cases h' with
    | classlikes hl' hmem' =>
      rw [hl.eq_of_mem_iff hl' fun s => (hmem s).trans (hmem' s).symm]
  | _ => cases h'; rfl

end Contents

/-- Committed contents, and the working copy of an open transaction. -/
structure Machine where
  committed : Contents
  working : Option Contents

namespace Machine

/-- Nothing is stored, and no transaction is open. -/
def empty : Machine := ⟨Contents.empty, none⟩

/-- Reads see the working copy, if there is one. -/
def visible (m : Machine) : Contents := m.working.getD m.committed

/-- What an operation answers, and what it leaves behind. -/
inductive Step : Machine → StoreOp → Answer → Machine → Prop
  | begin {c} : Step ⟨c, none⟩ .begin .done ⟨c, some c⟩
  | beginTwice {c w} : Step ⟨c, some w⟩ .begin (.failed .transactionActive) ⟨c, some w⟩
  | write {c w op} (h : op.isWrite = true) : Step ⟨c, some w⟩ op .done ⟨c, some (w.write op)⟩
  | commit {c w} : Step ⟨c, some w⟩ .commit .done ⟨w, none⟩
  | rollback {c w} : Step ⟨c, some w⟩ .rollback .done ⟨c, none⟩
  | closed {c op} (h : op ≠ .begin) : Step ⟨c, none⟩ op (.failed .noTransaction) ⟨c, none⟩

/-- What a read answers. -/
inductive Reads (m : Machine) : Query → Answer → Prop
  | visible {query a} (h : m.visible.Reads query a) : Reads m query a
  | inTransaction : Reads m .inTransaction (.flag m.working.isSome)

/-- What a sequence of calls may answer. -/
inductive Run : Machine → List Call → List Answer → Prop
  | nil {m} : Run m [] []
  | op {m next op a calls answers} (h : Step m op a next) (rest : Run next calls answers) :
      Run m (.op op :: calls) (a :: answers)
  | read {m query a calls answers} (h : Reads m query a) (rest : Run m calls answers) :
      Run m (.read query :: calls) (a :: answers)

end Machine

/-! ### A store as a machine -/

/-- The maps that tables stand for. -/
def Tables.contents (t : Tables) : Contents :=
  ⟨t.files.get?, t.scopes.get?, t.classlikes.get?, t.functions.get?, t.constants.get?⟩

/-- The tables of a store are the working copy while a transaction is open, and the copy that it
keeps is what was committed. -/
def Store.machine (s : Store) : Machine :=
  match s.saved with
  | none => ⟨s.tables.contents, none⟩
  | some saved => ⟨saved.contents, some s.tables.contents⟩

theorem KeyedTable.get?_put_eq_update {α : Type} {key : α → String} (t : KeyedTable key) (a : α) :
    (t.put a).get? = Function.update t.get? (key a) (some a) := by
  funext k
  rw [get?_put, Function.update_apply]

theorem KeyedTable.get?_erase_eq_update {α : Type} {key : α → String} (t : KeyedTable key)
    (k : String) : (t.erase k).get? = Function.update t.get? k none := by
  funext j
  rw [get?_erase, Function.update_apply]

theorem KeyedTable.get?_keep_eq {α : Type} {key : α → String} (p : α → Bool)
    (t : KeyedTable key) : (t.keep p).get? = fun k => (t.get? k).filter p :=
  funext (get?_keep p t)

theorem Table.get?_insert_eq_update {α : Type} (t : Table α) (k : String) (a : α) :
    (t.insert k a).get? = Function.update t.get? k (some a) := by
  funext j
  rw [get?_insert, Function.update_apply]

theorem Table.get?_erase_eq_update {α : Type} (t : Table α) (k : String) :
    (t.erase k).get? = Function.update t.get? k none := by
  funext j
  rw [get?_erase, Function.update_apply]

/-- A write does to the maps what the machine says. -/
theorem Tables.contents_write (op : StoreOp) (t : Tables) :
    (op.write t).contents = t.contents.write op := by
  cases op with
  | begin | commit | rollback => rfl
  | deleteFile path =>
    simp only [StoreOp.write, deleteFile, contents, Contents.write,
      KeyedTable.get?_erase_eq_update, Table.get?_erase_eq_update, KeyedTable.get?_keep_eq]
  | putScopes path scopes =>
    simp only [StoreOp.write, putScopes, contents, Contents.write, Table.get?_insert_eq_update]
  | putFile r | putClasslike s | putFunction s | putConstant s =>
    simp only [StoreOp.write, putFile, putClasslike, putFunction, putConstant, contents,
      Contents.write, KeyedTable.get?_put_eq_update, ClasslikeSymbol.key, FunctionSymbol.key,
      ConstantSymbol.key]
  | deleteClasslike name | deleteFunction name | deleteConstant name =>
    simp only [StoreOp.write, deleteClasslike, deleteFunction, deleteConstant, contents,
      Contents.write, KeyedTable.get?_erase_eq_update]

namespace Store

variable {s : Store} {op : StoreOp} {a : Answer} {m : Machine}

theorem machine_of_closed (h : s.saved = none) : s.machine = ⟨s.tables.contents, none⟩ := by
  rw [machine, h]

theorem machine_of_open {saved : Tables} (h : s.saved = some saved) :
    s.machine = ⟨saved.contents, some s.tables.contents⟩ := by
  rw [machine, h]

/-- The tables are what is visible, whether or not a transaction is open. -/
theorem visible_machine (s : Store) : s.machine.visible = s.tables.contents := by
  cases h : s.saved with
  | none => rw [machine_of_closed h]; rfl
  | some saved => rw [machine_of_open h]; rfl

/-! ### One call -/

theorem respond_write {saved : Tables} (hop : op.isWrite = true) (hopen : s.saved = some saved) :
    s.respond op = (.done, ⟨op.write s.tables, some saved⟩) := by
  rw [respond, apply_write hop hopen]

theorem respond_closed (hop : op ≠ .begin) (hclosed : s.saved = none) :
    s.respond op = (.failed .noTransaction, s) := by
  have happly : s.apply op = .error .noTransaction := by
    unfold apply
    rw [hclosed]
    cases op <;> first | rfl | exact absurd rfl hop
  rw [respond, happly]

/-- What a store answers is a step of its machine. -/
theorem step_machine (s : Store) (op : StoreOp) :
    s.machine.Step op (s.respond op).1 (s.respond op).2.machine := by
  cases hsaved : s.saved with
  | none =>
    by_cases hop : op = .begin
    · subst hop
      have hbegin : s.respond .begin = (.done, ⟨s.tables, some s.tables⟩) := by
        simp [respond, apply, hsaved]
      rw [machine_of_closed hsaved, hbegin]
      exact .begin
    · rw [respond_closed hop hsaved, machine_of_closed hsaved]
      exact .closed hop
  | some saved =>
    rw [machine_of_open hsaved]
    by_cases hop : op.isWrite = true
    · rw [respond_write hop hsaved, machine_of_open rfl, Tables.contents_write]
      exact .write hop
    · cases op with
      | begin =>
        have hbegin : s.respond .begin = (.failed .transactionActive, s) := by
          simp [respond, apply, hsaved]
        rw [hbegin, machine_of_open hsaved]
        exact .beginTwice
      | commit =>
        have hcommit : s.respond .commit = (.done, ⟨s.tables, none⟩) := by
          simp [respond, apply, hsaved]
        rw [hcommit]
        exact .commit
      | rollback =>
        have hrollback : s.respond .rollback = (.done, ⟨saved, none⟩) := by
          simp [respond, apply, hsaved]
        rw [hrollback]
        exact .rollback
      | _ => exact absurd rfl hop

end Store

namespace Machine

/-- The rules leave no choice. -/
theorem Step.unique {m n k : Machine} {op : StoreOp} {a b : Answer} (h : m.Step op a n)
    (h' : m.Step op b k) : a = b ∧ n = k := by
  cases h with
  | write hop => cases h' <;> first | exact ⟨rfl, rfl⟩ | cases hop
  | closed hop => cases h' <;> first | exact ⟨rfl, rfl⟩ | exact absurd rfl hop
  | begin => cases h' with
    | begin => exact ⟨rfl, rfl⟩
    | closed hop => exact absurd rfl hop
  | beginTwice | commit | rollback =>
    cases h' with
    | write hop => cases hop
    | _ => exact ⟨rfl, rfl⟩

theorem Reads.unique {m : Machine} {query : Query} {a b : Answer} (h : m.Reads query a)
    (h' : m.Reads query b) : a = b := by
  cases h with
  | visible h =>
    cases h' with
    | visible h' => exact h.unique h'
    | inTransaction => cases h
  | inTransaction =>
    cases h' with
    | visible h' => cases h'
    | inTransaction => rfl

end Machine

namespace Store

variable {s : Store} {op : StoreOp} {a : Answer} {m : Machine}

theorem step_machine_iff :
    s.machine.Step op a m ↔ a = (s.respond op).1 ∧ m = (s.respond op).2.machine := by
  constructor
  · intro h
    exact h.unique (s.step_machine op)
  · rintro ⟨rfl, rfl⟩
    exact s.step_machine op

/-- What a store reads is what its machine shows. -/
theorem reads_machine (s : Store) (query : Query) : s.machine.Reads query (s.read query) := by
  by_cases hquery : query = .inTransaction
  · subst hquery
    have hworking : s.machine.working.isSome = s.inTransaction := by
      cases hsaved : s.saved with
      | none => rw [machine_of_closed hsaved, inTransaction, hsaved]; rfl
      | some saved => rw [machine_of_open hsaved, inTransaction, hsaved]; rfl
    rw [read, ← hworking]
    exact .inTransaction
  · refine .visible ?_
    rw [visible_machine]
    cases query with
    | file path => exact .file path
    | files =>
      exact .files s.tables.increasing_fileList fun r =>
        s.tables.mem_fileList.trans KeyedTable.exists_get?_iff.symm
    | scopes path => exact .scopes path
    | classlike name => exact .classlike name
    | classlikes =>
      exact .classlikes s.tables.increasing_classlikeList fun c =>
        s.tables.mem_classlikeList.trans KeyedTable.exists_get?_iff.symm
    | function name => exact .function name
    | constant name => exact .constant name
    | knows kind name => cases kind <;> exact .knows _ name
    | inTransaction => exact absurd rfl hquery

theorem reads_machine_iff {query : Query} : s.machine.Reads query a ↔ a = s.read query := by
  constructor
  · intro h
    exact h.unique (s.reads_machine query)
  · rintro rfl
    exact s.reads_machine query

end Store

/-! ### Sequences of calls -/

namespace Machine

variable {m : Machine} {calls : List Call} {answers : List Answer}

theorem run_nil_iff : m.Run [] answers ↔ answers = [] := by
  constructor
  · rintro ⟨⟩
    rfl
  · rintro rfl
    exact .nil

theorem run_op_iff {op : StoreOp} : m.Run (.op op :: calls) answers ↔
    ∃ a next rest, m.Step op a next ∧ next.Run calls rest ∧ answers = a :: rest := by
  constructor
  · intro h
    cases h with
    | op h rest => exact ⟨_, _, _, h, rest, rfl⟩
  · rintro ⟨a, next, rest, h, hrest, rfl⟩
    exact .op h hrest

theorem run_read_iff {query : Query} : m.Run (.read query :: calls) answers ↔
    ∃ a rest, m.Reads query a ∧ m.Run calls rest ∧ answers = a :: rest := by
  constructor
  · intro h
    cases h with
    | read h rest => exact ⟨_, _, h, rest, rfl⟩
  · rintro ⟨a, rest, h, hrest, rfl⟩
    exact .read h hrest

end Machine

/-- A store and its machine go on answering alike. -/
theorem Store.run_machine_iff (s : Store) (calls : List Call) (answers : List Answer) :
    s.machine.Run calls answers ↔ answers = s.run calls := by
  induction calls generalizing s answers with
  | nil => exact Machine.run_nil_iff
  | cons call calls ih =>
    cases call with
    | op op =>
      rw [Machine.run_op_iff, run]
      constructor
      · rintro ⟨a, next, rest, hstep, hrest, rfl⟩
        obtain ⟨rfl, rfl⟩ := step_machine_iff.1 hstep
        rw [(ih _ _).1 hrest]
      · rintro rfl
        exact ⟨_, _, _, s.step_machine op, (ih _ _).2 rfl, rfl⟩
    | read query =>
      rw [Machine.run_read_iff, run]
      constructor
      · rintro ⟨a, rest, hread, hrest, rfl⟩
        rw [reads_machine_iff.1 hread, (ih _ _).1 hrest]
      · rintro rfl
        exact ⟨_, _, s.reads_machine query, (ih _ _).2 rfl, rfl⟩

/-- The answers of a store to a sequence of calls are those of committed contents with a working
copy, and these have no others. -/
theorem Machine.run_empty_iff (calls : List Call) (answers : List Answer) :
    Machine.empty.Run calls answers ↔ answers = Store.empty.run calls :=
  Store.run_machine_iff Store.empty calls answers

end PhpAtlas
