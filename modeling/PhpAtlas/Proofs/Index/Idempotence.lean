import PhpAtlas.Proofs.Index.Deductions
import PhpAtlas.Proofs.Index.Requests

/-!
# Indexing a document again

A document is indexed against the tables without what was known of it before.  If no other file owns
a symbol that the document declares, its entries take nothing away from other files, and deleting
the document leads back to the tables that it was entered into.  So a second indexing starts where
the first one did: each constant is deduced from the same symbols, and the entries are the same.
Only the time on the record is new, and no entry depends on it.

## Main definitions

* `Tables.Undisputed` — no other file owns a symbol that a document declares.
* `Tables.SameButTimes` — tables that differ only in the times of indexing.

## Main results

* `Tables.deleteFile_withDocument` — deleting an undisputed document undoes indexing it.
* `Tables.withDocument_eq_putFile` — the entries of a document do not depend on the time.
* `Tables.deductionsEnd_withDocument` — the deductions that end the first time end again.
* `indexDocument_twice` — indexing an undisputed document again changes nothing but its time.
-/

namespace PhpAtlas

open Vault

/-! ### Deleting what was entered -/

/-- A value that is not kept is entered in vain, unless it replaces one that is kept. -/
theorem KeyedTable.keep_put {α : Type} {key : α → String} {p : α → Bool} {t : KeyedTable key}
    {a : α} (hnew : p a = false) (hold : ∀ b ∈ t.get? (key a), p b = false) :
    (t.put a).keep p = t.keep p := by
  refine KeyedTable.eq_of_get? fun k => ?_
  rw [get?_keep, get?_keep, get?_put]
  split
  · rename_i hk
    have hnone : (t.get? (key a)).filter p = none :=
      Option.filter_eq_none_iff.2 fun b hb => Bool.not_eq_true _ ▸ hold b hb
    rw [hk, hnone]
    simp [hnew]
  · rfl

namespace Tables

variable {t : Tables} {maxDepth : Nat} {site : Site} {doc : Document}

/-- Deleting a file undoes an entry of it that replaced nothing of another file. -/
theorem deleteFile_write {op : StoreOp} {k : SymbolKind} {full file : String}
    (h : op.Enters k full file) (hfree : ∀ f ∈ t.owner? k full, f = file) :
    (op.write t).deleteFile file = t.deleteFile file := by
  have hdeleted : ∀ {f}, t.owner? k full = some f → (f != file) = false := fun hf =>
    bne_eq_false_iff_eq.2 (hfree _ hf)
  cases h with
  | classlike c =>
    have hkeep := KeyedTable.keep_put (t := t.classlikes) (p := (·.file != c.file))
      (bne_self_eq_false c.file) fun b hb => hdeleted (Option.map_eq_some_iff.2 ⟨b, hb, rfl⟩)
    exact Tables.ext rfl rfl hkeep rfl rfl
  | function f =>
    have hkeep := KeyedTable.keep_put (t := t.functions) (p := (·.file != f.file))
      (bne_self_eq_false f.file) fun b hb => hdeleted (Option.map_eq_some_iff.2 ⟨b, hb, rfl⟩)
    exact Tables.ext rfl rfl rfl hkeep rfl
  | constant c =>
    have hkeep := KeyedTable.keep_put (t := t.constants) (p := (·.file != c.file))
      (bne_self_eq_false c.file) fun b hb => hdeleted (Option.map_eq_some_iff.2 ⟨b, hb, rfl⟩)
    exact Tables.ext rfl rfl rfl rfl hkeep

theorem deleteFile_withDeclarations {ds : List Declaration}
    (hfree : ∀ d ∈ ds, ∀ file ∈ t.owner? d.kind (d.full site), file = site.doc.path) :
    (t.withDeclarations maxDepth site ds).deleteFile site.doc.path =
      t.deleteFile site.doc.path := by
  induction ds generalizing t with
  | nil => rfl
  | cons d ds ih =>
    have henters := d.enters ⟨t, maxDepth⟩ site
    refine (ih fun e he file hfile => ?_).trans (deleteFile_write henters (hfree d (by simp)))
    -- a name that `d` shares with a later declaration is now owned by their document
    rw [henters.owner?_write] at hfile
    split at hfile
    · exact (Option.some.inj hfile).symm
    · exact hfree e (List.mem_cons_of_mem _ he) file hfile

/-- No other file owns a symbol that the document declares. -/
def Undisputed (t : Tables) (doc : Document) : Prop :=
  ∀ d ∈ declarations doc.statements, ∀ file ∈ t.owner? d.kind (d.full doc.site), file = doc.path

/-- Deleting a document leads back to the tables that it was entered into. -/
theorem deleteFile_withDocument (h : t.Undisputed doc) (time : Nat) :
    (t.withDocument maxDepth doc time).deleteFile doc.path = t.deleteFile doc.path := by
  have hfree : ∀ d ∈ declarations doc.statements,
      ∀ file ∈ ((t.deleteFile doc.path).withRecord doc time).owner? d.kind (d.full doc.site),
        file = doc.path := by
    intro d hd file hfile
    have howner : ((t.deleteFile doc.path).withRecord doc time).owner? d.kind (d.full doc.site) =
        (t.owner? d.kind (d.full doc.site)).filter (· != doc.path) := by
      rw [← owner?_deleteFile]
      cases d.kind <;> rfl
    rw [howner] at hfile
    exact h d hd file (Option.mem_filter_iff.1 hfile).1
  calc (t.withDocument maxDepth doc time).deleteFile doc.path
      = ((t.deleteFile doc.path).withRecord doc time).deleteFile doc.path :=
        deleteFile_withDeclarations hfree
    _ = (t.deleteFile doc.path).deleteFile doc.path := deleteFile_withRecord doc time _
    _ = t.deleteFile doc.path := deleteFile_deleteFile doc.path t

/-- Of several indexings of an undisputed document, the last one counts. -/
theorem withDocument_withDocument (h : t.Undisputed doc) (time later : Nat) :
    (t.withDocument maxDepth doc time).withDocument maxDepth doc later =
      t.withDocument maxDepth doc later := by
  rw [withDocument, deleteFile_withDocument h]
  rfl

/-! ### The time of indexing -/

/-- Declarations do not see the records of files. -/
theorem withDeclarations_putFile (ds : List Declaration) (t : Tables) (r : FileRecord) :
    (t.putFile r).withDeclarations maxDepth site ds =
      (t.withDeclarations maxDepth site ds).putFile r := by
  induction ds generalizing t with
  | nil => rfl
  | cons d ds ih =>
    have hsame : (Atlas.mk (t.putFile r) maxDepth).SameSymbols ⟨t, maxDepth⟩ := ⟨rfl, rfl, rfl, rfl⟩
    have hwrite : (d.op ⟨t.putFile r, maxDepth⟩ site).write (t.putFile r) =
        ((d.op ⟨t, maxDepth⟩ site).write t).putFile r := by
      rw [hsame.op site d]
      cases d <;> rfl
    exact (congrArg (withDeclarations maxDepth site ds) hwrite).trans (ih _)

/-- The entries of a document, apart from its record, do not depend on the time. -/
theorem withDocument_eq_putFile (maxDepth : Nat) (doc : Document) (time : Nat) (t : Tables) :
    t.withDocument maxDepth doc time =
      (((t.deleteFile doc.path).putScopes doc.path doc.scopes).withDeclarations maxDepth doc.site
        (declarations doc.statements)).putFile ⟨doc.path, time, doc.diagnostics⟩ :=
  withDeclarations_putFile (declarations doc.statements)
    ((t.deleteFile doc.path).putScopes doc.path doc.scopes) ⟨doc.path, time, doc.diagnostics⟩

/-- Two tables differ only in the times of indexing. -/
structure SameButTimes (s t : Tables) : Prop where
  files : ∀ path, (s.file? path).map (fun r => (r.path, r.diagnostics)) =
    (t.file? path).map fun r => (r.path, r.diagnostics)
  scopes : s.scopes = t.scopes
  classlikes : s.classlikes = t.classlikes
  functions : s.functions = t.functions
  constants : s.constants = t.constants

theorem sameButTimes_withDocument (maxDepth : Nat) (doc : Document) (time later : Nat)
    (t : Tables) :
    (t.withDocument maxDepth doc later).SameButTimes (t.withDocument maxDepth doc time) := by
  have hlater := withDocument_eq_putFile maxDepth doc later t
  have htime := withDocument_eq_putFile maxDepth doc time t
  refine ⟨fun path => ?_, ?_, ?_, ?_, ?_⟩
  · rw [file?_withDocument, file?_withDocument]
    split <;> rfl
  all_goals
    rw [hlater, htime]
    rfl

end Tables

/-! ### Indexing twice -/

/-- A document that is indexed again makes the deductions that it made at first. -/
theorem Tables.deductionsEnd_withDocument {t : Tables} {maxDepth : Nat} {doc : Document}
    (h : t.Undisputed doc) (time later : Nat) :
    (t.withDocument maxDepth doc time).DeductionsEnd maxDepth doc later ↔
      t.DeductionsEnd maxDepth doc time := by
  rw [DeductionsEnd, DeductionsEnd, deleteFile_withDocument h]
  refine declarationsEnd_congr ?_ _
  exact ⟨rfl, rfl, rfl, rfl⟩

/-- Where nothing fails, an undisputed document is entered, and indexing it once more at any time
leaves tables that differ only in times.  So every classlike is resolved as before.  If the
deductions of the first indexing end, so do those of the second. -/
theorem indexDocument_twice (v : Vault) (hfaultless : v.Faultless) (hclosed : v.store.saved = none)
    (maxDepth : Nat) (doc : Document) (hundisputed : v.store.tables.Undisputed doc)
    (time later : Nat) :
    let once := after (indexDocument maxDepth doc time) v
    let twice := after (indexDocument maxDepth doc later) once
    fails (indexDocument maxDepth doc time) v = false ∧
    fails (indexDocument maxDepth doc later) once = false ∧
    once.store = ⟨v.store.tables.withDocument maxDepth doc time, none⟩ ∧
    twice.store.saved = none ∧
    twice.store.tables.SameButTimes once.store.tables ∧
    (∀ depth name,
      twice.store.tables.resolve depth name = once.store.tables.resolve depth name) ∧
    (v.store.tables.DeductionsEnd maxDepth doc time →
      once.store.tables.DeductionsEnd maxDepth doc later) := by
  intro once twice
  obtain ⟨hfirst, hfaultless', honce⟩ :=
    indexDocument_faultless hfaultless hclosed maxDepth doc time
  have hclosed' : once.store.saved = none := congrArg Store.saved honce
  obtain ⟨hsecond, -, htwice⟩ := indexDocument_faultless hfaultless' hclosed' maxDepth doc later
  have honce' : once.store.tables = v.store.tables.withDocument maxDepth doc time :=
    congrArg Store.tables honce
  have hsame : twice.store.tables.SameButTimes once.store.tables := by
    have htables : twice.store.tables = v.store.tables.withDocument maxDepth doc later :=
      calc twice.store.tables
          = once.store.tables.withDocument maxDepth doc later := congrArg Store.tables htwice
        _ = (v.store.tables.withDocument maxDepth doc time).withDocument maxDepth doc later :=
            congrArg (·.withDocument maxDepth doc later) honce'
        _ = v.store.tables.withDocument maxDepth doc later :=
            Tables.withDocument_withDocument hundisputed time later
    rw [htables, honce']
    exact Tables.sameButTimes_withDocument maxDepth doc time later v.store.tables
  have hresolve := Tables.resolve_congr hsame.classlikes
  refine ⟨hfirst, hsecond, honce, congrArg Store.saved htwice, hsame,
    fun depth name => congrFun (congrFun hresolve depth) name, fun hends => ?_⟩
  rw [honce']
  exact (Tables.deductionsEnd_withDocument hundisputed time later).2 hends

/-- A store with a library `b.php` and an old version of `a.php`. -/
def libraryStore : Vault :=
  Vault.empty.serve
    [.index 10 (Document.ofSource "b.php" "<?php function f(): int {} class B {}") 0,
      .index 10 (Document.ofSource "a.php" "<?php const C = 'old'; class A {}") 1]

/-- A document that uses the library, and deduces one constant from another of its own. -/
def libraryUser : Document :=
  Document.ofSource "a.php" "<?php const C = f(); define('D', C); class A extends B {}"

instance (t : Tables) (doc : Document) : Decidable (t.Undisputed doc) :=
  inferInstanceAs (Decidable (∀ d ∈ declarations doc.statements,
    ∀ file ∈ t.owner? d.kind (d.full doc.site), file = doc.path))

/-- The constants get the types that they got the first time. -/
theorem indexDocument_twice_libraryUser :
    libraryStore.Faultless ∧ libraryStore.store.saved = none ∧
    libraryStore.store.tables.Undisputed libraryUser ∧
    (after (indexDocument 10 libraryUser 3)
      (after (indexDocument 10 libraryUser 2) libraryStore)).store.tables.SameButTimes
        (after (indexDocument 10 libraryUser 2) libraryStore).store.tables ∧
    libraryStore.store.tables.DeductionsEnd 10 libraryUser 2 ∧
    (after (indexDocument 10 libraryUser 2) libraryStore).store.tables.DeductionsEnd 10
      libraryUser 3 ∧
    ((after (indexDocument 10 libraryUser 3)
      (after (indexDocument 10 libraryUser 2) libraryStore)).store.tables.constant? "D").map
        (·.types.names) = some ["int"] := by
  obtain ⟨hfaultless, hstore⟩ : libraryStore.Faultless ∧ libraryStore.store = _ :=
    Vault.serve_faultless (v := Vault.empty) (fun _ _ => rfl) rfl _
  have hclosed : libraryStore.store.saved = none := congrArg Store.saved hstore
  have hundisputed : libraryStore.store.tables.Undisputed libraryUser := by decide +kernel
  have hends : libraryStore.store.tables.DeductionsEnd 10 libraryUser 2 := by decide +kernel
  obtain ⟨-, -, -, -, hsame, -, hagain⟩ :=
    indexDocument_twice libraryStore hfaultless hclosed 10 libraryUser hundisputed 2 3
  exact ⟨hfaultless, hclosed, hundisputed, hsame, hends, hagain hends, by decide +kernel⟩

end PhpAtlas
