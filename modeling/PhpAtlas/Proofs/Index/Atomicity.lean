import PhpAtlas.Index.Basic
import PhpAtlas.Proofs.Store.Listings
import PhpAtlas.Proofs.Store.Runs

/-!
# A file is indexed as a whole or not at all

Indexing a document takes three transactions, and one more when it fails.  While nothing but
entering can fail, a failed transaction is rolled back to where it started, also where it had
replaced entries of other files.  What the earlier transactions left of the document is owned by its
path, so the last deletion removes just that.

## Main definitions

* `StoreOp.isPut` — the operations that enter something.
* `Tables.withDocument` — the tables with everything of a document entered.
* `Tables.Lacks` — tables that lack a file with all that it owns, and nothing else.

## Main results

* `Vault.transaction_atomic` — a transaction is done or leaves the store as it was.
* `Tables.deleteFile_withRecord` — a deletion undoes the first half of indexing.
* `indexDocument_atomic` — indexing fails exactly if an entry failed, and then leaves the store
  without the document; else it enters all of it.
-/

namespace PhpAtlas

/-- Whether an operation enters something. -/
def StoreOp.isPut : StoreOp → Bool
  | .putFile _ | .putScopes _ _ | .putClasslike _ | .putFunction _ | .putConstant _ => true
  | _ => false

theorem StoreOp.isWrite_of_isPut {op : StoreOp} (h : op.isPut = true) : op.isWrite = true := by
  cases op <;> first | rfl | cases h

theorem Declaration.isPut_op (a : Atlas) (site : Site) (d : Declaration) :
    (d.op a site).isPut = true := by
  cases d <;> rfl

namespace Tables

/-! ### What indexing enters -/

/-- The record and the namespaces of a document are entered. -/
def withRecord (doc : Document) (time : Nat) (t : Tables) : Tables :=
  (t.putFile ⟨doc.path, time, doc.diagnostics⟩).putScopes doc.path doc.scopes

/-- Declarations are entered one after the other. -/
def withDeclarations (maxDepth : Nat) (site : Site) (ds : List Declaration) (t : Tables) : Tables :=
  ds.foldl (fun t d => (d.op ⟨t, maxDepth⟩ site).write t) t

/-- What was known of a document is replaced by the document. -/
def withDocument (maxDepth : Nat) (doc : Document) (time : Nat) (t : Tables) : Tables :=
  ((t.deleteFile doc.path).withRecord doc time).withDeclarations maxDepth ⟨doc, doc.scopes, none⟩
    (declarations doc.statements)

/-- The tables `t` are the tables `s` without a file and all that it owns. -/
structure Lacks (path : String) (s t : Tables) : Prop where
  file : ∀ other, t.file? other = if other = path then none else s.file? other
  scopes : ∀ other, t.scopes.get? other = if other = path then none else s.scopes.get? other
  classlike : ∀ name, t.classlike? name = (s.classlike? name).filter (·.file != path)
  function : ∀ name, t.function? name = (s.function? name).filter (·.file != path)
  constant : ∀ name, t.constant? name = (s.constant? name).filter (·.file != path)

theorem lacks_deleteFile (path : String) (t : Tables) : t.Lacks path (t.deleteFile path) where
  file other := KeyedTable.get?_erase t.files path other
  scopes other := Table.get?_erase t.scopes path other
  classlike _ := KeyedTable.get?_keep _ t.classlikes _
  function _ := KeyedTable.get?_keep _ t.functions _
  constant _ := KeyedTable.get?_keep _ t.constants _

theorem deleteFile_deleteFile (path : String) (t : Tables) :
    (t.deleteFile path).deleteFile path = t.deleteFile path := by
  refine Tables.ext ?_ ?_ ?_ ?_ ?_
  · refine KeyedTable.eq_of_get? fun k => ?_
    by_cases hk : k = path <;> simp [deleteFile, hk]
  · refine Table.eq_of_get? fun k => ?_
    by_cases hk : k = path <;> simp [deleteFile, hk]
  · exact KeyedTable.eq_of_get? fun k => by simp [deleteFile]
  · exact KeyedTable.eq_of_get? fun k => by simp [deleteFile]
  · exact KeyedTable.eq_of_get? fun k => by simp [deleteFile]

/-- Deleting a file undoes its record and its namespaces. -/
theorem deleteFile_withRecord (doc : Document) (time : Nat) (t : Tables) :
    (t.withRecord doc time).deleteFile doc.path = t.deleteFile doc.path := by
  refine Tables.ext ?_ ?_ rfl rfl rfl
  · refine KeyedTable.eq_of_get? fun k => ?_
    by_cases hk : k = doc.path <;> simp [deleteFile, withRecord, putFile, putScopes, hk]
  · refine Table.eq_of_get? fun k => ?_
    by_cases hk : k = doc.path <;> simp [deleteFile, withRecord, putFile, putScopes, hk]

end Tables

namespace Vault

variable {v w : Vault} {P Q : StoreOp → Prop} {f : Tables → Tables} {body : VaultM Unit}

/-! ### Transactions where only entering can fail -/

/-- Nothing but entering can fail. -/
def OnlyPutsFail (v : Vault) : Prop := ∀ tried op, v.schedule tried op = true → op.isPut = true

theorem OnlyPutsFail.of_tries (hputs : v.OnlyPutsFail) (h : Tries P v w) : w.OnlyPutsFail := by
  intro tried op hfault
  rw [h.schedule] at hfault
  exact hputs tried op hfault

theorem Fault.put (hputs : v.OnlyPutsFail) (h : Fault Q v w) :
    Fault (fun op => Q op ∧ op.isPut = true) v w := by
  obtain ⟨op, before, hQ, hbefore, hop, hfault⟩ := h
  exact ⟨op, before, ⟨hQ, hputs before op hfault⟩, hbefore, hop, hfault⟩

/-- A transaction is done, or leaves the store as it was. -/
theorem transaction_atomic (hputs : v.OnlyPutsFail) (hbody : Writes P f body)
    (hP : ∀ op, P op → op.isWrite = true) (hclosed : v.store.saved = none) :
    Ends (transaction body) v
      (fun _ w => Tries (fun _ => True) v w ∧ (∀ Q, ¬ Fault Q v w) ∧
        w.store = ⟨f v.store.tables, none⟩)
      (fun _ w => Tries (fun _ => True) v w ∧ Fault (fun op => P op ∧ op.isPut = true) v w ∧
        w.store = v.store) := by
  refine (transaction_ends hbody hP hclosed).mono (fun _ _ h => h) ?_
  rintro _ w ⟨htries, haborted⟩
  refine ⟨htries, ?_⟩
  cases haborted with
  | unchanged hfault _ hstore =>
    refine ⟨(hfault.put hputs).mono ?_, hstore⟩
    rintro op ⟨rfl | hop, hput⟩
    · cases hput
    · exact ⟨hop, hput⟩
  | uncommitted hfault _ =>
    obtain ⟨op, before, ⟨rfl, hput⟩, -⟩ := hfault.put hputs
    cases hput
  | stuck hfault =>
    obtain ⟨op, before, ⟨rfl, hput⟩, -⟩ := hfault.put hputs
    cases hput

/-- Deleting a file cannot fail. -/
theorem deletion_ends (hputs : v.OnlyPutsFail) (path : String) (hclosed : v.store.saved = none) :
    Ends (transaction (perform (.deleteFile path))) v
      (fun _ w => Tries (fun _ => True) v w ∧ (∀ Q, ¬ Fault Q v w) ∧
        w.store = ⟨v.store.tables.deleteFile path, none⟩)
      (fun _ _ => False) := by
  have hbody : Writes (· = .deleteFile path) (·.deleteFile path) (perform (.deleteFile path)) :=
    writes_perform rfl rfl
  refine (transaction_atomic hputs hbody (by rintro op rfl; rfl) hclosed).mono
    (fun _ _ h => h) ?_
  rintro _ w ⟨-, ⟨op, before, ⟨rfl, hput⟩, -⟩, -⟩
  cases hput

end Vault

open Vault

/-! ### Indexing -/

variable {v w : Vault}

theorem putRecord_writes (doc : Document) (time : Nat) :
    Writes (·.isPut = true) (Tables.withRecord doc time) (putRecord doc time) := by
  have hfile : Writes (·.isPut = true) (·.putFile ⟨doc.path, time, doc.diagnostics⟩)
      (perform (.putFile ⟨doc.path, time, doc.diagnostics⟩)) := writes_perform rfl rfl
  exact hfile.seq (writes_perform rfl rfl)

theorem putDeclarations_writes (maxDepth : Nat) (site : Site) (ds : List Declaration) :
    Writes (·.isPut = true) (Tables.withDeclarations maxDepth site ds)
      (putDeclarations maxDepth site ds) := by
  refine writes_forM ds fun d => writes_tables fun t => ?_
  have hput := d.isPut_op ⟨t, maxDepth⟩ site
  exact writes_perform hput (StoreOp.isWrite_of_isPut hput)

/-- Entering a document enters all of it, or fails with an entry and leaves nothing that a deletion
would not remove. -/
theorem putDocument_ends (hputs : v.OnlyPutsFail) (hclosed : v.store.saved = none) (maxDepth : Nat)
    (doc : Document) (time : Nat) :
    Ends (putDocument maxDepth doc time) v
      (fun _ w => Tries (fun _ => True) v w ∧ (∀ Q, ¬ Fault Q v w) ∧
        w.store = ⟨(v.store.tables.withRecord doc time).withDeclarations maxDepth
          ⟨doc, doc.scopes, none⟩ (declarations doc.statements), none⟩)
      (fun _ w => Tries (fun _ => True) v w ∧ Fault (·.isPut = true) v w ∧
        w.store.saved = none ∧
        w.store.tables.deleteFile doc.path = v.store.tables.deleteFile doc.path) := by
  refine ends_bind.2 ((transaction_atomic hputs (putRecord_writes doc time)
    (fun _ => StoreOp.isWrite_of_isPut) hclosed).mono ?_ ?_)
  · rintro _ u ⟨hu, hnone, hstore⟩
    have hscopes : u.store.tables.scopesOf doc.path = doc.scopes := by
      rw [hstore]
      simp [Tables.scopesOf, Tables.withRecord, Tables.putScopes]
    refine ends_bind.2 (ends_tables.2 ?_)
    rw [hscopes]
    refine (transaction_atomic (hputs.of_tries hu) (putDeclarations_writes maxDepth _ _)
      (fun _ => StoreOp.isWrite_of_isPut) (by rw [hstore])).mono ?_ ?_
    · rintro _ w ⟨hw, hnone', hstore'⟩
      refine ⟨hu.trans hw, fun Q => ?_, ?_⟩
      · rw [fault_trans hu hw]
        exact not_or.2 ⟨hnone Q, hnone' Q⟩
      · rw [hstore', hstore]
    · rintro _ w ⟨hw, hfault, hstore'⟩
      refine ⟨hu.trans hw, (fault_trans hu hw).2 (.inr (hfault.mono fun _ h => h.2)), ?_, ?_⟩
      · rw [hstore', hstore]
      · rw [hstore', hstore]
        exact Tables.deleteFile_withRecord doc time v.store.tables
  · rintro _ w ⟨hw, hfault, hstore⟩
    refine ⟨hw, hfault.mono fun _ h => h.2, ?_, ?_⟩
    · rw [hstore, hclosed]
    · rw [hstore]

/-- Indexing replaces what is known of the document, or fails with an entry and deletes it. -/
theorem indexDocument_ends (hputs : v.OnlyPutsFail) (hclosed : v.store.saved = none)
    (maxDepth : Nat) (doc : Document) (time : Nat) :
    Ends (indexDocument maxDepth doc time) v
      (fun _ w => ¬ Fault (·.isPut = true) v w ∧
        w.store = ⟨v.store.tables.withDocument maxDepth doc time, none⟩)
      (fun _ w => Fault (·.isPut = true) v w ∧
        w.store = ⟨v.store.tables.deleteFile doc.path, none⟩) := by
  refine ends_bind.2 ((deletion_ends hputs doc.path hclosed).mono ?_ fun _ _ h => h.elim)
  rintro _ u ⟨hu, hnone, hstore⟩
  refine ends_tryCatch.2 ((putDocument_ends (hputs.of_tries hu) (by rw [hstore]) maxDepth doc
    time).mono ?_ ?_)
  · rintro _ w ⟨hw, hnone', hstore'⟩
    refine ⟨?_, ?_⟩
    · rw [fault_trans hu hw]
      exact not_or.2 ⟨hnone _, hnone' _⟩
    · rw [hstore', hstore]
      rfl
  · rintro e w ⟨hw, hfault, hclosed', hdelete⟩
    -- the cleanup starts where the failed half was rolled back to
    refine ends_bind.2 (ends_tryCatch.2 ((deletion_ends (hputs.of_tries (hu.trans hw)) doc.path
      hclosed').mono ?_ fun _ _ h => h.elim))
    rintro _ x ⟨hx, -, hstore'⟩
    refine ⟨?_, ?_⟩
    · rw [fault_trans (hu.trans hw) hx, fault_trans hu hw]
      exact .inl (.inr hfault)
    · rw [hstore', hdelete, hstore]
      exact congrArg (Store.mk · none) (Tables.deleteFile_deleteFile doc.path v.store.tables)

/-- A text on which the reader broke off is not indexed, and its path is forgotten. -/
theorem indexReading_none_ends (hputs : v.OnlyPutsFail) (hclosed : v.store.saved = none)
    (maxDepth : Nat) (path : String) (time : Nat) :
    Ends (indexReading maxDepth path none time) v
      (fun r w => Tries (fun _ => True) v w ∧ r = .error (.unread path) ∧
        w.store = ⟨v.store.tables.deleteFile path, none⟩ ∧
        v.store.tables.Lacks path w.store.tables)
      (fun _ _ => False) := by
  refine ends_tryCatch.2 (ends_bind.2
    ((deletion_ends hputs path hclosed).mono ?_ fun _ _ h => h.elim))
  rintro _ w ⟨hw, -, hstore⟩
  refine (ends_pure _).2 ⟨hw, rfl, hstore, ?_⟩
  rw [hstore]
  exact Tables.lacks_deleteFile path v.store.tables

/-- Indexing fails exactly if an entry failed.  Then the store is as before without the document,
and every entry of another file is there; else the document is entered as a whole.  No transaction
stays open. -/
theorem indexDocument_atomic (v : Vault) (hclosed : v.store.saved = none) (hputs : v.OnlyPutsFail)
    (maxDepth : Nat) (doc : Document) (time : Nat) :
    (fails (indexDocument maxDepth doc time) v = true ↔
      Fault (·.isPut = true) v (after (indexDocument maxDepth doc time) v)) ∧
    (fails (indexDocument maxDepth doc time) v = true →
      (after (indexDocument maxDepth doc time) v).store =
        ⟨v.store.tables.deleteFile doc.path, none⟩ ∧
      v.store.tables.Lacks doc.path (after (indexDocument maxDepth doc time) v).store.tables) ∧
    (fails (indexDocument maxDepth doc time) v = false →
      (after (indexDocument maxDepth doc time) v).store =
        ⟨v.store.tables.withDocument maxDepth doc time, none⟩) := by
  have hends := indexDocument_ends hputs hclosed maxDepth doc time
  unfold Ends at hends
  unfold fails after
  cases hrun : indexDocument maxDepth doc time v with
  | ok _ w =>
    rw [hrun] at hends
    obtain ⟨hnone, hstore⟩ := hends
    exact ⟨⟨fun h => (Bool.false_ne_true h).elim, fun h => (hnone h).elim⟩,
      fun h => (Bool.false_ne_true h).elim, fun _ => hstore⟩
  | error e w =>
    rw [hrun] at hends
    obtain ⟨hfault, hstore⟩ := hends
    refine ⟨⟨fun _ => hfault, fun _ => rfl⟩, fun _ => ⟨hstore, ?_⟩, fun h => (Bool.noConfusion h)⟩
    rw [hstore]
    exact Tables.lacks_deleteFile doc.path v.store.tables

/-- A store in which `a.php` declares the class `A`, and where the second entry of a classlike
fails. -/
def secondClassFails : Vault :=
  (after (indexDocument 10 (Document.ofSource "a.php" "<?php class A {}") 0)
    Vault.empty).withSchedule (Schedule.window (·.method == "upsert_classlike") 1 none)

/-- When `b.php` has replaced the class and then fails, the class of `a.php` is back. -/
theorem indexDocument_atomic_overwritten :
    secondClassFails.store.saved = none ∧ secondClassFails.OnlyPutsFail ∧
    fails (indexDocument 10 (Document.ofSource "b.php" "<?php class A {} class B {}") 1)
      secondClassFails = true ∧
    ((after (indexDocument 10 (Document.ofSource "b.php" "<?php class A {} class B {}") 1)
      secondClassFails).store.tables.classlike? "A").map (·.file) = some "a.php" := by
  have hclosed : secondClassFails.store.saved = none :=
    Option.isNone_iff_eq_none.1 (by decide +kernel)
  have hputs : secondClassFails.OnlyPutsFail := by
    intro tried op hfault
    cases op <;> first | rfl | cases hfault
  have hfails : fails (indexDocument 10
      (Document.ofSource "b.php" "<?php class A {} class B {}") 1) secondClassFails = true := by
    decide +kernel
  obtain ⟨-, hlacks⟩ := (indexDocument_atomic secondClassFails hclosed hputs 10
    (Document.ofSource "b.php" "<?php class A {} class B {}") 1).2.1 hfails
  refine ⟨hclosed, hputs, hfails, ?_⟩
  rw [hlacks.classlike]
  decide +kernel

end PhpAtlas
