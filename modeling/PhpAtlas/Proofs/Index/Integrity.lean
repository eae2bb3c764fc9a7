import PhpAtlas.Proofs.Index.Requests
import PhpAtlas.Proofs.Store.Listings

/-!
# The tables of an index fit together

A document is entered together with its record and its namespaces, and a file is deleted together
with everything that it owns.  A document that takes over a symbol from another file is itself on
record.  So after any requests, of which some may have failed half-way, no symbol is left without
the record of its file, and no record without namespaces.

## Main definitions

* `Tables.Filed` — the files of all symbols are on record, and these have namespaces.
* `Tables.Coherent` — what can be relied on when the tables are read.

## Main results

* `Tables.Filed.deleteFile`, `Tables.Filed.withDocument` — deleting a file and entering a document
  keep this.
* `Tables.Filed.coherent` — the keys and listings of tables need no more.
* `serve_coherent` — after any requests to an empty index the tables fit together.
-/

namespace PhpAtlas

open Vault

namespace Tables

/-- The file of every symbol is on record, and just the files on record have namespaces. -/
structure Filed (t : Tables) : Prop where
  owner : ∀ kind name, ∀ file ∈ t.owner? kind name, (t.file? file).isSome
  scopes : ∀ path, (t.file? path).isSome ↔ (t.scopes.get? path).isSome

theorem filed_empty : Filed empty where
  owner kind name file hfile := by cases kind <;> cases hfile
  scopes path := Iff.rfl

variable {t : Tables}

theorem Filed.deleteFile (h : t.Filed) (path : String) : (t.deleteFile path).Filed where
  owner kind name file hfile := by
    rw [owner?_deleteFile, Option.mem_def, Option.filter_eq_some_iff, bne_iff_ne] at hfile
    rw [(t.lacks_deleteFile path).file, if_neg hfile.2]
    exact h.owner kind name file hfile.1
  scopes other := by
    rw [(t.lacks_deleteFile path).file, (t.lacks_deleteFile path).scopes]
    split
    · exact Iff.rfl
    · exact h.scopes other

theorem Filed.withDocument (h : t.Filed) (maxDepth : Nat) (doc : Document) (time : Nat) :
    (t.withDocument maxDepth doc time).Filed where
  owner kind name file hfile := by
    rw [file?_withDocument]
    split
    · rfl
    · rename_i hother
      -- another file owns the symbol, so it owned it before
      rw [owner?_withDocument] at hfile
      split at hfile
      · exact absurd (Option.some.inj hfile).symm hother
      · exact h.owner kind name file (Option.mem_filter_iff.1 hfile).1
  scopes path := by
    rw [file?_withDocument, scopes_withDocument]
    split
    · exact Iff.rfl
    · exact h.scopes path

theorem Filed.write (h : t.Filed) (r : Request) : (r.write t).Filed := by
  cases r with
  | index maxDepth doc time => exact h.withDocument maxDepth doc time
  | delete path => exact h.deleteFile path
  | prune disk => exact List.foldlRecOn _ _ h fun _ hs path _ => hs.deleteFile path

/-! ### What a reader can rely on -/

/-- What holds of the tables of an index. -/
structure Coherent (t : Tables) : Prop where
  classlike_key : ∀ key c, t.classlikes.get? key = some c → key = Name.key c.full
  function_key : ∀ key f, t.functions.get? key = some f → key = Name.key f.full
  constant_key : ∀ key c, t.constants.get? key = some c → key = Name.qualify c.full
  classlike_file : ∀ key c, t.classlikes.get? key = some c → (t.file? c.file).isSome
  function_file : ∀ key f, t.functions.get? key = some f → (t.file? f.file).isSome
  constant_file : ∀ key c, t.constants.get? key = some c → (t.file? c.file).isSome
  scopes_iff : ∀ path, (t.file? path).isSome ↔ (t.scopes.get? path).isSome
  classlikes_increase : Increasing ClasslikeSymbol.full t.classlikeList
  files_increase : Increasing FileRecord.path t.fileList
  /-- The listing is the same in whatever order the classlikes come. -/
  classlikes_any_order : ∀ l : List ClasslikeSymbol, l.Perm t.classlikes.values →
    (l.mergeSort fun a b => a.full ≤ b.full) = t.classlikeList
  /-- The listing is the same in whatever order the files come. -/
  files_any_order : ∀ l : List FileRecord, l.Perm t.files.values →
    (l.mergeSort fun a b => a.path ≤ b.path) = t.fileList

/-- Tables are keyed and listed as they should by themselves. -/
theorem Filed.coherent (h : t.Filed) : t.Coherent where
  classlike_key _ _ hc := (KeyedTable.key_of_get? hc).symm
  function_key _ _ hf := (KeyedTable.key_of_get? hf).symm
  constant_key _ _ hc := (KeyedTable.key_of_get? hc).symm
  classlike_file key c hc := h.owner .classlike c.full c.file
    (Option.map_eq_some_iff.2 ⟨c, KeyedTable.exists_get?_iff.1 ⟨key, hc⟩, rfl⟩)
  function_file key f hf := h.owner .function f.full f.file
    (Option.map_eq_some_iff.2 ⟨f, KeyedTable.exists_get?_iff.1 ⟨key, hf⟩, rfl⟩)
  constant_file key c hc := h.owner .constant c.full c.file
    (Option.map_eq_some_iff.2 ⟨c, KeyedTable.exists_get?_iff.1 ⟨key, hc⟩, rfl⟩)
  scopes_iff := h.scopes
  classlikes_increase := t.increasing_classlikeList
  files_increase := t.increasing_fileList
  classlikes_any_order _ := t.mergeSort_classlikes
  files_any_order _ := t.mergeSort_files

end Tables

/-! ### Requests -/

/-- What is kept by every request that is done is kept by requests of which none, some or all fail,
and these leave no transaction open. -/
theorem Vault.serve_keeps {P : Tables → Prop} (hwrite : ∀ t (r : Request), P t → P (r.write t))
    {v : Vault} (hputs : v.OnlyPutsFail) (hclosed : v.store.saved = none)
    (hstart : P v.store.tables) (requests : List Request) :
    (v.serve requests).store.saved = none ∧ P (v.serve requests).store.tables := by
  induction requests generalizing v with
  | nil => exact ⟨hclosed, hstart⟩
  | cons r requests ih =>
    obtain ⟨hschedule, hsettled⟩ := r.run_settles hputs hclosed
    have hputs' : (after r.run v).OnlyPutsFail := fun tried op => hschedule ▸ hputs tried op
    cases hsettled with
    | done hstore => exact ih hputs' (by rw [hstore]) (by rw [hstore]; exact hwrite _ r hstart)
    | undone _ hstore =>
      exact ih hputs' (by rw [hstore]) (by rw [hstore]; exact hwrite _ (.delete _) hstart)

/-- Requests of which none, some or all fail leave tables that fit together, and no transaction
open. -/
theorem Vault.serve_filed {v : Vault} (hputs : v.OnlyPutsFail) (hclosed : v.store.saved = none)
    (hfiled : v.store.tables.Filed) (requests : List Request) :
    (v.serve requests).store.saved = none ∧ (v.serve requests).store.tables.Filed :=
  serve_keeps (fun _ r h => h.write r) hputs hclosed hfiled requests

/-- After any requests to an empty index, whichever entries fail, no transaction is open and the
tables fit together. -/
theorem serve_coherent (v : Vault) (hempty : v.store = Store.empty) (hputs : v.OnlyPutsFail)
    (requests : List Request) :
    (v.serve requests).store.saved = none ∧ (v.serve requests).store.tables.Coherent := by
  obtain ⟨hclosed, hfiled⟩ := serve_filed hputs (by rw [hempty]; rfl)
    (by rw [hempty]; exact Tables.filed_empty) requests
  exact ⟨hclosed, hfiled.coherent⟩

/-- An empty store in which the third entry of a classlike fails. -/
def thirdClassFails : Vault :=
  Vault.empty.withSchedule (Schedule.window (·.method == "upsert_classlike") 2 (some 1))

/-- The second of two documents takes over a class of the first, and then fails. -/
def overlappingDocuments : List Request :=
  [.index 10 (Document.ofSource "a.php" "<?php class A {} function f() {}") 0,
    .index 10 (Document.ofSource "b.php" "<?php const C = 1; class A {} class B {}") 1]

/-- The first document is left with all that it declares, and nothing is left of the second. -/
theorem serve_coherent_overlappingDocuments :
    thirdClassFails.store = Store.empty ∧ thirdClassFails.OnlyPutsFail ∧
    (thirdClassFails.serve overlappingDocuments).store.tables.Coherent ∧
    (thirdClassFails.serve overlappingDocuments).store.tables.fileList.map (·.path) = ["a.php"] ∧
    ((thirdClassFails.serve overlappingDocuments).store.tables.classlike? "A").map (·.file) =
      some "a.php" := by
  have hputs : thirdClassFails.OnlyPutsFail := by
    intro tried op hfault
    cases op <;> first | rfl | cases hfault
  refine ⟨rfl, hputs, (serve_coherent thirdClassFails rfl hputs overlappingDocuments).2, ?_, ?_⟩
  · decide +kernel
  · decide +kernel

end PhpAtlas
