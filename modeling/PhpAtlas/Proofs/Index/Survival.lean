import PhpAtlas.Proofs.Index.Integrity

/-!
# Which symbols survive

A symbol has one owner, so a document that declares a symbol of another file takes it over, and the
other file does not get it back: when the new owner is deleted or indexed without the symbol, the
symbol is gone, although the other file is still on record with its declaration.  This is the only
way in which a symbol of a file on record is lost.

## Main definitions

* `Request.declares`, `Request.concerns` — the requests that enter a symbol, and those that take
  away what a file owns.
* `Latest` — a document is the last one that was indexed for its path.
* `TakenAway` — another file took a symbol over and lost it.

## Main results

* `Tables.mem_owner?_serve`, `Tables.mem_file?_serve` — how long a symbol stays with its owner, and
  a file on record.
* `Tables.knows_iff_spared` — a symbol is known while no request concerns its last document.
* `serve_knows_iff` — a symbol of a file on record is known unless it was taken away.
* `not_forall_latest_knows` — not every symbol of a file on record is known.
-/

namespace PhpAtlas

open Vault

/-! ### Requests by what they do to a file and to a symbol -/

namespace Request

/-- Whether a request indexes a document that declares the symbol. -/
def declares (kind : SymbolKind) (name : String) : Request → Bool
  | .index _ doc _ => doc.declares kind name
  | .delete _ | .prune _ => false

/-- Whether a request indexes a document of the path. -/
def indexes (path : String) : Request → Bool
  | .index _ doc _ => path == doc.path
  | .delete _ | .prune _ => false

/-- Whether a request takes away what the file owned. -/
def concerns (path : String) : Request → Bool
  | .index _ doc _ => path == doc.path
  | .delete gone => path == gone
  | .prune disk => !disk.has path

end Request

namespace Tables

variable {t : Tables} {kind : SymbolKind} {name path file : String} {record : FileRecord}

theorem mem_gone {disk : Disk} :
    path ∈ t.gone disk ↔ (t.file? path).isSome ∧ disk.has path = false := by
  rw [gone, List.mem_filter, List.mem_map, Bool.not_eq_true', and_congr_left_iff]
  intro _
  constructor
  · rintro ⟨r, hr, rfl⟩
    rw [t.mem_fileList.1 hr]
    rfl
  · intro hsome
    obtain ⟨r, hr⟩ := Option.isSome_iff_exists.1 hsome
    obtain rfl : r.path = path := KeyedTable.key_of_get? hr
    exact ⟨r, t.mem_fileList.2 hr, rfl⟩

theorem mem_owner?_deleteFiles (paths : List String) (t : Tables) :
    file ∈ (paths.foldl deleteFile t).owner? kind name ↔
      file ∈ t.owner? kind name ∧ file ∉ paths := by
  induction paths generalizing t with
  | nil => simp
  | cons gone paths ih =>
    rw [List.foldl_cons, ih, owner?_deleteFile, Option.mem_filter_iff, bne_iff_ne, List.mem_cons,
      not_or, and_assoc]

theorem mem_file?_deleteFiles (paths : List String) (t : Tables) :
    record ∈ (paths.foldl deleteFile t).file? path ↔ record ∈ t.file? path ∧ path ∉ paths := by
  induction paths generalizing t with
  | nil => simp
  | cons gone paths ih =>
    rw [List.foldl_cons, ih, (t.lacks_deleteFile gone).file, List.mem_cons, not_or]
    by_cases hgone : path = gone
    · simp [hgone]
    · simp [hgone]

/-- A request that does not declare a symbol takes it from the owners that it concerns. -/
theorem mem_owner?_write (h : t.Filed) {r : Request} (hother : r.declares kind name = false) :
    file ∈ (r.write t).owner? kind name ↔
      file ∈ t.owner? kind name ∧ r.concerns file = false := by
  cases r with
  | index maxDepth doc time =>
    have hnot : ¬ doc.declares kind name = true := Bool.eq_false_iff.1 hother
    rw [Request.write, owner?_withDocument, if_neg hnot, Option.mem_filter_iff, bne_iff_ne]
    simp [Request.concerns]
  | delete gone =>
    rw [Request.write, owner?_deleteFile, Option.mem_filter_iff, bne_iff_ne]
    simp [Request.concerns]
  | prune disk =>
    rw [Request.write, mem_owner?_deleteFiles, and_congr_right_iff]
    intro hfile
    -- owners are on record, so they are listed if they are gone
    have hrecord := h.owner kind name file hfile
    simp [Request.concerns, mem_gone, hrecord]

/-- A request that does not index a path takes away its record if it concerns it. -/
theorem mem_file?_write {r : Request} (hother : r.indexes path = false) :
    record ∈ (r.write t).file? path ↔ record ∈ t.file? path ∧ r.concerns path = false := by
  cases r with
  | index maxDepth doc time =>
    have hne : path ≠ doc.path := beq_eq_false_iff_ne.1 hother
    rw [Request.write, file?_withDocument, if_neg hne]
    simp [Request.concerns, hne]
  | delete gone =>
    rw [Request.write, (t.lacks_deleteFile gone).file]
    by_cases hgone : path = gone
    · simp [Request.concerns, hgone]
    · simp [Request.concerns, hgone]
  | prune disk =>
    rw [Request.write, mem_file?_deleteFiles, and_congr_right_iff]
    intro hrecord
    simp [Request.concerns, mem_gone, Option.isSome_of_mem hrecord]

/-! ### Sequences of requests -/

theorem Filed.serve (h : t.Filed) (requests : List Request) : (t.serve requests).Filed :=
  List.foldlRecOn _ _ h fun _ hs r _ => hs.write r

/-- While a symbol is not declared again, it stays with its owner until a request concerns that. -/
theorem mem_owner?_serve (h : t.Filed) {requests : List Request}
    (hothers : ∀ r ∈ requests, r.declares kind name = false) :
    file ∈ (t.serve requests).owner? kind name ↔
      file ∈ t.owner? kind name ∧ ∀ r ∈ requests, r.concerns file = false := by
  induction requests generalizing t with
  | nil => simp [serve]
  | cons r requests ih =>
    obtain ⟨hother, hothers⟩ := List.forall_mem_cons.1 hothers
    refine (ih (h.write r) hothers).trans ?_
    rw [mem_owner?_write h hother, List.forall_mem_cons, and_assoc]

/-- While a path is not indexed again, its record stays until a request concerns it. -/
theorem mem_file?_serve {requests : List Request}
    (hothers : ∀ r ∈ requests, r.indexes path = false) :
    record ∈ (t.serve requests).file? path ↔
      record ∈ t.file? path ∧ ∀ r ∈ requests, r.concerns path = false := by
  induction requests generalizing t with
  | nil => simp [serve]
  | cons r requests ih =>
    obtain ⟨hother, hothers⟩ := List.forall_mem_cons.1 hothers
    refine (ih hothers).trans ?_
    rw [mem_file?_write hother, List.forall_mem_cons, and_assoc]

theorem serve_append (t : Tables) (earlier : List Request) (r : Request) (later : List Request) :
    t.serve (earlier ++ r :: later) = (r.write (t.serve earlier)).serve later := by
  rw [serve, List.foldl_append, List.foldl_cons]
  rfl

variable {earlier later : List Request} {maxDepth time : Nat} {doc : Document}

/-- Of the last document that declares a symbol: the symbol is known while no request concerns the
document. -/
theorem knows_iff_spared (h : t.Filed) (hdeclares : doc.declares kind name = true)
    (hothers : ∀ r ∈ later, r.declares kind name = false) :
    (t.serve (earlier ++ .index maxDepth doc time :: later)).knows kind name = true ↔
      ∀ r ∈ later, r.concerns doc.path = false := by
  have howner : ((Request.index maxDepth doc time).write (t.serve earlier)).owner? kind name =
      some doc.path := by
    rw [Request.write, owner?_withDocument, if_pos hdeclares]
  have hfiled := (h.serve earlier).write (.index maxDepth doc time)
  rw [serve_append, knows_eq_isSome_owner?, Option.isSome_iff_exists]
  constructor
  · rintro ⟨file, hfile⟩
    obtain ⟨hbefore, hkept⟩ := (mem_owner?_serve hfiled hothers).1 hfile
    obtain rfl : doc.path = file := Option.some.inj (howner.symm.trans hbefore)
    exact hkept
  · intro hkept
    exact ⟨doc.path, (mem_owner?_serve hfiled hothers).2 ⟨howner, hkept⟩⟩

/-- Of the last document of a path: if its file is on record, no request has concerned it since. -/
theorem spared_of_record (hlast : ∀ r ∈ later, r.indexes doc.path = false)
    (hrecord : ((t.serve (earlier ++ .index maxDepth doc time :: later)).file? doc.path).isSome) :
    ∀ r ∈ later, r.concerns doc.path = false := by
  rw [serve_append] at hrecord
  obtain ⟨record, hrecord⟩ := Option.isSome_iff_exists.1 hrecord
  exact ((mem_file?_serve hlast).1 hrecord).2

end Tables

/-! ### Symbols of files on record -/

/-- The document is the last one that was indexed for its path. -/
def Latest (requests : List Request) (doc : Document) : Prop :=
  ∃ earlier maxDepth time later, requests = earlier ++ .index maxDepth doc time :: later ∧
    ∀ r ∈ later, r.indexes doc.path = false

/-- The last document that declared the symbol is one of another file, and that file was then
deleted or indexed again. -/
def TakenAway (requests : List Request) (path : String) (kind : SymbolKind) (name : String) :
    Prop :=
  ∃ earlier maxDepth other time later, requests = earlier ++ .index maxDepth other time :: later ∧
    other.path ≠ path ∧ other.declares kind name = true ∧
    (∀ r ∈ later, r.declares kind name = false) ∧ ∃ r ∈ later, r.concerns other.path = true

/-- A symbol that is declared in a sequence of requests is declared there a last time. -/
theorem exists_last_declares {kind : SymbolKind} {name : String} {requests : List Request}
    (h : ∃ r ∈ requests, r.declares kind name = true) :
    ∃ earlier maxDepth doc time later, requests = earlier ++ .index maxDepth doc time :: later ∧
      doc.declares kind name = true ∧ ∀ r ∈ later, r.declares kind name = false := by
  obtain ⟨earlier, r, later, rfl, hdeclares, hlater⟩ := exists_last h
  cases r with
  | index maxDepth doc time =>
    exact ⟨earlier, maxDepth, doc, time, later, rfl, hdeclares, by simpa using hlater⟩
  | delete path => cases hdeclares
  | prune disk => cases hdeclares

/-- Where nothing fails, a symbol that the last document of a file on record declares is known,
unless another file took it over and was then deleted or indexed without it. -/
theorem serve_knows_iff (v : Vault) (hfaultless : v.Faultless) (hempty : v.store = Store.empty)
    (requests : List Request) (doc : Document) (hlatest : Latest requests doc)
    (hrecord : ((v.serve requests).store.tables.file? doc.path).isSome) (kind : SymbolKind)
    (name : String) (hdeclares : doc.declares kind name = true) :
    (v.serve requests).store.tables.knows kind name = true ↔
      ¬ TakenAway requests doc.path kind name := by
  have hserved : (v.serve requests).store.tables = Tables.empty.serve requests := by
    rw [(serve_faultless hfaultless (by rw [hempty]; rfl) requests).2, hempty]
    rfl
  rw [hserved] at hrecord ⊢
  constructor
  · rintro hknows ⟨earlier, maxDepth, other, time, later, rfl, -, hother, hothers, r, hr, hconcerns⟩
    have hspared := (Tables.knows_iff_spared Tables.filed_empty hother hothers).1 hknows r hr
    exact Bool.false_ne_true (hspared.symm.trans hconcerns)
  · intro hkept
    obtain ⟨earlier, maxDepth, time, later, rfl, hlast⟩ := hlatest
    have hspared := Tables.spared_of_record hlast hrecord
    by_cases hagain : ∃ r ∈ later, r.declares kind name = true
    · obtain ⟨middle, maxDepth', other, time', rest, rfl, hother, hothers⟩ :=
        exists_last_declares hagain
      -- a later document of the same path would have concerned it
      have hne : doc.path ≠ other.path :=
        beq_eq_false_iff_ne.1 (hspared (.index maxDepth' other time') (by simp))
      have hsplit : earlier ++ .index maxDepth doc time ::
          (middle ++ .index maxDepth' other time' :: rest) =
          (earlier ++ .index maxDepth doc time :: middle) ++
            .index maxDepth' other time' :: rest := by
        simp
      rw [hsplit, Tables.knows_iff_spared Tables.filed_empty hother hothers]
      intro r hr
      refine Bool.eq_false_iff.2 fun hconcerns => hkept ?_
      exact ⟨_, maxDepth', other, time', rest, hsplit, hne.symm, hother, hothers, r, hr, hconcerns⟩
    · have hothers : ∀ r ∈ later, r.declares kind name = false := by simpa using hagain
      exact (Tables.knows_iff_spared Tables.filed_empty hdeclares hothers).2 hspared

/-- A document with a class and a function. -/
def classAndFunction : Document := Document.ofSource "a.php" "<?php class A {} function f() {}"

/-- Another file declares the class too, and then no more. -/
def sharedClass : List Request :=
  [.index 10 classAndFunction 0, .index 10 (Document.ofSource "b.php" "<?php class A {}") 1,
    .index 10 (Document.ofSource "b.php" "<?php") 2]

theorem latest_classAndFunction : Latest sharedClass classAndFunction :=
  ⟨[], 10, 0, sharedClass.tail, rfl, by decide +kernel⟩

/-- The function is known, so it was not taken away; the class is not known, so it was. -/
theorem serve_knows_iff_sharedClass :
    Vault.empty.Faultless ∧ Vault.empty.store = Store.empty ∧ Latest sharedClass classAndFunction ∧
    ((Vault.empty.serve sharedClass).store.tables.file? classAndFunction.path).isSome ∧
    classAndFunction.declares .function "f" = true ∧
    classAndFunction.declares .classlike "A" = true ∧
    ¬ TakenAway sharedClass classAndFunction.path .function "f" ∧
    TakenAway sharedClass classAndFunction.path .classlike "A" := by
  have hfaultless : Vault.empty.Faultless := fun _ _ => rfl
  have hrecord : ((Vault.empty.serve sharedClass).store.tables.file?
      classAndFunction.path).isSome := by decide +kernel
  have hfunction : classAndFunction.declares .function "f" = true := by decide +kernel
  have hclass : classAndFunction.declares .classlike "A" = true := by decide +kernel
  have hiff := serve_knows_iff Vault.empty hfaultless rfl sharedClass classAndFunction
    latest_classAndFunction hrecord
  refine ⟨hfaultless, rfl, latest_classAndFunction, hrecord, hfunction, hclass, ?_, ?_⟩
  · exact (hiff .function "f" hfunction).1 (by decide +kernel)
  · exact Classical.not_not.1 (mt (hiff .classlike "A" hclass).2 (by decide +kernel))

/-- Not every symbol of a file on record is known. -/
theorem not_forall_latest_knows :
    ¬ ∀ v : Vault, v.Faultless → v.store = Store.empty → ∀ requests doc, Latest requests doc →
      ((v.serve requests).store.tables.file? doc.path).isSome →
      ∀ kind name, doc.declares kind name = true →
        (v.serve requests).store.tables.knows kind name = true := by
  intro hknows
  have hclass := hknows Vault.empty (fun _ _ => rfl) rfl sharedClass classAndFunction
    latest_classAndFunction (by decide +kernel) .classlike "A" (by decide +kernel)
  have hlost : (Vault.empty.serve sharedClass).store.tables.knows .classlike "A" = false := by
    decide +kernel
  exact Bool.false_ne_true (hlost.symm.trans hclass)

end PhpAtlas
