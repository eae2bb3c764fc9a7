import PhpAtlas.Proofs.Index.OpenTransactions
import PhpAtlas.Proofs.Index.Ownership

/-!
# Requests to an index

An index is kept up to date by requests: a document is indexed, a file is deleted, or all files are
deleted that are gone from the disk.  While nothing but entering can fail, a request is done as a
whole, or it is an indexing that failed and left the store without the document.  So a sequence of
requests can be followed on the tables alone.

## Main definitions

* `Request`, `Request.run` — a request, as a program on a store that may fail.
* `Request.write` — what a request does to the tables when nothing fails.
* `Vault.serve`, `Tables.serve` — a sequence of requests, of which some may fail, and what it does
  to the tables when none fails.
* `Vault.Faultless` — a store in which nothing fails.

## Main results

* `Request.run_settles` — a request is done, or it is an indexing that failed.
* `Vault.serve_faultless` — where nothing fails, requests are done one after the other.
-/

namespace PhpAtlas

open Vault

/-- The files with a record that are gone from a disk. -/
def Tables.gone (t : Tables) (disk : Disk) : List String :=
  (t.fileList.map (·.path)).filter fun path => !disk.has path

/-- A request to an index. -/
inductive Request
  | index (maxDepth : Nat) (doc : Document) (time : Nat)
  | delete (path : String)
  /-- Delete the files that are gone from a disk. -/
  | prune (disk : Disk)

namespace Request

/-- The program of a request. -/
def run : Request → VaultM Unit
  | .index maxDepth doc time => indexDocument maxDepth doc time
  | .delete path => transaction (perform (.deleteFile path))
  | .prune disk => do let _ ← pruneProject disk

/-- What a request does to the tables when nothing fails. -/
def write : Request → Tables → Tables
  | .index maxDepth doc time, t => t.withDocument maxDepth doc time
  | .delete path, t => t.deleteFile path
  | .prune disk, t => (t.gone disk).foldl Tables.deleteFile t

end Request

/-! ### One request -/

namespace Vault

variable {v w : Vault}

/-- Deleting files cannot fail. -/
theorem deletions_end (hputs : v.OnlyPutsFail) (paths : List String)
    (hclosed : v.store.saved = none) :
    Ends (paths.forM fun path => transaction (perform (.deleteFile path))) v
      (fun _ w => Tries (fun _ => True) v w ∧
        w.store = ⟨paths.foldl Tables.deleteFile v.store.tables, none⟩)
      (fun _ _ => False) := by
  induction paths generalizing v with
  | nil =>
    refine (ends_pure ()).2 ⟨.refl, ?_⟩
    rw [List.foldl_nil, ← hclosed]
  | cons path paths ih =>
    refine ends_bind.2 ((deletion_ends hputs path hclosed).mono ?_ fun _ _ h => h)
    rintro _ u ⟨hu, -, hstore⟩
    refine (ih (hputs.of_tries hu) (by rw [hstore])).mono ?_ fun _ _ h => h
    rintro _ w ⟨hw, hstore'⟩
    exact ⟨hu.trans hw, by rw [hstore', hstore, List.foldl_cons]⟩

end Vault

namespace Request

variable {v w : Vault}

/-- How a request ends, from `v` to `w`: it is done, or a document could not be indexed. -/
inductive Settled (v w : Vault) : Request → Prop
  | done {r : Request} (hstore : w.store = ⟨r.write v.store.tables, none⟩) : Settled v w r
  | undone {maxDepth time : Nat} {doc : Document} (hfault : Fault (·.isPut = true) v w)
      (hstore : w.store = ⟨v.store.tables.deleteFile doc.path, none⟩) :
      Settled v w (.index maxDepth doc time)

/-- While nothing but entering can fail, a request is settled and the schedule goes on. -/
theorem run_settles (hputs : v.OnlyPutsFail) (hclosed : v.store.saved = none) (r : Request) :
    (after r.run v).schedule = v.schedule ∧ r.Settled v (after r.run v) := by
  cases r with
  | index maxDepth doc time =>
    have hrollback : ∀ tried, v.schedule tried .rollback = false := fun tried =>
      Bool.eq_false_iff.2 fun hfault => Bool.false_ne_true (hputs tried .rollback hfault)
    have haccount := keeps_indexDocument hrollback maxDepth doc time v (accounted_refl hclosed)
    refine ⟨Ends.holds_after (P := fun w => w.schedule = v.schedule)
        (haccount.mono (fun _ _ h => h.tries.schedule) fun _ _ h => h.tries.schedule),
      Ends.holds_after (P := fun w => Settled v w _)
        ((indexDocument_ends hputs hclosed maxDepth doc time).mono ?_ ?_)⟩
    · rintro _ w ⟨-, hstore⟩
      exact .done hstore
    · rintro _ w ⟨hfault, hstore⟩
      exact .undone hfault hstore
  | delete path =>
    refine Ends.holds_after (P := fun w => w.schedule = v.schedule ∧ Settled v w _)
      ((deletion_ends hputs path hclosed).mono ?_ fun _ _ h => h.elim)
    rintro _ w ⟨hw, -, hstore⟩
    exact ⟨hw.schedule, .done hstore⟩
  | prune disk =>
    refine Ends.holds_after (P := fun w => w.schedule = v.schedule ∧ Settled v w _)
      (ends_bind.2 (ends_bind.2 (ends_tables.2 (ends_bind.2
        ((deletions_end hputs _ hclosed).mono ?_ fun _ _ h => h.elim)))))
    rintro _ w ⟨hw, hstore⟩
    exact ⟨hw.schedule, .done hstore⟩

end Request

/-! ### Stores in which nothing fails -/

/-- No operation fails by schedule. -/
def Vault.Faultless (v : Vault) : Prop := ∀ tried op, v.schedule tried op = false

namespace Vault.Faultless

variable {v w : Vault} {Q : StoreOp → Prop}

theorem onlyPutsFail (h : v.Faultless) : v.OnlyPutsFail := by
  intro tried op hfault
  rw [h] at hfault
  cases hfault

theorem not_fault (h : v.Faultless) : ¬ Fault Q v w := by
  rintro ⟨op, before, -, -, -, hfault⟩
  rw [h] at hfault
  cases hfault

end Vault.Faultless

theorem Request.run_faultless {v : Vault} (hfaultless : v.Faultless)
    (hclosed : v.store.saved = none) (r : Request) :
    (after r.run v).Faultless ∧ (after r.run v).store = ⟨r.write v.store.tables, none⟩ := by
  obtain ⟨hschedule, hsettled⟩ := r.run_settles hfaultless.onlyPutsFail hclosed
  refine ⟨fun tried op => by rw [hschedule, hfaultless], ?_⟩
  cases hsettled with
  | done hstore => exact hstore
  | undone hfault _ => exact absurd hfault hfaultless.not_fault

/-- Where nothing fails, indexing does not fail, and nothing will. -/
theorem indexDocument_faultless {v : Vault} (hfaultless : v.Faultless)
    (hclosed : v.store.saved = none) (maxDepth : Nat) (doc : Document) (time : Nat) :
    fails (indexDocument maxDepth doc time) v = false ∧
    (after (indexDocument maxDepth doc time) v).Faultless ∧
    (after (indexDocument maxDepth doc time) v).store =
      ⟨v.store.tables.withDocument maxDepth doc time, none⟩ := by
  have hends := (indexDocument_ends hfaultless.onlyPutsFail hclosed maxDepth doc time).mono
    (fun _ _ h => h) fun _ _ h => hfaultless.not_fault h.1
  exact ⟨hends.fails_eq_false, (Request.index maxDepth doc time).run_faultless hfaultless hclosed⟩

/-! ### Sequences of requests -/

/-- Serve one request after the other, going on after a failure. -/
def Vault.serve (v : Vault) (requests : List Request) : Vault :=
  requests.foldl (fun v r => after r.run v) v

/-- What requests do to the tables when nothing fails. -/
def Tables.serve (t : Tables) (requests : List Request) : Tables :=
  requests.foldl (fun t r => r.write t) t

theorem Vault.serve_faultless {v : Vault} (hfaultless : v.Faultless)
    (hclosed : v.store.saved = none) (requests : List Request) :
    (v.serve requests).Faultless ∧
    (v.serve requests).store = ⟨v.store.tables.serve requests, none⟩ := by
  induction requests generalizing v with
  | nil =>
    refine ⟨hfaultless, ?_⟩
    rw [serve, Tables.serve, List.foldl_nil, List.foldl_nil, ← hclosed]
  | cons r requests ih =>
    obtain ⟨hfaultless', hstore⟩ := r.run_faultless hfaultless hclosed
    obtain ⟨hlast, hserved⟩ := ih hfaultless' (by rw [hstore])
    refine ⟨hlast, hserved.trans ?_⟩
    rw [hstore]
    rfl

end PhpAtlas
