import PhpAtlas.Project
import PhpAtlas.Proofs.Index.Atomicity

/-!
# Which runs leave a transaction open

A transaction whose writes fail is rolled back, but one whose commit fails is not: it stays open,
and no other transaction can begin.  As long as rolling back works, that is the only way.  The
account of open transactions and failed commits is kept by every transaction, wherever it starts,
and so by every program that is made of transactions.

## Main definitions

* `Vault.Accounted` — a transaction is open exactly if a commit failed.
* `Vault.Keeps` — a program keeps this account.
* `Vault.OpenIffCommitFails` — what follows for a whole run.

## Main results

* `Vault.keeps_transaction` — a transaction keeps the account.
* `open_iff_commit_fails` — so do indexing a document and forgetting the files that are gone.
-/

namespace PhpAtlas

namespace Vault

variable {α β : Type} {v u w : Vault}

/-- After a run from `v` to `w`, a transaction is open exactly if a commit failed. -/
structure Accounted (v w : Vault) : Prop where
  tries : Tries (fun _ => True) v w
  open_iff : w.store.inTransaction = true ↔ Fault (· = .commit) v w

theorem accounted_refl (hclosed : v.store.saved = none) : Accounted v v := by
  refine ⟨.refl, ?_⟩
  rw [Store.inTransaction, hclosed]
  exact ⟨fun h => (Bool.false_ne_true h).elim, fun h => (not_fault_self h).elim⟩

/-- A part of a run in which a commit failed exactly if it opened a transaction for good. -/
theorem Accounted.trans (h : Accounted v u) (htries : Tries (fun _ => True) u w)
    (hopen : w.store.inTransaction = true ↔
      u.store.inTransaction = true ∨ Fault (· = .commit) u w) : Accounted v w := by
  refine ⟨h.tries.trans htries, ?_⟩
  rw [hopen, h.open_iff, fault_trans h.tries htries]

/-- Whatever a program does after a run from `v`, the account is kept. -/
def Keeps (v : Vault) (m : VaultM α) : Prop :=
  ∀ u, Accounted v u → Ends m u (fun _ w => Accounted v w) (fun _ w => Accounted v w)

theorem keeps_pure (a : α) : Keeps v (pure a) := fun _ hu => hu

theorem keeps_throw (e : StoreError) : Keeps v (throw e : VaultM α) := fun _ hu => hu

theorem keeps_tables : Keeps v tables := fun _ hu => hu

theorem Keeps.bind {m : VaultM α} {k : α → VaultM β} (hm : Keeps v m) (hk : ∀ a, Keeps v (k a)) :
    Keeps v (m >>= k) :=
  fun u hu => ends_bind.2 ((hm u hu).mono (fun a w hw => hk a w hw) fun _ _ hw => hw)

theorem Keeps.tryCatch {m : VaultM α} {handler : StoreError → VaultM α} (hm : Keeps v m)
    (hhandler : ∀ e, Keeps v (handler e)) : Keeps v (tryCatch m handler) :=
  fun u hu => ends_tryCatch.2 ((hm u hu).mono (fun _ _ hw => hw) fun e w hw => hhandler e w hw)

theorem Keeps.ignoring {m : VaultM Unit} (hm : Keeps v m) : Keeps v (ignoring m) :=
  hm.tryCatch fun _ => keeps_pure ()

theorem keeps_forM {τ : Type} {k : τ → VaultM Unit} (l : List τ) (h : ∀ x, Keeps v (k x)) :
    Keeps v (l.forM k) := by
  induction l with
  | nil => exact keeps_pure ()
  | cons x l ih => exact (h x).bind fun _ => ih

/-- A transaction keeps the account, whether or not another one is open. -/
theorem keeps_transaction {P : StoreOp → Prop} {f : Tables → Tables} {body : VaultM Unit}
    (hrollback : ∀ tried, v.schedule tried .rollback = false) (hbody : Writes P f body)
    (hP : ∀ op, P op → op.isWrite = true) : Keeps v (transaction body) := by
  intro u hu
  cases hsaved : u.store.saved with
  | none =>
    have hclosed : u.store.inTransaction = false := by rw [Store.inTransaction, hsaved]; rfl
    refine (transaction_ends hbody hP hsaved).mono ?_ ?_
    · rintro _ w ⟨hw, hnone, hstore⟩
      refine hu.trans hw ?_
      rw [hclosed, hstore]
      simp [Store.inTransaction, hnone]
    · rintro _ w ⟨hw, haborted⟩
      refine hu.trans hw ?_
      cases haborted with
      | unchanged _ hcommit hstore => simp [hstore, hclosed, hcommit]
      | uncommitted hfault hstore => simp [hstore, hfault, Store.inTransaction]
      | stuck hfault =>
        obtain ⟨op, before, rfl, -, -, hfault⟩ := hfault
        rw [hu.tries.schedule, hrollback] at hfault
        cases hfault
  | some saved =>
    refine (transaction_refused hsaved).mono (fun _ _ h => h.elim) ?_
    rintro _ w ⟨hw, hstore⟩
    refine hu.trans (hw.mono fun _ _ => trivial) ?_
    have hcommit : ¬ Fault (· = .commit) u w := by
      refine not_fault_of_tries hw ?_
      rintro op rfl hop
      cases hop
    simp [hstore, hcommit]

/-- A program leaves a transaction open, so that none can begin, exactly if a commit fails in it. -/
structure OpenIffCommitFails (m : VaultM α) (v : Vault) : Prop where
  inTransaction_iff : (after m v).store.inTransaction = true ↔ Fault (· = .commit) v (after m v)
  begin_iff : (∃ s, (after m v).store.apply .begin = .ok s) ↔ ¬ Fault (· = .commit) v (after m v)


theorem Keeps.openIffCommitFails {m : VaultM α} (hm : Keeps v m) (hclosed : v.store.saved = none) :
    OpenIffCommitFails m v := by
  have haccount : Accounted v (after m v) := by
    have hends := hm v (accounted_refl hclosed)
    unfold Ends at hends
    unfold after
    cases hrun : m v with
    | ok a w => rwa [hrun] at hends
    | error e w => rwa [hrun] at hends
  refine ⟨haccount.open_iff, ?_⟩
  rw [← haccount.open_iff, Store.inTransaction]
  unfold Store.apply
  cases (after m v).store.saved with
  | none => simp
  | some saved => simp

end Vault

open Vault

variable {v : Vault}

theorem keeps_indexDocument (hrollback : ∀ tried, v.schedule tried .rollback = false)
    (maxDepth : Nat) (doc : Document) (time : Nat) : Keeps v (indexDocument maxDepth doc time) := by
  have hdelete : Keeps v (transaction (perform (.deleteFile doc.path))) :=
    keeps_transaction hrollback (writes_perform (P := (·.isWrite = true)) rfl rfl) fun _ h => h
  have hrecord : Keeps v (transaction (putRecord doc time)) :=
    keeps_transaction hrollback (putRecord_writes doc time) fun _ => StoreOp.isWrite_of_isPut
  have hdeclarations : ∀ scopes, Keeps v (transaction (putDeclarations maxDepth
      ⟨doc, scopes, none⟩ (declarations doc.statements))) := fun scopes =>
    keeps_transaction hrollback (putDeclarations_writes maxDepth _ _)
      fun _ => StoreOp.isWrite_of_isPut
  have hput : Keeps v (putDocument maxDepth doc time) :=
    hrecord.bind fun _ => keeps_tables.bind fun t => hdeclarations (t.scopesOf doc.path)
  exact hdelete.bind fun _ => hput.tryCatch fun e => hdelete.ignoring.bind fun _ => keeps_throw e

theorem keeps_pruneProject (hrollback : ∀ tried, v.schedule tried .rollback = false) (d : Disk) :
    Keeps v (pruneProject d) := by
  refine keeps_tables.bind fun t => (keeps_forM _ fun path => ?_).bind fun _ => keeps_pure _
  exact keeps_transaction hrollback (writes_perform (P := (·.isWrite = true)) rfl rfl) fun _ h => h

/-- While rolling back works, indexing a document and forgetting the files that are gone leave a
transaction open exactly if a commit failed. -/
theorem open_iff_commit_fails (v : Vault) (hclosed : v.store.saved = none)
    (hrollback : ∀ tried, v.schedule tried .rollback = false) (maxDepth : Nat) (doc : Document)
    (time : Nat) (d : Disk) :
    OpenIffCommitFails (indexDocument maxDepth doc time) v ∧
      OpenIffCommitFails (pruneProject d) v :=
  ⟨(keeps_indexDocument hrollback maxDepth doc time).openIffCommitFails hclosed,
    (keeps_pruneProject hrollback d).openIffCommitFails hclosed⟩

/-- An empty store that cannot commit. -/
def commitFails : Vault :=
  Vault.empty.withSchedule (Schedule.window (·.method == "commit") 0 none)

/-- A document that is indexed into such a store leaves a transaction open, though every rollback
works: the deletion in front is neither committed nor rolled back. -/
theorem commitFails_open :
    commitFails.store.saved = none ∧ (∀ tried, commitFails.schedule tried .rollback = false) ∧
    (after (indexDocument 10 (Document.ofSource "a.php" "<?php class A {}") 0)
      commitFails).store.inTransaction = true := by
  refine ⟨rfl, fun _ => rfl, ?_⟩
  decide +kernel

/-- There a commit did fail, and nothing can begin. -/
theorem open_iff_commit_fails_commitFails :
    Fault (· = .commit) commitFails
      (after (indexDocument 10 (Document.ofSource "a.php" "<?php class A {}") 0) commitFails) ∧
    ¬ ∃ s, (after (indexDocument 10 (Document.ofSource "a.php" "<?php class A {}") 0)
      commitFails).store.apply .begin = .ok s := by
  obtain ⟨hopen, hbegin⟩ := (open_iff_commit_fails commitFails rfl (fun _ => rfl) 10
    (Document.ofSource "a.php" "<?php class A {}") 0 {}).1
  have hfault := hopen.1 (by decide +kernel)
  exact ⟨hfault, fun h => hbegin.1 h hfault⟩

end PhpAtlas
