import Mathlib.Data.List.Infix
import PhpAtlas.Store.Vault

/-!
# Runs of programs on a store that may fail

What holds when a program on a vault ends is said of its result or of its failure, and is put
together from its parts.  A run is known by the operations that were tried in it, and so are its
faults: the schedule sees the operations tried before.

## Main definitions

* `Vault.Ends` — what holds when a program ends.
* `Vault.Tries`, `Vault.Fault` — the operations of a run, and those that the schedule made fail.
* `Vault.Writes` — a program that only writes, inside a transaction.
* `Vault.Aborted` — how a transaction can fail.

## Main results

* `Vault.fault_trans` — the faults of a run are those of its parts.
* `Vault.transaction_ends` — a transaction does all its writes, or fails in one of three ways.
* `Vault.transaction_refused` — a transaction inside another fails and changes nothing.
-/

namespace PhpAtlas

namespace Vault

variable {α β : Type} {v u w : Vault}

/-- The vault in which a program ends. -/
def after (m : VaultM α) (v : Vault) : Vault :=
  match m v with
  | .ok _ w => w
  | .error _ w => w

/-- Whether a program fails. -/
def fails (m : VaultM α) (v : Vault) : Bool :=
  match m v with
  | .ok _ _ => false
  | .error _ _ => true

/-! ### What holds when a program ends -/

/-- What holds when a program ends: `ok` of its result, or `err` of its failure. -/
def Ends (m : VaultM α) (v : Vault) (ok : α → Vault → Prop) (err : StoreError → Vault → Prop) :
    Prop :=
  match m v with
  | .ok a w => ok a w
  | .error e w => err e w

variable {m : VaultM α} {ok ok' : α → Vault → Prop} {err err' : StoreError → Vault → Prop}

theorem Ends.mono (h : Ends m v ok err) (hok : ∀ a w, ok a w → ok' a w)
    (herr : ∀ e w, err e w → err' e w) : Ends m v ok' err' := by
  unfold Ends at *
  cases hm : m v with
  | ok a w =>
    rw [hm] at h
    exact hok a w h
  | error e w =>
    rw [hm] at h
    exact herr e w h

/-- What holds however a program ends holds of the vault in which it ends. -/
theorem Ends.holds_after {P : Vault → Prop} (h : Ends m v (fun _ => P) fun _ => P) :
    P (after m v) := by
  unfold Ends at h
  unfold after
  cases hm : m v with
  | ok a w => rwa [hm] at h
  | error e w => rwa [hm] at h

/-- A program that cannot end with an error does not fail. -/
theorem Ends.fails_eq_false (h : Ends m v ok fun _ _ => False) : fails m v = false := by
  unfold Ends at h
  unfold fails
  cases hm : m v with
  | ok a w => rfl
  | error e w =>
    rw [hm] at h
    exact h.elim

theorem ends_pure (a : α) : Ends (pure a) v ok err ↔ ok a v := Iff.rfl

theorem ends_tables {ok : Tables → Vault → Prop} : Ends tables v ok err ↔ ok v.store.tables v :=
  Iff.rfl

theorem ends_bind {k : α → VaultM β} {ok : β → Vault → Prop} :
    Ends (m >>= k) v ok err ↔ Ends m v (fun a w => Ends (k a) w ok err) err := by
  simp only [Ends, bind, EStateM.bind]
  cases m v with
  | ok a w => rfl
  | error e w => rfl

theorem ends_tryCatch {handler : StoreError → VaultM α} :
    Ends (tryCatch m handler) v ok err ↔ Ends m v ok fun e w => Ends (handler e) w ok err := by
  simp only [Ends, tryCatch, tryCatchThe, MonadExceptOf.tryCatch, EStateM.tryCatch]
  cases m v with
  | ok a w => rfl
  | error e w => rfl

/-! ### Operations -/

/-- The vault behind an operation that changed nothing. -/
def tries (v : Vault) (op : StoreOp) : Vault := { v with tried := op :: v.tried }

/-- The vault behind an operation. -/
def becomes (v : Vault) (op : StoreOp) (s : Store) : Vault := ⟨s, v.schedule, op :: v.tried⟩

/-- An operation that the store accepts fails by schedule or is done. -/
theorem ends_perform {op : StoreOp} {s : Store} {ok : Unit → Vault → Prop}
    (happly : v.store.apply op = .ok s)
    (hfault : v.schedule v.tried op = true → err (faultOf op) (v.tries op))
    (hdone : v.schedule v.tried op = false → ok () (v.becomes op s)) :
    Ends (perform op) v ok err := by
  unfold Ends perform attempt
  cases hsched : v.schedule v.tried op with
  | true => exact hfault hsched
  | false =>
    simp only [happly]
    exact hdone hsched

/-- An operation that the store refuses fails either way. -/
theorem ends_perform_refused {op : StoreOp} {e : StoreError} {ok : Unit → Vault → Prop}
    (happly : v.store.apply op = .error e) (herr : ∀ e, err e (v.tries op)) :
    Ends (perform op) v ok err := by
  unfold Ends perform attempt
  cases v.schedule v.tried op with
  | true => exact herr _
  | false =>
    simp only [happly]
    exact herr _

/-! ### The operations of a run -/

/-- In a run from `v` to `w`, the operations that were tried satisfy `P`. -/
structure Tries (P : StoreOp → Prop) (v w : Vault) : Prop where
  schedule : w.schedule = v.schedule
  tried : ∃ ops, w.tried = ops ++ v.tried ∧ ∀ op ∈ ops, P op

/-- In a run from `v` to `w`, the schedule made an operation fail that satisfies `Q`. -/
def Fault (Q : StoreOp → Prop) (v w : Vault) : Prop :=
  ∃ op before, Q op ∧ v.tried <:+ before ∧ op :: before <:+ w.tried ∧
    v.schedule before op = true

variable {P P' Q : StoreOp → Prop} {op : StoreOp} {s : Store}

theorem Tries.refl : Tries P v v := ⟨rfl, [], rfl, by simp⟩

theorem Tries.mono (h : Tries P v w) (hP : ∀ op, P op → P' op) : Tries P' v w := by
  obtain ⟨hsched, ops, htried, hops⟩ := h
  exact ⟨hsched, ops, htried, fun op hop => hP op (hops op hop)⟩

theorem Tries.trans (h : Tries P v u) (h' : Tries P u w) : Tries P v w := by
  obtain ⟨hsched, ops, htried, hops⟩ := h
  obtain ⟨hsched', ops', htried', hops'⟩ := h'
  refine ⟨hsched'.trans hsched, ops' ++ ops, ?_, List.forall_mem_append.2 ⟨hops', hops⟩⟩
  rw [htried', htried, List.append_assoc]

theorem Tries.suffix (h : Tries P v w) : v.tried <:+ w.tried := by
  obtain ⟨-, ops, htried, -⟩ := h
  exact ⟨ops, htried.symm⟩

theorem tries_tries (hop : P op) : Tries P v (v.tries op) :=
  ⟨rfl, [op], rfl, by simpa using hop⟩

theorem tries_becomes (hop : P op) : Tries P v (v.becomes op s) :=
  ⟨rfl, [op], rfl, by simpa using hop⟩

theorem Fault.mono (h : Fault P v w) (hP : ∀ op, P op → P' op) : Fault P' v w := by
  obtain ⟨op, before, hop, hfault⟩ := h
  exact ⟨op, before, hP op hop, hfault⟩

theorem not_fault_self : ¬ Fault Q v v := by
  rintro ⟨op, before, -, hbefore, hop, -⟩
  exact Nat.not_succ_le_self _ (hop.trans hbefore).length_le

/-- A run of one operation. -/
theorem fault_cons (htried : w.tried = op :: v.tried) :
    Fault Q v w ↔ Q op ∧ v.schedule v.tried op = true := by
  constructor
  · rintro ⟨op', before, hQ, hbefore, hop, hfault⟩
    rw [htried] at hop
    have hlen := hop.length_le
    have heq : op' :: before = op :: v.tried := by
      refine hop.eq_of_length (le_antisymm hlen ?_)
      have := hbefore.length_le
      simpa using this
    obtain ⟨rfl, rfl⟩ := List.cons.inj heq
    exact ⟨hQ, hfault⟩
  · rintro ⟨hQ, hfault⟩
    exact ⟨op, v.tried, hQ, List.suffix_rfl, htried ▸ List.suffix_rfl, hfault⟩

/-- An operation that is done is no fault. -/
theorem not_fault_becomes (hdone : v.schedule v.tried op = false) :
    ¬ Fault Q v (v.becomes op s) := by
  rw [fault_cons rfl, hdone]
  rintro ⟨-, hfault⟩
  cases hfault

/-- The faults of a run are those of its parts. -/
theorem fault_trans (h : Tries P v u) (h' : Tries P' u w) :
    Fault Q v w ↔ Fault Q v u ∨ Fault Q u w := by
  constructor
  · rintro ⟨op, before, hQ, hbefore, hop, hfault⟩
    -- both runs up to here end in the same list, so one holds the other
    rcases List.suffix_or_suffix_of_suffix hop h'.suffix with hsuf | hsuf
    · exact .inl ⟨op, before, hQ, hbefore, hsuf, hfault⟩
    · rcases List.suffix_cons_iff.1 hsuf with heq | hsuf
      · exact .inl ⟨op, before, hQ, hbefore, heq ▸ List.suffix_rfl, hfault⟩
      · exact .inr ⟨op, before, hQ, hsuf, hop, h.schedule ▸ hfault⟩
  · rintro (⟨op, before, hQ, hbefore, hop, hfault⟩ | ⟨op, before, hQ, hbefore, hop, hfault⟩)
    · exact ⟨op, before, hQ, hbefore, hop.trans h'.suffix, hfault⟩
    · exact ⟨op, before, hQ, h.suffix.trans hbefore, hop, h.schedule ▸ hfault⟩

/-- What was not tried did not fail. -/
theorem not_fault_of_tries (h : Tries P v w) (hQ : ∀ op, P op → ¬ Q op) : ¬ Fault Q v w := by
  rintro ⟨op, before, hop, hbefore, ⟨later, hlater⟩, -⟩
  obtain ⟨-, ops, htried, hops⟩ := h
  obtain ⟨rest, rfl⟩ := hbefore
  have hsplit : later ++ op :: rest = ops := by
    rw [htried] at hlater
    exact List.append_cancel_right (by simpa using hlater)
  exact hQ op (hops op (hsplit ▸ List.mem_append_right _ List.mem_cons_self)) hop

end Vault

/-! ### Programs that only write -/

/-- Whether an operation writes; the others open and close transactions. -/
def StoreOp.isWrite : StoreOp → Bool
  | .begin | .commit | .rollback => false
  | _ => true

/-- In a transaction the store accepts every write. -/
theorem Store.apply_write {s : Store} {op : StoreOp} {saved : Tables} (hop : op.isWrite = true)
    (hsaved : s.saved = some saved) : s.apply op = .ok ⟨op.write s.tables, some saved⟩ := by
  unfold Store.apply
  rw [hsaved]
  cases op <;> first | rfl | cases hop

namespace Vault

variable {v w : Vault} {P : StoreOp → Prop} {f g : Tables → Tables} {m n body : VaultM Unit}

/-- Inside a transaction, the program does the writes `f` by operations that satisfy `P`, unless one
of them fails. -/
def Writes (P : StoreOp → Prop) (f : Tables → Tables) (m : VaultM Unit) : Prop :=
  ∀ v saved, v.store.saved = some saved → Ends m v
    (fun _ w => Tries P v w ∧ (∀ Q, ¬ Fault Q v w) ∧ w.store = ⟨f v.store.tables, some saved⟩)
    (fun _ w => Tries P v w ∧ Fault P v w ∧ w.store.saved = some saved)

theorem writes_pure : Writes P id (pure ()) := by
  intro v saved hsaved
  refine (ends_pure ()).2 ⟨.refl, fun _ => not_fault_self, ?_⟩
  rw [← hsaved, id_eq]

theorem writes_perform {op : StoreOp} (hop : P op) (hwrite : op.isWrite = true) :
    Writes P op.write (perform op) := by
  intro v saved hsaved
  refine ends_perform (Store.apply_write hwrite hsaved) (fun hfault => ?_) fun hdone => ?_
  · exact ⟨tries_tries hop, (fault_cons rfl).2 ⟨hop, hfault⟩, hsaved⟩
  · exact ⟨tries_becomes hop, fun _ => not_fault_becomes hdone, rfl⟩

theorem Writes.seq (hm : Writes P f m) (hn : Writes P g n) :
    Writes P (g ∘ f) (m >>= fun _ => n) := by
  intro v saved hsaved
  refine ends_bind.2 ((hm v saved hsaved).mono ?_ fun _ _ h => h)
  rintro _ u ⟨htries, hfault, hstore⟩
  refine (hn u saved (by rw [hstore])).mono ?_ ?_
  · rintro _ w ⟨htries', hfault', hstore'⟩
    refine ⟨htries.trans htries', fun Q => ?_, ?_⟩
    · rw [fault_trans htries htries']
      exact not_or.2 ⟨hfault Q, hfault' Q⟩
    · rw [hstore', hstore]
      rfl
  · rintro _ w ⟨htries', hfault', hstore'⟩
    exact ⟨htries.trans htries', (fault_trans htries htries').2 (.inr hfault'), hstore'⟩

/-- A program that looks at the tables before it writes. -/
theorem writes_tables {f : Tables → Tables → Tables} {k : Tables → VaultM Unit}
    (h : ∀ t, Writes P (f t) (k t)) : Writes P (fun t => f t t) (tables >>= k) := by
  intro v saved hsaved
  exact ends_bind.2 (ends_tables.2 (h v.store.tables v saved hsaved))

/-- A program that writes for each entry of a list in turn. -/
theorem writes_forM {τ : Type} {f : τ → Tables → Tables} {k : τ → VaultM Unit} (l : List τ)
    (h : ∀ x, Writes P (f x) (k x)) :
    Writes P (fun t => l.foldl (fun t x => f x t) t) (l.forM k) := by
  induction l with
  | nil => exact writes_pure
  | cons x l ih => exact (h x).seq ih

/-! ### Transactions -/

/-- How a transaction that does the writes `f` fails, from `v` to `w`. -/
inductive Aborted (P : StoreOp → Prop) (f : Tables → Tables) (v w : Vault) : Prop
  /-- It did not start, or was rolled back. -/
  | unchanged (hfault : Fault (fun op => op = .begin ∨ P op) v w)
      (hcommit : ¬ Fault (· = .commit) v w) (hstore : w.store = v.store)
  /-- It was not committed, and is still open. -/
  | uncommitted (hfault : Fault (· = .commit) v w)
      (hstore : w.store = ⟨f v.store.tables, some v.store.tables⟩)
  /-- It could not be rolled back. -/
  | stuck (hfault : Fault (· = .rollback) v w)

/-- The end of a transaction whose writes were done. -/
theorem commit_ends {t saved : Tables} (hopen : v.store = ⟨t, some saved⟩) :
    Ends (perform .commit) v
      (fun _ w => Tries (· = .commit) v w ∧ (∀ Q, ¬ Fault Q v w) ∧ w.store = ⟨t, none⟩)
      (fun _ w => Tries (· = .commit) v w ∧ Fault (· = .commit) v w ∧ w.store = v.store) := by
  have happly : v.store.apply .commit = .ok ⟨t, none⟩ := by rw [hopen]; rfl
  refine ends_perform happly (fun hfault => ?_) fun hdone => ?_
  · exact ⟨tries_tries rfl, (fault_cons rfl).2 ⟨rfl, hfault⟩, rfl⟩
  · exact ⟨tries_becomes rfl, fun _ => not_fault_becomes hdone, rfl⟩

/-- The end of a transaction of which a write failed. -/
theorem rollback_ends {saved : Tables} (hopen : v.store.saved = some saved) (e : StoreError) :
    Ends (do ignoring (perform .rollback); throw e : VaultM Unit) v (fun _ _ => False)
      (fun _ w => Tries (· = .rollback) v w ∧
        (Fault (· = .rollback) v w ∨ w.store = ⟨saved, none⟩)) := by
  have happly : v.store.apply .rollback = .ok ⟨saved, none⟩ := by
    unfold Store.apply
    rw [hopen]
  refine ends_bind.2 (ends_tryCatch.2 (ends_perform happly (fun hfault => ?_) fun hdone => ?_))
  · exact ⟨tries_tries rfl, .inl ((fault_cons rfl).2 ⟨rfl, hfault⟩)⟩
  · exact ⟨tries_becomes rfl, .inr rfl⟩

/-- A transaction does all its writes, or is aborted. -/
theorem transaction_ends (hbody : Writes P f body) (hP : ∀ op, P op → op.isWrite = true)
    (hclosed : v.store.saved = none) :
    Ends (transaction body) v
      (fun _ w => Tries (fun _ => True) v w ∧ (∀ Q, ¬ Fault Q v w) ∧
        w.store = ⟨f v.store.tables, none⟩)
      (fun _ w => Tries (fun _ => True) v w ∧ Aborted P f v w) := by
  have happly : v.store.apply .begin = .ok ⟨v.store.tables, some v.store.tables⟩ := by
    unfold Store.apply
    rw [hclosed]
  refine ends_bind.2 (ends_perform happly (fun hfault => ?_) fun hdone => ?_)
  · refine ⟨tries_tries trivial, .unchanged ((fault_cons rfl).2 ⟨.inl rfl, hfault⟩) ?_ rfl⟩
    rw [fault_cons rfl]
    rintro ⟨hop, -⟩
    cases hop
  · let started := v.becomes .begin ⟨v.store.tables, some v.store.tables⟩
    have hbegin : ∀ Q, ¬ Fault Q v started := fun Q => not_fault_becomes hdone
    have htries : Tries (fun _ => True) v started := tries_becomes trivial
    refine ends_bind.2 (ends_tryCatch.2 (ends_bind.2 ((hbody started _ rfl).mono ?_ ?_)))
    · rintro _ u ⟨hu, hfault, hstore⟩
      have hvu := htries.trans (hu.mono fun _ _ => trivial)
      have hnone : ∀ Q, ¬ Fault Q v u := by
        intro Q
        rw [fault_trans htries hu]
        exact not_or.2 ⟨hbegin Q, hfault Q⟩
      refine (commit_ends hstore).mono ?_ ?_
      · rintro _ w ⟨hw, hcommit, hstore'⟩
        refine ⟨hvu.trans (hw.mono fun _ _ => trivial), fun Q => ?_, hstore'⟩
        rw [fault_trans hvu hw]
        exact not_or.2 ⟨hnone Q, hcommit Q⟩
      · rintro _ w ⟨hw, hcommit, hstore'⟩
        refine ⟨hvu.trans (hw.mono fun _ _ => trivial), .uncommitted ?_ (hstore'.trans hstore)⟩
        exact (fault_trans hvu hw).2 (.inr hcommit)
    · rintro e u ⟨hu, hfault, hsaved⟩
      have hvu := htries.trans (hu.mono fun _ _ => trivial)
      refine (rollback_ends hsaved e).mono (fun _ _ h => h.elim) ?_
      rintro _ w ⟨hw, hrollback⟩
      refine ⟨hvu.trans (hw.mono fun _ _ => trivial), ?_⟩
      rcases hrollback with hrollback | hstore
      · exact .stuck ((fault_trans hvu hw).2 (.inr hrollback))
      · refine .unchanged ?_ ?_ ?_
        · rw [fault_trans hvu hw, fault_trans htries hu]
          exact .inl (.inr (hfault.mono fun _ => .inr))
        · -- neither the writes nor the rollback try to commit
          rw [fault_trans hvu hw, fault_trans htries hu]
          refine not_or.2 ⟨not_or.2 ⟨hbegin _, not_fault_of_tries hu ?_⟩, not_fault_of_tries hw ?_⟩
          · rintro op hop rfl
            cases hP _ hop
          · rintro op rfl hop
            cases hop
        · rw [hstore, ← hclosed]

/-- A transaction inside another fails, and changes nothing. -/
theorem transaction_refused {saved : Tables} (hopen : v.store.saved = some saved) :
    Ends (transaction body) v (fun _ _ => False)
      (fun _ w => Tries (· = .begin) v w ∧ w.store = v.store) := by
  have happly : v.store.apply .begin = .error .transactionActive := by
    unfold Store.apply
    rw [hopen]
  exact ends_bind.2 (ends_perform_refused happly fun _ => ⟨tries_tries rfl, rfl⟩)

end Vault
end PhpAtlas
