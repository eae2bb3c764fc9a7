import PhpAtlas.Store.Basic

/-!
# A store that may fail

A vault is a store together with a schedule of faults.  The schedule sees the operations tried so
far and the next one, and decides whether that one fails before it reaches the store.  Failing
changes nothing but the list of tried operations.

## Main definitions

* `Schedule` — which operations fail.
* `Vault`, `VaultM` — a store with a schedule, and programs on it.
* `Vault.perform` — run one operation.
* `Vault.transaction` — run a program between `begin` and `commit`.
-/

namespace PhpAtlas

/-- Which operations fail, given those tried before, the latest first. -/
abbrev Schedule := List StoreOp → StoreOp → Bool

/-- No operation fails. -/
def Schedule.none : Schedule := fun _ _ => false

/-- Of the operations that satisfy `p`, let the first `skip` pass and then `times` fail; without
`times` all later ones fail. -/
def Schedule.window (p : StoreOp → Bool) (skip : Nat) (times : Option Nat) : Schedule :=
  fun tried op =>
    let seen := tried.countP p
    p op && skip ≤ seen &&
      match times with
      | .none => true
      | some n => seen < skip + n

/-- A store with a schedule of faults. -/
structure Vault where
  store : Store
  schedule : Schedule
  /-- The operations tried since the schedule was set, the latest first. -/
  tried : List StoreOp

/-- A program on a vault; it keeps the changes made before it fails. -/
abbrev VaultM := EStateM StoreError Vault

namespace Vault

/-- An empty store in which nothing fails. -/
def empty : Vault := ⟨Store.empty, Schedule.none, []⟩

/-- Start over with a schedule. -/
def withSchedule (v : Vault) (schedule : Schedule) : Vault := ⟨v.store, schedule, []⟩

/-- The error of a fault in front of an operation. -/
def faultOf (op : StoreOp) : StoreError := .backend ("injected " ++ op.method)

/-- Try an operation: it may fail by schedule or by the rules of the store. -/
def attempt (v : Vault) (op : StoreOp) (run : Store → Except StoreError Store) :
    Except StoreError Store :=
  if v.schedule v.tried op then .error (faultOf op) else run v.store

/-- Run an operation. -/
def perform (op : StoreOp) : VaultM Unit := fun v =>
  let next := { v with tried := op :: v.tried }
  match v.attempt op (·.apply op) with
  | .ok s => .ok () { next with store := s }
  | .error e => .error e next

/-- Run an operation on a thread that owns no transaction: the store refuses it. -/
def performElsewhere (op : StoreOp) : VaultM Unit := fun v =>
  let next := { v with tried := op :: v.tried }
  match v.attempt op fun _ => .error .noTransaction with
  | .ok s => .ok () { next with store := s }
  | .error e => .error e next

/-- The tables as they are now. -/
def tables : VaultM Tables := do return (← get).store.tables

/-- Go on after a failure, forgetting it. -/
def ignoring (m : VaultM Unit) : VaultM Unit := tryCatch m fun _ => pure ()

/-- Run a program in a transaction: commit what it did, or roll back when it fails.  A failure to
roll back is forgotten. -/
def transaction (body : VaultM Unit) : VaultM Unit := do
  perform .begin
  let failure ← tryCatch (do body; pure none) fun e => pure (some e)
  match failure with
  | none => perform .commit
  | some e =>
      ignoring (perform .rollback)
      throw e

end Vault
end PhpAtlas
