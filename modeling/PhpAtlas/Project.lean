import PhpAtlas.Config.Read
import PhpAtlas.Index.Basic

/-!
# Indexing a project

A run indexes every file below some roots that the settings allow.  A file whose record is at least
as recent as its last change is skipped, unless its text is supplied.  A file that fails is noted,
and the run goes on.

## Main definitions

* `Config.filesOf` — the files below a root.
* `Tables.isFresh` — whether a file need not be indexed.
* `Circumstances` — the times and the accidents of a run.
* `indexFile`, `indexProject` — index one file, and a project.
* `pruneProject` — forget the files that are gone.
-/

namespace PhpAtlas

open Vault

/-- What became of a file. -/
inductive Outcome
  | indexed
  | skipped
  | failed (reason : String)
  deriving DecidableEq, Repr

/-- What became of every file of a run, in the order of their paths. -/
structure ProjectReport where
  outcomes : List (String × Outcome)
  deriving DecidableEq, Repr

namespace ProjectReport

/-- The files that were indexed. -/
def indexed (r : ProjectReport) : List String :=
  r.outcomes.filterMap fun (path, o) => if o = .indexed then some path else none

/-- The files that were left as they are. -/
def skipped (r : ProjectReport) : List String :=
  r.outcomes.filterMap fun (path, o) => if o = .skipped then some path else none

/-- The files that failed, each with the reason. -/
def failed (r : ProjectReport) : List (String × String) :=
  r.outcomes.filterMap fun (path, o) =>
    match o with
    | .failed reason => some (path, reason)
    | _ => none

/-- The steps of a run: how many files are done, out of how many, and the latest. -/
def progress (r : ProjectReport) : List (Nat × Nat × String) :=
  r.outcomes.mapIdx fun i (path, _) => (i + 1, r.outcomes.length, path)

/-- The report as data. -/
def toJson (r : ProjectReport) : Json :=
  .object
    [("failed", Json.ofList (fun (path, reason) => Json.texts [path, reason]) r.failed),
      ("indexed", Json.texts r.indexed), ("skipped", Json.texts r.skipped)]

end ProjectReport

/-! ### Finding files -/

/-- The files to index below a root, which may itself be a file. -/
def Config.filesOf (c : Config) (d : Disk) (root : String) : List String :=
  if d.isFile root then if c.isIndexable root then [root] else []
  else (d.filesBelow root).filter fun path => c.isIndexable path && !c.isExcluded root path

/-- Paths in increasing order, each once. -/
def sortedPaths (paths : List String) : List String :=
  (paths.foldl (fun t path => t.insert path path) Table.empty).values

/-- Whether a file was indexed since its last change.  A file that is gone has not changed. -/
def Tables.isFresh (t : Tables) (d : Disk) (path : String) : Bool :=
  match t.file? path with
  | some record => (d.modified? path).getD 0 ≤ record.indexedAt
  | none => false

/-! ### Runs -/

/-- What a run meets with that neither the settings nor the disk tell. -/
structure Circumstances where
  /-- When each path is indexed. -/
  time : String → Nat
  /-- The texts on which the reader breaks off. -/
  breaksOff : String → Bool := fun _ => false

/-- Every path is indexed at one time, and every text can be read. -/
def Circumstances.steady (time : Nat) : Circumstances where
  time _ := time

/-- Read a text, unless the reader breaks off. -/
def Circumstances.read? (x : Circumstances) (path source : String) : Option Document :=
  if x.breaksOff source then none else some (Document.ofSource path source)

/-- Index a text under a path. -/
def indexText (c : Config) (x : Circumstances) (path source : String) : VaultM Outcome := do
  match ← indexReading c.maxDepth path (x.read? path source) (x.time path) with
  | .ok () => return .indexed
  | .error e => return .failed e.message

/-- Index a file from the text supplied for it, else from the disk if that is needed. -/
def indexFile (c : Config) (d : Disk) (overrides : Table String) (x : Circumstances)
    (path : String) : VaultM Outcome := do
  match overrides.get? path with
  | some source => indexText c x path source
  | none =>
      if (← tables).isFresh d path then return .skipped
      else
        match d.read path with
        | .ok source => indexText c x path source
        | .error e => return .failed e.message

/-- Index all files below roots, and those whose text is supplied. -/
def indexProject (c : Config) (d : Disk) (overrides : Table String) (x : Circumstances)
    (roots : List String) : VaultM ProjectReport := do
  let paths := sortedPaths (roots.flatMap (c.filesOf d) ++ overrides.entries.map (·.1))
  let outcomes ← paths.mapM fun path => do return (path, ← indexFile c d overrides x path)
  return ⟨outcomes⟩

/-- Forget the files that are gone, and list them.  The first failure ends the run. -/
def pruneProject (d : Disk) : VaultM (List String) := do
  let gone := ((← tables).fileList.map (·.path)).filter fun path => !d.has path
  gone.forM fun path => transaction (perform (.deleteFile path))
  return gone

end PhpAtlas
