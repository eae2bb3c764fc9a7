import PhpAtlas.CommandLine.Options
import PhpAtlas.Json.Symbol
import PhpAtlas.Lint.Basic
import PhpAtlas.Project

/-!
# Commands

Every command starts from an empty store, indexes a project, and answers with data.

## Main definitions

* `Disk.projectRoot` — the root of the project around a path.
* `Invocation.run` — the answer to an invocation.
* `CommandLine.answer` — the answer to arguments, and the exit code.
-/

namespace PhpAtlas

/-- The root of the project around a path: the nearest directory with a file of settings or of a
package, else the directory of the path. -/
def Disk.projectRoot (d : Disk) (path : String) : String :=
  let start := if d.isDirectory path then path else (Path.parent? path).getD path
  ((Path.ancestors start).find? fun dir =>
    d.has (Path.join dir Config.projectFile) || d.has (Path.join dir "composer.json")).getD start

/-- Why a command fails. -/
inductive CommandError
  | read (e : ReadError)
  | node (e : NodeError)
  | resolution (e : ResolutionError)
  | store (e : StoreError)

/-- The text of an error, which is that of its cause. -/
def CommandError.message : CommandError → String
  | .read e => e.message
  | .node e => e.message
  | .resolution e => e.message
  | .store e => e.message

/-- The exit code of a failure.  A question that does not end is aborted. -/
def CommandError.exitCode : CommandError → Nat
  | .node .endless => 134
  | _ => 1

namespace Invocation

open Vault

/-- Every file is indexed at one time, and has changed before. -/
def circumstances : Circumstances := .steady 1

/-- Index roots with the settings of a project into an empty store. -/
def indexRoots (d : Disk) (c : Config) (roots : List String) : ProjectReport × Vault :=
  match indexProject c d Table.empty circumstances roots Vault.empty with
  | .ok report v => (report, v)
  | .error _ v => (⟨[]⟩, v)

/-- A project that was indexed, and a file in it. -/
structure Loaded where
  config : Config
  atlas : Atlas
  doc : Document

/-- Index the project around a file, and read the file. -/
def loadProject (d : Disk) (includes : List String) (file : String) :
    Except CommandError Loaded := do
  let path ← (d.canonical? file).elim (.error (.read .missing)) .ok
  let source ← (d.read path).mapError .read
  let root := d.projectRoot path
  let c := Config.load d root
  let (_, v) := indexRoots d c (includes ++ [root])
  return ⟨c, ⟨v.store.tables, c.maxDepth⟩, Document.ofSource path source⟩

/-- Index paths, forget what is gone if that is asked for, and report. -/
def runIndex (d : Disk) (includes paths : List String) (prune : Bool) :
    Except CommandError Json := do
  let c := Config.load d ((paths.head?.map d.projectRoot).getD "")
  let (report, v) := indexRoots d c (includes ++ paths)
  let (pruned, v) ←
    if prune then
      match pruneProject d v with
      | .ok gone v => .ok (gone, v)
      | .error e _ => .error (.store e)
    else .ok ([], v)
  return .object
    [("classlikes", .number v.store.tables.classlikeList.length),
      ("files", .number v.store.tables.fileList.length),
      ("pruned", Json.texts pruned), ("report", report.toJson)]

/-- The answer to an invocation. -/
def run (d : Disk) (i : Invocation) : Except CommandError Json :=
  match i.command with
  | .index paths prune => runIndex d i.includes paths prune
  | .deduce file offset expression => do
      let p ← loadProject d i.includes file
      let types ← (p.atlas.deduceText p.doc offset expression).mapError .node
      return .object
        [("expression", .text expression), ("offset", .number offset), ("types", types.toJson)]
  | .resolve file name => do
      let p ← loadProject d i.includes file
      let view ← (p.atlas.tables.resolve p.config.maxDepth (Name.qualify name)).mapError
        .resolution
      return view.toJson
  | .lint file => do
      let p ← loadProject d i.includes file
      return (p.atlas.lint p.config.lint p.doc).toJson

end Invocation

namespace CommandLine

/-- What a run prints and how it ends. -/
structure Answer where
  exitCode : Nat
  output : Option Json
  /-- What goes wrong. -/
  complaint : Option String

/-- The answer to arguments. -/
def answer (d : Disk) (arguments : List String) : Answer :=
  match Invocation.parse arguments with
  | .error .shown => ⟨0, none, none⟩
  | .error .usage => ⟨2, none, some "the arguments could not be understood"⟩
  | .ok i =>
      match i.run d with
      | .ok json => ⟨0, some json, none⟩
      | .error e => ⟨e.exitCode, none, some e.message⟩

end CommandLine
end PhpAtlas
