import PhpAtlas.Index.Declaration
import PhpAtlas.Store.Vault

/-!
# Indexing a file

Three transactions replace what is known of a file: the old record is deleted, then the record and
the namespaces are written, then the declarations, whose names are resolved against what was
written.  If one of the last two fails, the file is deleted again, so that it is either indexed as a
whole or absent.  A text on which the reader breaks off has no document: the old record is deleted,
and indexing fails.

## Main definitions

* `putDeclarations` — record declarations one after the other.
* `indexDocument` — replace what is known of a document.
* `indexReading` — index what was read of a text, if it could be read.
* `IndexError` — why that failed.
-/

namespace PhpAtlas

open Vault

/-- Why a document could not be indexed. -/
def StoreError.indexMessage (e : StoreError) : String := "store error: " ++ e.message

/-- Why a text could not be indexed. -/
inductive IndexError
  /-- The reader broke off, so that there is no document. -/
  | unread (path : String)
  | store (e : StoreError)

/-- What is said about a text that could not be indexed. -/
def IndexError.message : IndexError → String
  | .unread path => "indexing " ++ path ++ " failed: the parser aborted"
  | .store e => e.indexMessage

/-- Record declarations, each from the symbols that are known when it is reached. -/
def putDeclarations (maxDepth : Nat) (site : Site) (ds : List Declaration) : VaultM Unit :=
  ds.forM fun d => do perform (d.op ⟨← tables, maxDepth⟩ site)

/-- Write the record and the namespaces of a document. -/
def putRecord (doc : Document) (time : Nat) : VaultM Unit := do
  perform (.putFile ⟨doc.path, time, doc.diagnostics⟩)
  perform (.putScopes doc.path doc.scopes)

/-- Write a document: its record and namespaces, then its declarations. -/
def putDocument (maxDepth : Nat) (doc : Document) (time : Nat) : VaultM Unit := do
  transaction (putRecord doc time)
  let scopes := (← tables).scopesOf doc.path
  transaction (putDeclarations maxDepth ⟨doc, scopes, none⟩ (declarations doc.statements))

/-- Replace what is known of a document.  When that fails, nothing of it is kept. -/
def indexDocument (maxDepth : Nat) (doc : Document) (time : Nat) : VaultM Unit := do
  transaction (perform (.deleteFile doc.path))
  tryCatch (putDocument maxDepth doc time) fun e => do
    ignoring (transaction (perform (.deleteFile doc.path)))
    throw e

/-- Replace what is known of a path by what was read of its text.  If the reader broke off, nothing
is kept and indexing fails. -/
def indexReading (maxDepth : Nat) (path : String) (reading : Option Document) (time : Nat) :
    VaultM (Except IndexError Unit) :=
  tryCatch (do
    match reading with
    | some doc =>
        indexDocument maxDepth doc time
        return .ok ()
    | none =>
        transaction (perform (.deleteFile path))
        return .error (.unread path)) fun e => return .error (.store e)

end PhpAtlas
