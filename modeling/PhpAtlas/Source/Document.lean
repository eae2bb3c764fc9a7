import PhpAtlas.Source.Lexer
import PhpAtlas.Source.Parse.Statement

/-!
# Documents

A document is a source file that was read: its text, its statements, the comments and blanks
between its tokens, and the complaints about it.

## Main definitions

* `Document`, `Document.ofText` — a file that was read.
* `Document.lineAt`, `Document.textOf` — lines and slices.
-/

namespace PhpAtlas

/-- A source file that was read. -/
structure Document where
  path : String
  text : Text
  statements : List Stmt
  trivia : List Trivia
  diagnostics : List Diagnostic

namespace Document

/-- Read a source file. -/
def ofText (path : String) (text : Text) : Document :=
  let lexed := lex text
  let parsed := parse lexed.tokens lexed.fault
  { path := path, text := text, statements := parsed.statements, trivia := lexed.trivia,
    diagnostics := parsed.diagnostics }

/-- Read a source file from a string. -/
def ofSource (path source : String) : Document := ofText path source.toList

/-- The line of an offset. -/
def lineAt (d : Document) (offset : Nat) : Nat := Text.lineAt d.text offset

/-- The trimmed text of a range. -/
def textOf (d : Document) (span : Span) : String :=
  String.ofList (Text.trim (Text.slice d.text span))

end Document
end PhpAtlas
