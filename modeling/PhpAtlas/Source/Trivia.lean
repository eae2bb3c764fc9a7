import PhpAtlas.Text.Offset

/-!
# Blanks and comments of a source file

What lies between the tokens of a source file is kept as a list of ranges, sorted by position,
because documentation comments carry types.

## Main definitions

* `Trivia` — a run of blanks or a comment.
-/

namespace PhpAtlas

/-- What stands between two tokens. -/
inductive TriviaKind
  | blank
  /-- From two slashes to the end of the line. -/
  | lineComment
  /-- From a number sign to the end of the line. -/
  | hashComment
  | blockComment
  /-- A block comment that begins with two stars. -/
  | docComment
  deriving DecidableEq, Repr

/-- A run of blanks or a comment. -/
structure Trivia where
  kind : TriviaKind
  span : Span
  text : Text
  deriving Repr

end PhpAtlas
