import PhpAtlas.Source.Trivia

/-!
# Finding the comment of a declaration or a statement

The documentation comment of a node is the nearest one in front of it with only blanks and plain
comments in between.  An inline annotation is a comment that stands on its own lines directly above
a statement.

## Main definitions

* `Trivia.docBefore?` — the documentation comment of the node that starts at an offset.
* `inlineComment?` — the comment directly above an offset.
-/

namespace PhpAtlas

/-- Whether all bytes from `start` to before `stop` are ASCII blanks; `pos` is the offset at which
the text stands. -/
def Text.blankFrom (start stop : Nat) : (pos : Nat) → Text → Bool
  | _, [] => true
  | pos, c :: cs =>
      (pos + c.utf8Size ≤ start || stop ≤ pos || isAsciiBlank c) &&
        blankFrom start stop (pos + c.utf8Size) cs

/-- Whether all bytes between two offsets of a text are ASCII blanks.  Nothing lies in a range that
is empty or leaves the text. -/
def Text.blankBetween (t : Text) (start stop : Nat) : Bool :=
  stop ≤ start || byteLength t < stop || blankFrom start stop 0 t

namespace Trivia

/-- Search backwards from `covered`; the list is the trivia in front of it, nearest first. -/
def docFrom? (source : Text) : (covered : Nat) → List Trivia → Option Trivia
  | _, [] => none
  | covered, t :: ts =>
      if source.blankBetween t.span.stop covered then
        if t.kind = .docComment then some t else docFrom? source t.span.start ts
      else none

/-- The documentation comment of the node that starts at an offset. -/
def docBefore? (source : Text) (trivia : List Trivia) (start : Nat) : Option Trivia :=
  docFrom? source start (trivia.takeWhile (·.span.start < start)).reverse

end Trivia

/-- The comment directly above an offset, with its own offset: only blanks lie between its end and
the offset, and only ASCII blanks between the start of its line and its start. -/
def inlineComment? (source : Text) (offset : Nat) : Option (Text × Nat) :=
  match Text.splitAtByte? offset source with
  | none => none
  | some (before, _) =>
      let before := Text.trimEnd before
      if Text.endsWith ['*', '/'] before then
        match Text.splitLast? ['/', '*', '*'] before with
        | none => none
        | some (front, comment) =>
            if (front.reverse.takeWhile (· != '\n')).all Text.isAsciiBlank then
              some (comment, Text.byteLength front)
            else none
      else none

end PhpAtlas
