import PhpAtlas.Text.Basic

/-!
# Byte offsets

Positions in a source file are byte offsets into its UTF-8 encoding and lines count from one.  A
range is half-open, but a position is *held* by a range when it lies between its ends with both
included, so that the place right behind a node still belongs to it.

## Main definitions

* `Span`, `Span.holds` — byte ranges.
* `Text.byteLength` — how many bytes a text takes.
* `Text.splitAtByte?` — cut a text at a byte offset that is a character boundary.
* `Text.slice` — the text of a range.
* `Text.lineAt` — the line of an offset.
-/

namespace PhpAtlas

/-- A half-open range of bytes. -/
structure Span where
  start : Nat
  stop : Nat
  deriving DecidableEq, Repr, Inhabited

namespace Span

/-- The offset lies within the range, both ends included. -/
def holds (s : Span) (offset : Nat) : Bool := s.start ≤ offset && offset ≤ s.stop

/-- The smallest range from the start of one to the end of the other. -/
def through (a b : Span) : Span := ⟨a.start, b.stop⟩

end Span

namespace Text

/-- How many bytes the UTF-8 encoding of a text takes. -/
def byteLength : Text → Nat
  | [] => 0
  | c :: cs => c.utf8Size + byteLength cs

/-- Cut a text after `n` bytes; `none` when that is past the end or inside a character. -/
def splitAtByte? : Nat → Text → Option (Text × Text)
  | 0, t => some ([], t)
  | _ + 1, [] => none
  | n + 1, c :: cs =>
      if c.utf8Size ≤ n + 1 then
        (splitAtByte? (n + 1 - c.utf8Size) cs).map fun (a, b) => (c :: a, b)
      else none

/-- The text of a range; empty when an end is no character boundary of the text. -/
def slice (t : Text) (s : Span) : Text :=
  if s.stop < s.start then []
  else
    match splitAtByte? s.start t with
    | none => []
    | some (_, rest) =>
        match splitAtByte? (s.stop - s.start) rest with
        | none => []
        | some (inside, _) => inside

/-- How many line feeds lie in the first `n` bytes. -/
def lineFeeds : Nat → Text → Nat
  | 0, _ => 0
  | _ + 1, [] => 0
  | n + 1, c :: cs => (if c == '\n' then 1 else 0) + lineFeeds (n + 1 - c.utf8Size) cs

/-- The line of a byte offset, counted from one.  An offset past the end is on the last line. -/
def lineAt (t : Text) (offset : Nat) : Nat := lineFeeds offset t + 1

end Text

end PhpAtlas
