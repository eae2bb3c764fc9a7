/-!
# Text as a list of characters

The parts of the library that read text (documentation comments, type expressions, source files,
settings) all work on plain lists of characters, so that every reader is a recursion on its data.
This module fixes the type and the blank, trimming and splitting operations they share.

Two notions of blank are needed.  `isBlank` is the Unicode property White_Space, which decides what
is trimmed; `isAsciiBlank` are the five ASCII blanks that may stand between a comment and the
declaration it documents.

## Main definitions

* `Text` — a list of characters.
* `Text.isBlank`, `Text.isAsciiBlank` — the two classes of blanks.
* `Text.trim`, `Text.words` — trimming and splitting at blanks.
* `Text.stripStart?`, `Text.stripEnd?` — a text without a given start or end.
* `Text.splitOnce?`, `Text.splitAll`, `Text.lines` — splitting at given texts.
-/

namespace PhpAtlas

/-- A text is the list of its characters. -/
abbrev Text := List Char

namespace Text

/-! ### Blanks -/

/-- The 25 characters with the Unicode property White_Space. -/
def isBlank (c : Char) : Bool :=
  let n := c.toNat
  (9 ≤ n && n ≤ 13) || n == 0x20 || n == 0x85 || n == 0xA0 || n == 0x1680 ||
    (0x2000 ≤ n && n ≤ 0x200A) || n == 0x2028 || n == 0x2029 || n == 0x202F || n == 0x205F ||
    n == 0x3000

/-- Space, tab, line feed, form feed and carriage return.  The vertical tab is not among them. -/
def isAsciiBlank (c : Char) : Bool :=
  let n := c.toNat
  n == 0x20 || n == 9 || n == 10 || n == 12 || n == 13

/-! ### Trimming -/

/-- Drop the longest final run of characters satisfying `p`. -/
def dropEndWhile (p : Char → Bool) (t : Text) : Text :=
  (t.reverse.dropWhile p).reverse

/-- Drop the blanks in front. -/
def trimStart (t : Text) : Text := t.dropWhile isBlank

/-- Drop the blanks at the end. -/
def trimEnd (t : Text) : Text := dropEndWhile isBlank t

/-- Drop the blanks at both ends. -/
def trim (t : Text) : Text := trimEnd (trimStart t)

/-- Drop every leading copy of `c`. -/
def dropLeading (c : Char) (t : Text) : Text := t.dropWhile (· == c)

/-- Drop every trailing copy of `c`. -/
def dropTrailing (c : Char) (t : Text) : Text := dropEndWhile (· == c) t

theorem length_dropWhile_le (p : Char → Bool) (t : Text) : (t.dropWhile p).length ≤ t.length := by
  induction t with
  | nil => simp
  | cons c t ih => by_cases h : p c <;> simp [h]; omega

theorem length_dropEndWhile_le (p : Char → Bool) (t : Text) :
    (dropEndWhile p t).length ≤ t.length := by
  simpa [dropEndWhile] using length_dropWhile_le p t.reverse

theorem length_trim_le (t : Text) : (trim t).length ≤ t.length :=
  Nat.le_trans (length_dropEndWhile_le _ _) (length_dropWhile_le _ _)

/-! ### Affixes -/

/-- What follows `front` in a text that begins with it. -/
def stripStart? : (front : Text) → Text → Option Text
  | [], t => some t
  | _ :: _, [] => none
  | f :: fs, c :: cs => if f == c then stripStart? fs cs else none

/-- What precedes `back` in a text that ends with it. -/
def stripEnd? (back t : Text) : Option Text :=
  (stripStart? back.reverse t.reverse).map List.reverse

/-- Whether a text begins with `front`. -/
def startsWith (front t : Text) : Bool := (stripStart? front t).isSome

/-- Whether a text ends with `back`. -/
def endsWith (back t : Text) : Bool := (stripEnd? back t).isSome

theorem length_stripStart? {front t r : Text} (h : stripStart? front t = some r) :
    r.length + front.length = t.length := by
  induction front generalizing t with
  | nil => simp_all [stripStart?]
  | cons f fs ih =>
    cases t with
    | nil => simp [stripStart?] at h
    | cons c cs =>
      by_cases hc : f == c
      · simp only [stripStart?, hc, if_true] at h
        have := ih h
        simp only [List.length_cons]
        omega
      · simp [stripStart?, hc] at h

theorem length_stripEnd? {back t r : Text} (h : stripEnd? back t = some r) :
    r.length + back.length = t.length := by
  obtain ⟨u, hu, rfl⟩ := Option.map_eq_some_iff.1 h
  simpa using length_stripStart? hu

/-- Remove every leading copy of a non-empty `front`.  The first argument bounds the number of
copies; the length of the text always suffices. -/
def dropLeadingCopies (front : Text) : Nat → Text → Text
  | 0, t => t
  | n + 1, t =>
      match stripStart? front t with
      | some r => dropLeadingCopies front n r
      | none => t

/-- Remove every trailing copy of a non-empty `back`. -/
def dropTrailingCopies (back t : Text) : Text :=
  (dropLeadingCopies back.reverse t.length t.reverse).reverse

/-! ### Splitting -/

/-- The text before and after the first character satisfying `p`, which is dropped. -/
def splitOnce? (p : Char → Bool) : Text → Option (Text × Text)
  | [] => none
  | c :: cs =>
      if p c then some ([], cs)
      else (splitOnce? p cs).map fun (a, b) => (c :: a, b)

/-- The pieces between the characters satisfying `p`; there is always at least one. -/
def splitAll (p : Char → Bool) : Text → List Text
  | [] => [[]]
  | c :: cs =>
      if p c then [] :: splitAll p cs
      else
        match splitAll p cs with
        | [] => [[c]]
        | w :: ws => (c :: w) :: ws

/-- The maximal runs of characters that are not blank. -/
def words (t : Text) : List Text := (splitAll isBlank t).filter (!·.isEmpty)

/-- One trailing carriage return, dropped when a line feed followed it. -/
def dropReturn (line : Text) : Text := (stripEnd? ['\r'] line).getD line

/-- Tail of `lines`: `pieces` are the rest of the text cut at its line feeds. -/
def linesOf : List Text → List Text
  | [] => []
  | [w] => if w.isEmpty then [] else [w]
  | w :: ws => dropReturn w :: linesOf ws

/-- The lines of a text.  A line ends with a line feed, optionally preceded by a carriage return,
and the last line may lack its end. -/
def lines (t : Text) : List Text := linesOf (splitAll (· == '\n') t)

/-- Join with a separator between neighbours. -/
def join (sep : Text) : List Text → Text
  | [] => []
  | [w] => w
  | w :: ws => w ++ sep ++ join sep ws

/-! ### Search -/

/-- Whether `needle` occurs in the text. -/
def hasInfix (needle : Text) : Text → Bool
  | [] => needle.isEmpty
  | c :: cs => startsWith needle (c :: cs) || hasInfix needle cs

/-- The text before the last occurrence of `needle`, and the text from it on. -/
def splitLast? (needle : Text) : Text → Option (Text × Text)
  | [] => if needle.isEmpty then some ([], []) else none
  | c :: cs =>
      match splitLast? needle cs with
      | some (a, b) => some (c :: a, b)
      | none => if startsWith needle (c :: cs) then some ([], c :: cs) else none

/-- The text before the first occurrence of `needle`, and the text from it on. -/
def splitFirst? (needle : Text) : Text → Option (Text × Text)
  | [] => if needle.isEmpty then some ([], []) else none
  | c :: cs =>
      if startsWith needle (c :: cs) then some ([], c :: cs)
      else (splitFirst? needle cs).map fun (a, b) => (c :: a, b)

end Text

end PhpAtlas
