import PhpAtlas.Text.Basic

/-!
# Strings in settings

Four forms of strings: between double quotes with escapes, between single quotes without, and both
over several lines between three quotes.  A reader starts behind the opening quotes and returns the
characters of the string and the rest of the text; `none` means that the string is not well formed.

## Main definitions

* `Toml.isPlain` — the characters that stand for themselves.
* `Toml.readEscape` — the character behind a backslash.
* `Toml.readBasic`, `Toml.readLiteral` — strings on one line.
* `Toml.readLongBasic`, `Toml.readLongLiteral` — strings over several lines.
-/

namespace PhpAtlas
namespace Toml

/-- A character that may stand in a string or a comment: no control character but the tab. -/
def isPlain (c : Char) : Bool := c == '\t' || (32 ≤ c.toNat && c.toNat != 127)

/-- The value of a hexadecimal digit. -/
def hexValue? (c : Char) : Option Nat :=
  if c.isDigit then some (c.toNat - 48)
  else if 'a' ≤ c && c ≤ 'f' then some (c.toNat - 87)
  else if 'A' ≤ c && c ≤ 'F' then some (c.toNat - 55)
  else none

/-- The value of several hexadecimal digits. -/
def hexNumber? (digits : Text) : Option Nat :=
  digits.foldlM (fun n c => (hexValue? c).map (16 * n + ·)) 0

/-- The character with a code given by hexadecimal digits; codes of surrogates are no characters. -/
def codeChar? (digits : Text) : Option Char := do
  let n ← hexNumber? digits
  if n.isValidChar then some (Char.ofNat n) else none

/-- The character that an escape stands for, and the rest behind it. -/
def readEscape : Text → Option (Char × Text)
  | '"' :: r => some ('"', r)
  | '\\' :: r => some ('\\', r)
  | 'b' :: r => some (Char.ofNat 8, r)
  | 'e' :: r => some (Char.ofNat 27, r)
  | 'f' :: r => some (Char.ofNat 12, r)
  | 'n' :: r => some ('\n', r)
  | 'r' :: r => some ('\r', r)
  | 't' :: r => some ('\t', r)
  | 'x' :: r => digits 2 r
  | 'u' :: r => digits 4 r
  | 'U' :: r => digits 8 r
  | _ => none
where
  digits (n : Nat) (r : Text) : Option (Char × Text) :=
    if (r.take n).length == n then (codeChar? (r.take n)).map fun c => (c, r.drop n) else none

/-- Put a character in front of what was read. -/
def push (c : Char) (r : Option (Text × Text)) : Option (Text × Text) :=
  r.map fun (cs, rest) => (c :: cs, rest)

/-! ### On one line -/

/-- A string between double quotes. -/
def readBasicIn : (room : Nat) → Text → Option (Text × Text)
  | 0, _ => none
  | _ + 1, [] => none
  | room + 1, c :: r =>
      if c == '"' then some ([], r)
      else if c == '\\' then do
        let (e, r) ← readEscape r
        push e (readBasicIn room r)
      else if isPlain c then push c (readBasicIn room r)
      else none

/-- A string between double quotes. -/
def readBasic (t : Text) : Option (Text × Text) := readBasicIn (t.length + 1) t

/-- A string between single quotes. -/
def readLiteral : Text → Option (Text × Text)
  | [] => none
  | c :: r =>
      if c == '\'' then some ([], r) else if isPlain c then push c (readLiteral r) else none

/-! ### Over several lines -/

/-- Drop a line break at the front. -/
def dropBreak : Text → Text
  | '\n' :: r => r
  | '\r' :: '\n' :: r => r
  | t => t

/-- The end of a string in three quotes, with up to two quotes that belong to it. -/
def readEnd? (q : Char) : Text → Option (Text × Text)
  | a :: b :: c :: r =>
      if a == q && b == q && c == q then
        match r with
        | d :: e :: r' =>
            if d == q && e == q then some ([q, q], r')
            else if d == q then some ([q], e :: r')
            else some ([], r)
        | [d] => if d == q then some ([q], []) else some ([], r)
        | [] => some ([], [])
      else none
  | _ => none

/-- A backslash at the end of a line takes the line break and all blanks behind it away. -/
def joinLines? (t : Text) : Option Text :=
  match t.dropWhile fun c => c == ' ' || c == '\t' with
  | '\n' :: r | '\r' :: '\n' :: r => some (r.dropWhile fun c => c.isWhitespace)
  | _ => none

/-- A string between three double quotes. -/
def readLongBasicIn : (room : Nat) → Text → Option (Text × Text)
  | 0, _ => none
  | _ + 1, [] => none
  | room + 1, c :: r =>
      match readEnd? '"' (c :: r) with
      | some found => some found
      | none =>
          if c == '\\' then
            match joinLines? r with
            | some r => readLongBasicIn room r
            | none => do
                let (e, r) ← readEscape r
                push e (readLongBasicIn room r)
          else if c == '\r' then
            if r.head? == some '\n' then push c (readLongBasicIn room r) else none
          else if c == '\n' || isPlain c then push c (readLongBasicIn room r)
          else none

/-- A string between three double quotes; a line break at its start does not count. -/
def readLongBasic (t : Text) : Option (Text × Text) :=
  readLongBasicIn (t.length + 1) (dropBreak t)

/-- A string between three single quotes. -/
def readLongLiteralIn : Text → Option (Text × Text)
  | [] => none
  | c :: r =>
      match readEnd? '\'' (c :: r) with
      | some found => some found
      | none =>
          if c == '\r' then
            if r.head? == some '\n' then push c (readLongLiteralIn r) else none
          else if c == '\n' || isPlain c then push c (readLongLiteralIn r)
          else none

/-- A string between three single quotes; a line break at its start does not count. -/
def readLongLiteral (t : Text) : Option (Text × Text) := readLongLiteralIn (dropBreak t)

end Toml
end PhpAtlas
