import PhpAtlas.Text.Basic

/-!
# The value of a quoted string

In single quotes a backslash escapes only itself and the quote.  In double quotes it also writes
control characters, octal and hexadecimal bytes, and code points.

## Main definitions

* `Quoted.single`, `Quoted.double` — undo the escapes of the text between the quotes.
* `Quoted.value` — the value of a string with its quotes.
-/

namespace PhpAtlas
namespace Quoted

/-- Undo the escapes of a text in single quotes. -/
def single : Text → Text
  | [] => []
  | '\\' :: '\\' :: cs => '\\' :: single cs
  | '\\' :: '\'' :: cs => '\'' :: single cs
  | c :: cs => c :: single cs

/-- The value of a hexadecimal digit. -/
def hexValue? (c : Char) : Option Nat :=
  if c.isDigit then some (c.toNat - 48)
  else if 'a' ≤ c && c ≤ 'f' then some (c.toNat - 87)
  else if 'A' ≤ c && c ≤ 'F' then some (c.toNat - 55)
  else none

/-- The number written by digits in a base. -/
def number (base : Nat) (digits : Text) : Nat :=
  digits.foldl (fun n c => base * n + (hexValue? c).getD 0) 0

/-- The character that a letter behind a backslash stands for. -/
def control? (c : Char) : Option Char :=
  match c with
  | 'n' => some '\n'
  | 't' => some '\t'
  | 'r' => some '\r'
  | 'v' => some (Char.ofNat 11)
  | 'e' => some (Char.ofNat 27)
  | 'f' => some (Char.ofNat 12)
  | '\\' | '$' | '"' => some c
  | _ => none

/-- The escape behind a backslash: the character it writes and how many characters it takes. -/
def escape? (t : Text) : Option (Char × Nat) :=
  match t with
  | [] => none
  | c :: cs =>
      match control? c with
      | some d => some (d, 1)
      | none =>
          let octal := (t.take 3).takeWhile fun d => '0' ≤ d && d ≤ '7'
          let hex := (cs.take 2).takeWhile fun d => (hexValue? d).isSome
          if !octal.isEmpty then some (Char.ofNat (number 8 octal % 256), octal.length)
          else if c == 'x' && !hex.isEmpty then some (Char.ofNat (number 16 hex), 1 + hex.length)
          else if c == 'u' && cs.head? == some '\x7b' then
            let digits := (cs.drop 1).takeWhile fun d => (hexValue? d).isSome
            if !digits.isEmpty && (cs.drop (1 + digits.length)).head? == some '\x7d' then
              some (Char.ofNat (number 16 digits), 3 + digits.length)
            else none
          else none

/-- Undo the escapes of a text in double quotes. -/
def double (t : Text) : Text :=
  match t with
  | [] => []
  | c :: cs =>
      if c == '\\' then
        match escape? cs with
        | some (d, n) => d :: double (cs.drop n)
        | none => c :: double cs
      else c :: double cs
termination_by t.length
decreasing_by
  all_goals simp only [List.length_drop, List.length_cons]
  all_goals omega

/-- The value of a string with its quotes. -/
def value (t : Text) : Text :=
  match t with
  | '"' :: cs => double cs.dropLast
  | _ :: cs => single cs.dropLast
  | [] => []

end Quoted
end PhpAtlas
