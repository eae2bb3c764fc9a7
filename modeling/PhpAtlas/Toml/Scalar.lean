import PhpAtlas.Toml.Basic
import PhpAtlas.Toml.Quoted

/-!
# Numbers, truth values and dates in settings

## Main definitions

* `Toml.digits?` — digits with single underscores between them.
* `Toml.integer?`, `Toml.float?` — numbers.
* `Toml.date?`, `Toml.time?`, `Toml.moment?` — dates and times.
* `Toml.scalar?` — the value of a word.
-/

namespace PhpAtlas
namespace Toml

/-! ### Numbers -/

/-- The digits behind a first one; an underscore stands between two digits. -/
def moreDigits? (p : Char → Bool) : Text → Option Text
  | [] => some []
  | '_' :: c :: r => if p c then (moreDigits? p r).map (c :: ·) else none
  | c :: r => if p c then (moreDigits? p r).map (c :: ·) else none

/-- Digits without the underscores between them; there is at least one digit. -/
def digits? (p : Char → Bool) : Text → Option Text
  | [] => none
  | c :: r => if p c then (moreDigits? p r).map (c :: ·) else none

/-- Decimal digits that do not start with a zero, unless that is all. -/
def decimal? (t : Text) : Option Text :=
  (digits? Char.isDigit t).filter fun ds => ds.head? != some '0' || ds.length == 1

/-- The value of digits in a base. -/
def valueOf (base : Nat) (ds : Text) : Nat :=
  ds.foldl (fun n c => base * n + (hexValue? c).getD 0) 0

/-- A sign in front of a number, and whether it is negative. -/
def sign : Text → Bool × Text
  | '+' :: r => (false, r)
  | '-' :: r => (true, r)
  | t => (false, t)

/-- The digits to base 2. -/
def isBinary (c : Char) : Bool := c == '0' || c == '1'

/-- The digits to base 8. -/
def isOctal (c : Char) : Bool := '0' ≤ c && c ≤ '7'

/-- The digits to base 16, in either case. -/
def isHex (c : Char) : Bool := (hexValue? c).isSome

/-- An integer of any size. -/
def anyInteger? (t : Text) : Option Int :=
  match t with
  | '0' :: 'x' :: r => (digits? isHex r).map fun ds => Int.ofNat (valueOf 16 ds)
  | '0' :: 'o' :: r => (digits? isOctal r).map fun ds => Int.ofNat (valueOf 8 ds)
  | '0' :: 'b' :: r => (digits? isBinary r).map fun ds => Int.ofNat (valueOf 2 ds)
  | _ =>
      let (negative, r) := sign t
      (decimal? r).map fun ds =>
        if negative then -Int.ofNat (valueOf 10 ds) else Int.ofNat (valueOf 10 ds)

/-- An integer that fits into 128 bits, with or without a sign. -/
def integer? (t : Text) : Option Int :=
  (anyInteger? t).filter fun n => -(1 <<< 127) ≤ n && n < 1 <<< 128

/-- Whether a decimal `m · 10 ^ e` is rounded to a finite number of 64 bits. -/
def isFinite (m : Nat) (e : Int) : Bool :=
  let size := Int.ofNat (Nat.toDigits 10 m).length + e
  if m == 0 || size ≤ 308 then true
  else if 310 ≤ size then false
  else
    let limit := 1 <<< 1024 - 1 <<< 970
    if 0 ≤ e then m * Nat.pow 10 e.toNat < limit else m < limit * Nat.pow 10 (-e).toNat

/-- The exponent of a number. -/
def exponent? (t : Text) : Option Int :=
  let (negative, r) := sign t
  (digits? Char.isDigit r).map fun ds =>
    if negative then -Int.ofNat (valueOf 10 ds) else Int.ofNat (valueOf 10 ds)

/-- Whether a word is a number with a fraction or an exponent. -/
def isFloat (t : Text) : Bool :=
  let (_, r) := sign t
  if r == ['i', 'n', 'f'] || r == ['n', 'a', 'n'] then true
  else
    let (mantissa, exponent) :=
      match Text.splitOnce? (fun c => c == 'e' || c == 'E') r with
      | some (m, e) => (m, some e)
      | none => (r, none)
    let (whole, fraction) :=
      match Text.splitOnce? (· == '.') mantissa with
      | some (w, f) => (w, some f)
      | none => (mantissa, none)
    let wholeDigits := decimal? whole
    let fractionDigits :=
      match fraction with
      | some f => digits? Char.isDigit f
      | none => some []
    let power :=
      match exponent with
      | some e => exponent? e
      | none => some 0
    match wholeDigits, fractionDigits, power with
    | some w, some f, some e =>
        (fraction.isSome || exponent.isSome) &&
          isFinite (valueOf 10 (w ++ f)) (e - Int.ofNat f.length)
    | _, _, _ => false

/-! ### Dates and times -/

/-- A number of exactly two digits. -/
def twoDigits? : Text → Option Nat
  | [a, b] => if a.isDigit && b.isDigit then some (valueOf 10 [a, b]) else none
  | _ => none

/-- Whether a year has a day more. -/
def isLeapYear (year : Nat) : Bool := year % 4 == 0 && (year % 100 != 0 || year % 400 == 0)

/-- The number of days of a month. -/
def daysOf (year month : Nat) : Nat :=
  if month == 2 then if isLeapYear year then 29 else 28
  else if [4, 6, 9, 11].contains month then 30
  else 31

/-- Whether a word is a date. -/
def isDate (t : Text) : Bool :=
  match t with
  | [a, b, c, d, '-', e, f, '-', g, h] =>
      match digits? Char.isDigit [a, b, c, d], twoDigits? [e, f], twoDigits? [g, h] with
      | some ds, some month, some day =>
          ds.length == 4 && 1 ≤ month && month ≤ 12 && 1 ≤ day &&
            day ≤ daysOf (valueOf 10 ds) month
      | _, _, _ => false
  | _ => false

/-- Whether a word gives seconds, perhaps with a fraction. -/
def isSeconds (t : Text) : Bool :=
  ((twoDigits? (t.take 2)).any (· ≤ 60)) &&
    match t.drop 2 with
    | [] => true
    | '.' :: f => !f.isEmpty && f.all Char.isDigit
    | _ => false

/-- Whether a word gives hours and minutes up to a largest hour. -/
def isClock (hours : Nat) (t : Text) : Bool :=
  match t with
  | [a, b, ':', c, d] =>
      (twoDigits? [a, b]).any (· ≤ hours) && (twoDigits? [c, d]).any (· ≤ 59)
  | _ => false

/-- Whether a word is a time; the seconds may be left out. -/
def isTime (t : Text) : Bool :=
  isClock 23 (t.take 5) &&
    match t.drop 5 with
    | [] => true
    | ':' :: s => isSeconds s
    | _ => false

/-- Whether a word is an offset from universal time, of at most a day. -/
def isOffset : Text → Bool
  | ['Z'] | ['z'] => true
  | c :: r => (c == '+' || c == '-') && (isClock 23 r || r == "24:00".toList)
  | [] => false

/-- Whether a word is a time with or without an offset. -/
def isZonedTime (t : Text) : Bool :=
  let isMark := fun c => c == 'Z' || c == 'z' || c == '+' || c == '-'
  let time := t.takeWhile fun c => !isMark c
  let offset := t.dropWhile fun c => !isMark c
  isTime time && (offset.isEmpty || isOffset offset)

/-- Whether a word is a date with a time. -/
def isDateTime (t : Text) : Bool :=
  isDate (t.take 10) &&
    match t.drop 10 with
    | 'T' :: r | 't' :: r | ' ' :: r => isZonedTime r
    | _ => false

/-! ### Words -/

/-- The value of a word. -/
def scalar? (t : Text) : Option TomlScalar :=
  if t == "true".toList then some (.bool true)
  else if t == "false".toList then some (.bool false)
  else
    match integer? t with
    | some n => some (.integer n)
    | none =>
        if isFloat t then some .float
        else if isDate t || isTime t || isDateTime t then some .moment
        else none

/-- A character of a word. -/
def isWordChar (c : Char) : Bool := c.isAlphanum || ['+', '-', '_', '.', ':'].contains c

/-- A word and its value.  A blank may stand between a date and a time. -/
def readWord (t : Text) : Option (TomlScalar × Text) :=
  let word := t.takeWhile isWordChar
  let rest := t.dropWhile isWordChar
  match rest with
  | ' ' :: r =>
      let longer := word ++ (' ' :: r.takeWhile isWordChar)
      if isDateTime longer then some (.moment, r.dropWhile isWordChar)
      else (scalar? word).map (·, rest)
  | _ => (scalar? word).map (·, rest)

end Toml
end PhpAtlas
