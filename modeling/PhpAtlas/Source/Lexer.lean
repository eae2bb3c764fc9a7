import PhpAtlas.Name
import PhpAtlas.Source.Token

/-!
# From text to tokens

The text is read from left to right.  A stack of frames remembers what the reader is in: text
outside of code, code, a string with interpolation, or a place inside such a string.  Each step
looks at the front of the text and decides how many characters form the next lexeme, always at
least one, so that reading ends and the lexemes cover the text without gap or overlap.

An unclosed string or comment, and a character that begins no token, end the reading.

## Main definitions

* `Frame` — what the reader is in.
* `LexFault` — why reading stopped early.
* `Step`, `step` — the lexeme at the front of the text.
* `scan` — all lexemes.
* `Lexed`, `lex` — the tokens, the trivia, and the fault if there is one.
-/

namespace PhpAtlas

/-- How a string with interpolation ends. -/
inductive Closing
  /-- At this character. -/
  | quote (c : Char)
  /-- At a line that begins with this label, blanks aside.  `lineStart` tells whether a line begins
  at the front of the rest. -/
  | label (label : Text) (interpolated lineStart : Bool)
  deriving DecidableEq, Repr

/-- What the reader is in. -/
inductive Frame
  | html
  | code
  /-- A string with interpolation. -/
  | template (closing : Closing)
  /-- Code in braces inside a string, with the number of open braces. -/
  | embedded (braces : Nat)
  /-- The index behind a variable inside a string. -/
  | subscript
  /-- The arrow and the name behind a variable inside a string. -/
  | access
  deriving DecidableEq, Repr

/-- Why reading stopped before the end. -/
inductive LexFault
  | unclosedString (double : Bool)
  | unclosedComment
  | unknownCharacter (c : Char)
  deriving DecidableEq, Repr

/-- What a lexeme is. -/
inductive LexemeKind
  | token (kind : TokenKind)
  | trivia (kind : TriviaKind)
  | fault (fault : LexFault)
  deriving DecidableEq, Repr

/-- The lexeme at the front of a text: its kind, the number of characters behind its first one, and
what the reader is in behind it. -/
structure Step where
  kind : LexemeKind
  extra : Nat
  frames : List Frame
  deriving Repr

/-- A lexeme with its place. -/
structure Lexeme where
  kind : LexemeKind
  span : Span
  text : Text
  deriving Repr

/-! ### Lengths -/

/-- How many characters at the front satisfy `p`. -/
def runLength (p : Char → Bool) (t : Text) : Nat := (t.takeWhile p).length

/-- How many characters at the front continue a name, backslashes in front of a segment included. -/
def nameLength : Text → Nat
  | [] => 0
  | c :: cs =>
      if Name.isRest c then nameLength cs + 1
      else
        match c, cs with
        | '\\', d :: _ => if Name.isStart d then nameLength cs + 1 else 0
        | _, _ => 0

/-- How many characters a comment takes that ends with its line or with the code. -/
def lineLength : Text → Nat
  | [] => 0
  | c :: cs =>
      if c == '\n' || c == '\r' || (c == '?' && cs.head? == some '>') then 0 else lineLength cs + 1

/-- How many characters lie before and in the end mark of a comment. -/
def commentLength? : Text → Option Nat
  | [] => none
  | '*' :: '/' :: _ => some 2
  | _ :: cs => (commentLength? cs).map (· + 1)

/-- How many characters lie before and in the closing single quote. -/
def singleLength? : Text → Option Nat
  | [] => none
  | '\'' :: _ => some 1
  | '\\' :: _ :: cs => (singleLength? cs).map (· + 2)
  | _ :: cs => (singleLength? cs).map (· + 1)

/-- Whether code begins inside a string. -/
def startsEmbedding : Text → Bool
  | '$' :: c :: _ => Name.isStart c || c == '\x7b'
  | '\x7b' :: '$' :: _ => true
  | _ => false

/-- What a double quote opens. -/
inductive DoubleQuoted
  /-- A plain string with this many characters behind the first quote. -/
  | plain (length : Nat)
  | interpolated
  | unclosed
  deriving DecidableEq, Repr

/-- One or two characters more in front of the closing quote. -/
def DoubleQuoted.grow (n : Nat) : DoubleQuoted → DoubleQuoted
  | .plain length => .plain (length + n)
  | other => other

/-- Look for the closing double quote. -/
def doubleQuoted : Text → DoubleQuoted
  | [] => .unclosed
  | '"' :: _ => .plain 1
  | '\\' :: _ :: cs => (doubleQuoted cs).grow 2
  | c :: cs => if startsEmbedding (c :: cs) then .interpolated else (doubleQuoted cs).grow 1

/-- The end of a labelled string at the start of a line: how many characters the blanks and the
label take. -/
def labelEnd? (label t : Text) : Option Nat :=
  let blanks := runLength (fun c => c == ' ' || c == '\t') t
  match Text.stripStart? label (t.drop blanks) with
  | none => none
  | some rest =>
      match rest with
      | [] => some (blanks + label.length)
      | c :: _ => if Name.isRest c then none else some (blanks + label.length)

/-- How many characters of a string in quotes lie before its end or embedded code. -/
def quotedPart (quote : Char) : Text → Nat
  | [] => 0
  | '\\' :: _ :: rest => quotedPart quote rest + 2
  | c :: cs => if c == quote || startsEmbedding (c :: cs) then 0 else quotedPart quote cs + 1

/-- How many characters of a labelled string lie before its last line or embedded code.  A backslash
escapes the character behind it. -/
def labelledPart (label : Text) (interpolated : Bool) : (escaped : Bool) → Text → Nat
  | _, [] => 0
  | escaped, c :: cs =>
      if interpolated && !escaped && startsEmbedding (c :: cs) then 0
      else if c == '\n' && (labelEnd? label cs).isSome then 1
      else labelledPart label interpolated (!escaped && c == '\\') cs + 1

/-- How many characters of a string with interpolation lie before its end or embedded code. -/
def partLength : Closing → Text → Nat
  | .quote q, t => quotedPart q t
  | .label l interpolated _, t => labelledPart l interpolated false t

/-- How many characters a number takes behind its first one, and whether it is a float. -/
def numberLength (c : Char) (cs : Text) : Nat × Bool :=
  let digits := fun (t : Text) => runLength (fun d => d.isDigit || d == '_') t
  let hex := fun (t : Text) => runLength (fun d => d.isAlphanum || d == '_') t
  let exponent := fun (t : Text) =>
    match t with
    | e :: d :: rest =>
        if (e == 'e' || e == 'E') && d.isDigit then 2 + digits rest
        else
          match rest with
          | d' :: rest' =>
              if (e == 'e' || e == 'E') && (d == '+' || d == '-') && d'.isDigit then
                3 + digits rest'
              else 0
          | [] => 0
    | _ => 0
  match c, cs with
  | '0', x :: rest =>
      if ['x', 'X', 'b', 'B', 'o', 'O'].contains x then (1 + hex rest, false)
      else decimal digits exponent cs
  | '.', _ => let n := digits cs; let e := exponent (cs.drop n); (n + e, true)
  | _, _ => decimal digits exponent cs
where
  /-- A decimal number behind its first digit. -/
  decimal (digits exponent : Text → Nat) (cs : Text) : Nat × Bool :=
    let n := digits cs
    let rest := cs.drop n
    match rest with
    | '.' :: d :: _ =>
        if d == '.' || d == '=' then (n, false)
        else
          let f := digits (rest.drop 1)
          let e := exponent (rest.drop (1 + f))
          (n + 1 + f + e, true)
    | '.' :: [] => (n + 1, true)
    | _ => let e := exponent rest; (n + e, 0 < e)

/-- A cast at the front: its type, and the number of characters behind the bracket. -/
def cast? (cs : Text) : Option (String × Nat) :=
  let blank := fun (c : Char) => c == ' ' || c == '\t'
  let before := runLength blank cs
  let word := (cs.drop before).takeWhile Name.isRest
  let rest := cs.drop (before + word.length)
  let after := runLength blank rest
  let type := String.ofList (Text.fold word)
  if castTypes.contains type && (rest.drop after).head? == some ')' then
    some (type, before + word.length + after + 1)
  else none

/-- The start of a labelled string: the label, whether it interpolates, and the number of
characters behind the first one up to and with the line feed. -/
def labelStart? (t : Text) : Option (Text × Bool × Nat) :=
  match Text.stripStart? ['<', '<', '<'] t with
  | none => none
  | some rest =>
      let blanks := runLength (fun c => c == ' ' || c == '\t') rest
      let rest := rest.drop blanks
      let quote := match rest with
        | q :: _ => if q == '\'' || q == '"' then some q else none
        | [] => none
      let afterQuote := if quote.isSome then rest.drop 1 else rest
      let label := afterQuote.takeWhile Name.isRest
      let behind := afterQuote.drop label.length
      let marksOk := match quote with
        | none => true
        | some q => behind.head? == some q
      let tail := if quote.isSome then behind.drop 1 else behind
      let quotes := if quote.isSome then 2 else 0
      let newline := match tail with
        | '\r' :: '\n' :: _ => 2
        | '\n' :: _ => 1
        | _ => 0
      if (label.head?.map Name.isStart).getD false && marksOk && 0 < newline then
        some (label, quote != some '\'', 2 + blanks + label.length + quotes + newline)
      else none

/-! ### Steps -/

/-- A token of the given length behind its first character. -/
def Step.token (kind : TokenKind) (extra : Nat) (frames : List Frame) : Step :=
  ⟨.token kind, extra, frames⟩

/-- The mark at the front of a text. -/
def markStep (frames : List Frame) (c : Char) (cs : Text) : Step :=
  match marks.find? fun m => Text.startsWith m.1 (c :: cs) with
  | some (m, text, _) => .token (.mark text) (m.length - 1) frames
  | none => ⟨.fault (.unknownCharacter c), 0, frames⟩

/-- A word at the front of a text. -/
def wordStep (frames : List Frame) (c : Char) (cs : Text) : Step :=
  let n := nameLength cs
  let text := c :: cs.take n
  if c == '\\' then .token .rooted n frames
  else if text.contains '\\' then .token .qualified n frames
  else
    let folded := String.ofList (Text.fold text)
    .token (if reservedWords.contains folded then .reserved folded else .word) n frames

/-- The opening tag at the front of a text: its kind and its length behind the first character. -/
def tag? (t : Text) : Option (TokenKind × Nat) :=
  if Text.startsWith "<?=".toList t then some (.echoTag, 2)
  else if Text.startsWith "<?php".toList (Text.fold (t.take 5)) then some (.openTag, 4)
  else if Text.startsWith "<?".toList t then some (.openTag, 1)
  else none

/-- How many characters lie before the next opening tag. -/
def htmlLength : Text → Nat
  | [] => 0
  | c :: cs => if (tag? (c :: cs)).isSome then 0 else htmlLength cs + 1

/-- The lexeme outside of code. -/
def htmlStep (frames : List Frame) (c : Char) (cs : Text) : Step :=
  match tag? (c :: cs) with
  | some (kind, extra) => .token kind extra (.code :: frames)
  | none => .token .html (htmlLength cs) (.html :: frames)

/-- What a slash begins, if it is a comment. -/
def slashStep (frames : List Frame) (cs : Text) : Step :=
  match cs with
  | '/' :: rest => ⟨.trivia .lineComment, 1 + lineLength rest, frames⟩
  | '*' :: rest =>
      match commentLength? rest with
      | none => ⟨.fault .unclosedComment, cs.length, frames⟩
      | some n =>
          let doc := rest.head? == some '*' && 2 < n
          ⟨.trivia (if doc then .docComment else .blockComment), 1 + n, frames⟩
  | _ => markStep frames '/' cs

/-- What a double quote begins. -/
def doubleStep (frames : List Frame) (cs : Text) : Step :=
  match doubleQuoted cs with
  | .plain n => .token .string n frames
  | .interpolated => .token .templateOpen 0 (.template (.quote '"') :: frames)
  | .unclosed => ⟨.fault (.unclosedString true), cs.length, frames⟩

/-- The character that encloses a shell command. -/
def backQuote : Char := Char.ofNat 96

/-- What a brace does to the frames: inside a string the matching one ends the code. -/
def braceStep (opening : Bool) (frames : List Frame) : Step :=
  match opening, frames with
  | true, .embedded n :: rest => .token (.mark "\x7b") 0 (.embedded (n + 1) :: rest)
  | true, frames => .token (.mark "\x7b") 0 frames
  | false, .embedded 0 :: rest => .token .embedClose 0 rest
  | false, .embedded (n + 1) :: rest => .token (.mark "\x7d") 0 (.embedded n :: rest)
  | false, frames => .token (.mark "\x7d") 0 frames

/-- The lexeme inside of code. -/
def codeStep (frames : List Frame) (c : Char) (cs : Text) : Step :=
  if Text.isAsciiBlank c then ⟨.trivia .blank, runLength Text.isAsciiBlank cs, frames⟩
  else if Name.isStart c then wordStep frames c cs
  else if c.isDigit then
    let (n, isFloat) := numberLength c cs
    .token (if isFloat then .float else .integer) n frames
  else
    match c, cs with
    | '$', d :: _ =>
        if Name.isStart d then .token .var (runLength Name.isRest cs) frames
        else markStep frames c cs
    | '\\', d :: _ => if Name.isStart d then wordStep frames c cs else markStep frames c cs
    | '.', d :: _ =>
        if d.isDigit then .token .float (numberLength c cs).1 frames else markStep frames c cs
    | '/', _ => slashStep frames cs
    | '#', d :: _ =>
        if d == '[' then markStep frames c cs
        else ⟨.trivia .hashComment, lineLength cs, frames⟩
    | '#', [] => ⟨.trivia .hashComment, 0, frames⟩
    | '?', '>' :: _ => .token .closeTag 1 [.html]
    | '\'', _ =>
        match singleLength? cs with
        | some n => .token .string n frames
        | none => ⟨.fault (.unclosedString false), cs.length, frames⟩
    | '"', _ => doubleStep frames cs
    | '\x7b', _ => braceStep true frames
    | '\x7d', _ => braceStep false frames
    | '(', _ =>
        match cast? cs with
        | some (type, n) => .token (.cast type) n frames
        | none => markStep frames c cs
    | '<', _ =>
        match labelStart? (c :: cs) with
        | some (label, interpolated, n) =>
            .token .templateOpen n (.template (.label label interpolated true) :: frames)
        | none => markStep frames c cs
    | _, _ =>
        if c == backQuote then .token .templateOpen 0 (.template (.quote backQuote) :: frames)
        else markStep frames c cs

/-- What the reader is in behind a variable inside a string. -/
def afterVariable (frames : List Frame) : Text → List Frame
  | '[' :: _ => .subscript :: frames
  | '-' :: '>' :: c :: _ => if Name.isStart c then .access :: frames else frames
  | '?' :: '-' :: '>' :: c :: _ => if Name.isStart c then .access :: frames else frames
  | _ => frames

/-- A string with interpolation, no longer at the start of a line. -/
def Closing.inLine : Closing → Closing
  | .quote c => .quote c
  | .label l i _ => .label l i false

/-- The lexeme inside a string with interpolation. -/
def templateStep (closing : Closing) (frames : List Frame) (c : Char) (cs : Text) : Step :=
  let inside := .template closing.inLine :: frames
  let plainPart :=
    let n := partLength closing (c :: cs)
    let closing := match closing with
      | .quote q => .quote q
      | .label l i _ => .label l i (((c :: cs).take n).getLast? == some '\n')
    Step.token .templatePart (n - 1) (.template closing :: frames)
  let embedding :=
    match c, cs with
    | '$', '\x7b' :: _ => Step.token .embedOpen 1 (.embedded 0 :: inside)
    | '$', _ =>
        let n := runLength Name.isRest cs
        .token .var n (afterVariable inside (cs.drop n))
    | _, _ => .token .embedOpen 0 (.embedded 0 :: inside)
  match closing with
  | .quote q =>
      if c == q then .token .templateClose 0 frames
      else if startsEmbedding (c :: cs) then embedding
      else plainPart
  | .label l interpolated lineStart =>
      match if lineStart then labelEnd? l (c :: cs) else none with
      | some n => .token .templateClose (n - 1) frames
      | none => if interpolated && startsEmbedding (c :: cs) then embedding else plainPart

/-- The lexeme inside an index behind a variable in a string. -/
def subscriptStep (frames : List Frame) (c : Char) (cs : Text) : Step :=
  let inside := .subscript :: frames
  if c == ']' then .token (.mark "]") 0 frames
  else if c.isDigit then .token .integer (runLength Char.isDigit cs) inside
  else if Name.isStart c then .token .word (runLength Name.isRest cs) inside
  else if c == '$' then .token .var (runLength Name.isRest cs) inside
  else markStep inside c cs

/-- The lexeme of an arrow or a name behind a variable in a string. -/
def accessStep (frames : List Frame) (c : Char) (cs : Text) : Step :=
  if Name.isStart c then .token .word (runLength Name.isRest cs) frames
  else markStep (.access :: frames) c cs

/-- The lexeme at the front of a text. -/
def step (frames : List Frame) (c : Char) (cs : Text) : Step :=
  match frames with
  | [] => htmlStep [] c cs
  | .html :: rest => htmlStep rest c cs
  | .code :: _ => codeStep frames c cs
  | .embedded _ :: _ => codeStep frames c cs
  | .template closing :: rest => templateStep closing rest c cs
  | .subscript :: rest => subscriptStep rest c cs
  | .access :: rest => accessStep rest c cs

/-! ### All lexemes -/

/-- The lexemes of a text that stands at offset `pos`.  Nothing follows a fault. -/
def scan (frames : List Frame) (pos : Nat) (t : Text) : List Lexeme :=
  match t with
  | [] => []
  | c :: cs =>
      let s := step frames c cs
      let text := c :: cs.take s.extra
      let span : Span := ⟨pos, pos + Text.byteLength text⟩
      match s.kind with
      | .fault f => [⟨.fault f, span, text⟩]
      | kind => ⟨kind, span, text⟩ :: scan s.frames span.stop (cs.drop s.extra)
termination_by t.length
decreasing_by
  simp only [List.length_drop, List.length_cons]
  omega

/-- What reading a text yields. -/
structure Lexed where
  tokens : List Token
  trivia : List Trivia
  fault : Option Diagnostic
  deriving Repr

/-- The token of a lexeme, unless it is trivia or a fault. -/
def Lexeme.token? (l : Lexeme) : Option Token :=
  match l.kind with
  | .token kind => some ⟨kind, l.span, String.ofList l.text⟩
  | _ => none

/-- The comment or the blanks of a lexeme. -/
def Lexeme.trivia? (l : Lexeme) : Option Trivia :=
  match l.kind with
  | .trivia kind => some ⟨kind, l.span, l.text⟩
  | _ => none

/-- A number below 256 as two hexadecimal digits. -/
def hexByte (n : Nat) : String :=
  let digit := fun (d : Nat) => Char.ofNat (if d < 10 then 48 + d else 55 + d)
  String.ofList [digit (n / 16 % 16), digit (n % 16)]

/-- The complaint about the end of reading.  An unclosed comment is missed at the end of the
text. -/
def LexFault.diagnostic (span : Span) : LexFault → Diagnostic
  | .unclosedString false => ⟨"Unclosed single-quoted string", span⟩
  | .unclosedString true => ⟨"Unclosed double-quoted string", span⟩
  | .unclosedComment => ⟨"Unexpected end of file", ⟨span.stop, span.stop + 1⟩⟩
  | .unknownCharacter c =>
      ⟨"Unrecognised token `" ++ String.ofList [c] ++ "` (0x" ++ hexByte c.toNat ++ ")",
        ⟨span.start, span.start + 1⟩⟩

/-- The complaint of a lexeme at which reading ends. -/
def Lexeme.fault? (l : Lexeme) : Option Diagnostic :=
  match l.kind with
  | .fault f => some (f.diagnostic l.span)
  | _ => none

/-- Read a text into tokens. -/
def lex (t : Text) : Lexed :=
  let lexemes := scan [.html] 0 t
  { tokens := lexemes.filterMap Lexeme.token?
    trivia := lexemes.filterMap Lexeme.trivia?
    fault := lexemes.findSome? Lexeme.fault? }

end PhpAtlas
