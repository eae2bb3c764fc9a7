import PhpAtlas.Source.Trivia

/-!
# Tokens

A source file is a list of tokens and of the trivia between them.  Words are compared with the
reserved words of the language without regard to case and keep their spelling.

## Main definitions

* `TokenKind`, `Token` — a token with its range and text.
* `TokenKind.label` — how a diagnostic names a token.
* `Diagnostic` — a complaint about a range of the file.
* `reservedWords`, `marks`, `castTypes` — the vocabulary.
-/

namespace PhpAtlas

/-- What a token is. -/
inductive TokenKind
  /-- Text outside of code. -/
  | html
  | openTag
  | echoTag
  | closeTag
  | var
  /-- A word that is not reserved. -/
  | word
  /-- A reserved word, in lower case. -/
  | reserved (word : String)
  /-- A name with backslashes inside. -/
  | qualified
  /-- A name with a leading backslash. -/
  | rooted
  | integer
  | float
  /-- A string without interpolation, with its quotes. -/
  | string
  | templateOpen
  | templatePart
  | templateClose
  /-- The start of code inside a string. -/
  | embedOpen
  | embedClose
  | cast (type : String)
  | mark (text : String)
  deriving DecidableEq, Repr

/-- A token of a source file. -/
structure Token where
  kind : TokenKind
  span : Span
  text : String
  deriving Repr

/-- A complaint about a range of the file. -/
structure Diagnostic where
  message : String
  span : Span
  deriving DecidableEq, Repr

/-! ### Vocabulary -/

/-- The words that are no names where an expression or a statement begins. -/
def reservedWords : List String :=
  ["abstract", "and", "array", "as", "break", "callable", "case", "catch", "class", "clone",
    "const", "continue", "declare", "default", "die", "do", "echo", "else", "elseif", "empty",
    "enddeclare", "endfor", "endforeach", "endif", "endswitch", "endwhile", "eval", "exit",
    "extends", "final", "finally", "fn", "for", "foreach", "function", "global", "goto", "if",
    "implements", "include", "include_once", "instanceof", "insteadof", "interface", "isset",
    "list", "match", "namespace", "new", "or", "print", "private", "protected", "public",
    "require", "require_once", "return", "static", "switch", "throw", "trait", "try", "unset",
    "use", "var", "while", "xor", "yield"]

/-- The types that a cast may name. -/
def castTypes : List String :=
  ["int", "integer", "bool", "boolean", "float", "double", "real", "string", "array", "object",
    "unset", "binary"]

/-- The punctuation, longest first, with the name that diagnostics use. -/
def marks : List (Text × String × String) :=
  [("<<=", "LeftShiftEqual"), ("**=", "AsteriskAsteriskEqual"),
    ("??=", "QuestionQuestionEqual"), ("...", "DotDotDot"),
    ("<=>", "LessThanEqualGreaterThan"), ("===", "EqualEqualEqual"), ("!==", "BangEqualEqual"),
    (">>=", "RightShiftEqual"), ("?->", "QuestionMinusGreaterThan"),
    ("++", "PlusPlus"), ("--", "MinusMinus"), ("->", "MinusGreaterThan"),
    ("=>", "EqualGreaterThan"), ("::", "ColonColon"), ("==", "EqualEqual"), ("!=", "BangEqual"),
    ("<>", "LessThanGreaterThan"), ("<=", "LessThanEqual"), (">=", "GreaterThanEqual"),
    ("&&", "AmpersandAmpersand"), ("||", "PipePipe"), ("??", "QuestionQuestion"),
    ("**", "AsteriskAsterisk"), ("<<", "LeftShift"), (">>", "RightShift"), ("+=", "PlusEqual"),
    ("-=", "MinusEqual"), ("*=", "AsteriskEqual"), ("/=", "SlashEqual"), (".=", "DotEqual"),
    ("%=", "PercentEqual"), ("&=", "AmpersandEqual"), ("|=", "PipeEqual"), ("^=", "CaretEqual"),
    ("|>", "PipeGreaterThan"), ("#[", "HashLeftBracket"),
    (";", "Semicolon"), (",", "Comma"), (":", "Colon"), ("?", "Question"),
    ("(", "LeftParenthesis"), (")", "RightParenthesis"), ("[", "LeftBracket"),
    ("]", "RightBracket"), ("\x7b", "LeftBrace"), ("\x7d", "RightBrace"), ("=", "Equal"),
    ("+", "Plus"), ("-", "Minus"), ("*", "Asterisk"), ("/", "Slash"), (".", "Dot"),
    ("%", "Percent"), ("&", "Ampersand"), ("|", "Pipe"), ("^", "Caret"), ("!", "Bang"),
    ("~", "Tilde"), ("<", "LessThan"), (">", "GreaterThan"), ("@", "At"), ("$", "Dollar"),
    ("\\", "NamespaceSeparator")].map fun (m, label) => (m.toList, m, label)

/-- A reserved word as diagnostics name it: each part begins with a capital letter. -/
def wordLabel (word : String) : String :=
  String.ofList
    ((Text.splitAll (· == '_') word.toList).flatMap fun part =>
      match part with
      | [] => []
      | c :: cs => c.toUpper :: cs)

/-- How a diagnostic names a kind of token. -/
def TokenKind.label : TokenKind → String
  | .html => "InlineText"
  | .openTag => "OpenTag"
  | .echoTag => "EchoTag"
  | .closeTag => "CloseTag"
  | .var => "Variable"
  | .word => "Identifier"
  | .reserved w => wordLabel w
  | .qualified => "QualifiedIdentifier"
  | .rooted => "FullyQualifiedIdentifier"
  | .integer => "LiteralInteger"
  | .float => "LiteralFloat"
  | .string => "LiteralString"
  | .templateOpen | .templateClose => "DoubleQuote"
  | .templatePart => "StringPart"
  | .embedOpen => "LeftBrace"
  | .embedClose => "RightBrace"
  | .cast t => wordLabel t ++ "Cast"
  | .mark m => ((marks.find? (·.2.1 == m)).map (·.2.2)).getD m

end PhpAtlas
