import PhpAtlas.Source.Token
import PhpAtlas.Source.Tree

/-!
# Reading a token list

A reader consumes tokens from the front of a list.  Failing keeps what was consumed and noted
before, because a list of statements goes on behind the place of a failure.  The readers of
expressions and of statements need each other; they get each other as a `Grammar`.

## Main definitions

* `Parse.State`, `Parse.Failure`, `Reader` — the state and the failures of reading.
* `Reader.next`, `Reader.expect`, `Reader.terminator` — single tokens.
* `Reader.repeatFrom` — a loop that ends with the tokens.
* `Reader.commaList` — items separated by commas.
* `Grammar` — the readers that the others are built from.
-/

namespace PhpAtlas

namespace Parse

/-- A complaint, and whether the end of the file caused it. -/
structure Failure where
  diagnostic : Diagnostic
  atEnd : Bool
  deriving Repr

/-- The tokens to read, the end of the last one read, and the complaints so far. -/
structure State where
  tokens : List Token
  last : Nat
  failures : List Failure
  deriving Repr

end Parse

/-- A reader of tokens. -/
abbrev Reader := EStateM Parse.Failure Parse.State

namespace Reader

/-! ### Looking -/

/-- The token to be read next. -/
def peek : Reader (Option Token) := do return (← get).tokens.head?

/-- The kind of the token `n` places ahead. -/
def kindAt (n : Nat) : Reader (Option TokenKind) := do
  return (← get).tokens[n]?.map (·.kind)

/-- Whether the token `n` places ahead is of a kind. -/
def isAt (n : Nat) (kind : TokenKind) : Reader Bool := do return (← kindAt n) == some kind

/-- Whether the next token is a mark. -/
def atMark (text : String) : Reader Bool := isAt 0 (.mark text)

/-- Whether the next token is a reserved word. -/
def atReserved (word : String) : Reader Bool := isAt 0 (.reserved word)

/-- Whether all tokens are read. -/
def atEnd : Reader Bool := do return (← get).tokens.isEmpty

/-- The offset at which the next token starts, or the end of the last one. -/
def offset : Reader Nat := do
  match ← peek with
  | some t => return t.span.start
  | none => return (← get).last

/-- The end of the last token read. -/
def lastStop : Reader Nat := do return (← get).last

/-! ### Failing -/

/-- The complaint that the file has ended. -/
def endFailure : Reader Parse.Failure := do
  let last ← lastStop
  return ⟨⟨"Unexpected end of file", ⟨last, last⟩⟩, true⟩

/-- The complaint that one of several kinds of token is missing. -/
def missing (labels : List String) : Reader Parse.Failure := do
  let list := String.intercalate ", " (labels.map fun l => "`" ++ l ++ "`")
  match ← peek with
  | some t =>
      return ⟨⟨"Expected one of " ++ list ++ ", found `" ++ t.kind.label ++ "`", t.span⟩, false⟩
  | none =>
      let last ← lastStop
      return ⟨⟨"Expected one of " ++ list ++ " before end of file", ⟨last, last⟩⟩, true⟩

/-- Note a complaint and go on. -/
def note (f : Parse.Failure) : Reader Unit :=
  modify fun s => { s with failures := s.failures ++ [f] }

/-! ### Consuming -/

/-- Read one token. -/
def next : Reader Token := do
  match (← get).tokens with
  | t :: ts =>
      modify fun s => { s with tokens := ts, last := t.span.stop }
      return t
  | [] => throw (← endFailure)

/-- Read a token if it is of a kind. -/
def eat (kind : TokenKind) : Reader (Option Token) := do
  if ← isAt 0 kind then return some (← next) else return none

/-- Read a mark if it is next, and say whether it was. -/
def eatMark (text : String) : Reader Bool := do return (← eat (.mark text)).isSome

/-- Read a reserved word if it is next, and say whether it was. -/
def eatReserved (word : String) : Reader Bool := do return (← eat (.reserved word)).isSome

/-- Read a token that must be of a kind. -/
def expect (kind : TokenKind) : Reader Token := do
  match ← eat kind with
  | some t => return t
  | none => throw (← missing [kind.label])

/-- Read a mark that must be next. -/
def expectMark (text : String) : Reader Token := expect (.mark text)

/-- Read a mark, or note that it is missing and go on. -/
def wantMark (text : String) : Reader Unit := do
  unless ← eatMark text do note (← missing [(TokenKind.mark text).label])

/-- Read the end of a statement: a semicolon, or a closing tag together with the opening tag that
directly follows it.  The result is the offset behind it. -/
def terminator : Reader Nat := do
  if ← eatMark ";" then lastStop
  else
    match ← eat .closeTag with
    | none => throw (← missing ["Semicolon", "CloseTag"])
    | some close =>
        match ← peek with
        | some t =>
            if t.kind == .openTag && t.span.start == close.span.stop then
              let _ ← next
            lastStop
        | none => lastStop

/-! ### Names -/

/-- Whether a token can name a member: reserved words can. -/
def isMemberName : TokenKind → Bool
  | .word | .reserved _ => true
  | _ => false

/-- Whether a token is a name, possibly qualified. -/
def isName : TokenKind → Bool
  | .word | .qualified | .rooted => true
  | _ => false

/-- A token as a name with its place. -/
def nameRef (t : Token) : NameRef := ⟨t.text, t.span⟩

/-- Read the name of a declaration.  A token that is no name is consumed. -/
def declaredName : Reader NameRef := do
  if ← isAt 0 .word then return nameRef (← next)
  else
    let f ← missing ["Identifier"]
    let _ ← next
    throw f

/-- Read the name of a member. -/
def memberName : Reader NameRef := do
  match ← kindAt 0 with
  | some kind =>
      if isMemberName kind then return nameRef (← next) else throw (← missing ["Identifier"])
  | none => throw (← missing ["Identifier"])

/-- Read a name, possibly qualified. -/
def anyName : Reader NameRef := do
  match ← kindAt 0 with
  | some kind => if isName kind then return nameRef (← next) else throw (← missing ["Identifier"])
  | none => throw (← missing ["Identifier"])

/-- The lower-case text of the next token if it is a word that is not reserved. -/
def wordAt (n : Nat) : Reader (Option String) := do
  match (← get).tokens[n]? with
  | some t => return if t.kind == .word then some (fold t.text) else none
  | none => return none

/-! ### Repeating -/

/-- Run a step until it yields a result, at most `n` times. -/
def iterate {α β : Type} (step : α → Reader (α ⊕ β)) : Nat → α → Reader β
  | 0, _ => do throw (← endFailure)
  | n + 1, a => do
      match ← step a with
      | .inl a => iterate step n a
      | .inr b => return b

/-- Run a step until it yields a result.  Each step but the last two reads a token, so the number
of tokens bounds the steps. -/
def repeatFrom {α β : Type} (a : α) (step : α → Reader (α ⊕ β)) : Reader β := do
  iterate step ((← get).tokens.length + 2) a

/-- Items separated by commas, up to a token for which `stop` holds or the end.  A comma may follow
the last item. -/
def commaList {α : Type} (stop : TokenKind → Bool) (item : Reader α) : Reader (List α) :=
  repeatFrom [] fun (items : List α) => do
    match ← kindAt 0 with
    | none => return .inr items
    | some kind =>
        if stop kind then return .inr items
        else
          let a ← item
          if ← eatMark "," then return .inl (items ++ [a]) else return .inr (items ++ [a])

/-- Items separated by commas, at least one. -/
def commaList1 {α : Type} (item : Reader α) : Reader (List α) :=
  repeatFrom [] fun (items : List α) => do
    let a ← item
    if ← eatMark "," then return .inl (items ++ [a]) else return .inr (items ++ [a])

/-- Skip attributes: everything from `#[` to the bracket that closes it. -/
def skipAttributes : Reader Unit :=
  repeatFrom 0 fun (depth : Nat) => do
    match ← kindAt 0 with
    | some (.mark "#[") => let _ ← next; return .inl (depth + 1)
    | some kind =>
        if depth == 0 then return .inr ()
        else
          let _ ← next
          match kind with
          | .mark "[" => return .inl (depth + 1)
          | .mark "]" => return .inl (depth - 1)
          | _ => return .inl depth
    | none => return .inr ()

end Reader

/-- The readers that the others are built from. -/
structure Grammar where
  /-- An expression whose operators all bind tighter than a level. -/
  expr : Nat → Reader Expr
  stmt : Reader Stmt

end PhpAtlas
