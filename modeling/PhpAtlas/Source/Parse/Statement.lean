import PhpAtlas.Source.Parse.Expression

/-!
# Reading statements

Each statement is recognised by its first tokens; what is no other statement is an expression with
a terminator.  The readers of expressions and statements are tied together by a recursion on a
number that bounds the depth of nesting.

## Main definitions

* `Reader.statement` — one statement.
* `Grammar.ofDepth` — the grammar for nesting up to a depth.
* `Parsed`, `parse` — a whole file.
-/

namespace PhpAtlas
namespace Reader

/-! ### Bodies -/

/-- An expression in brackets. -/
def condition (g : Grammar) : Reader Expr := do
  let _ ← expectMark "("
  let e ← g.expr Level.lowest
  let _ ← expectMark ")"
  return e

/-- Statements from a colon to the end word and its terminator. -/
def colonBody (g : Grammar) (endWord : String) : Reader (Body Stmt) := do
  let colon ← expectMark ":"
  let ss ← statements g (· == .reserved endWord)
  let _ ← expect (.reserved endWord)
  return ⟨⟨colon.span.start, ← terminator⟩, ss⟩

/-- The body of a loop: one statement, or the form with a colon. -/
def loopBody (g : Grammar) (endWord : String) : Reader (Body Stmt) := do
  if ← atMark ":" then colonBody g endWord
  else
    let s ← g.stmt
    return ⟨s.span, [s]⟩

/-! ### Conditionals -/

/-- The words that end a branch of the form with colons. -/
def endsBranch (kind : TokenKind) : Bool :=
  kind == .reserved "elseif" || kind == .reserved "else" || kind == .reserved "endif"

/-- A branch of the form with colons: it runs from its colon to the word behind it. -/
def colonBranch (g : Grammar) (c : Option Expr) : Reader (Branch Expr Stmt) := do
  let colon ← expectMark ":"
  let ss ← statements g endsBranch
  return ⟨c, ⟨⟨colon.span.start, ← offset⟩, ss⟩⟩

/-- A branch that is one statement. -/
def plainBranch (g : Grammar) (c : Option Expr) : Reader (Branch Expr Stmt) := do
  let s ← g.stmt
  return ⟨c, ⟨s.span, [s]⟩⟩

/-- The branches from the first one on; the others are read behind their conditions. -/
def branchesFrom (g : Grammar) (branch : Option Expr → Reader (Branch Expr Stmt))
    (first : Branch Expr Stmt) : Reader (List (Branch Expr Stmt)) :=
  repeatFrom [first] fun (bs : List (Branch Expr Stmt)) => do
    if ← eatReserved "elseif" then
      let c ← condition g
      return .inl (bs ++ [← branch (some c)])
    else if ← eatReserved "else" then return .inr (bs ++ [← branch none])
    else return .inr bs

/-- A conditional behind the word `if`. -/
def ifStatement (g : Grammar) (start : Nat) : Reader Stmt := do
  let c ← condition g
  if ← atMark ":" then
    let branches ← branchesFrom g (colonBranch g) (← colonBranch g (some c))
    let _ ← expect (.reserved "endif")
    let _ ← terminator
    return .cond ⟨start, ← lastStop⟩ branches
  else
    let branches ← branchesFrom g (plainBranch g) (← plainBranch g (some c))
    return .cond ⟨start, ← lastStop⟩ branches

/-! ### Loops and cases -/

/-- Three lists of expressions separated by semicolons. -/
def forStatement (g : Grammar) (start : Nat) : Reader Stmt := do
  let _ ← expectMark "("
  let list := fun closing => commaList (· == .mark closing) (g.expr Level.lowest)
  let initial ← list ";"
  let _ ← expectMark ";"
  let conditions ← list ";"
  let _ ← expectMark ";"
  let steps ← list ")"
  let _ ← expectMark ")"
  let body ← loopBody g "endfor"
  return .forLoop ⟨start, ← lastStop⟩ initial conditions steps body

/-- What a loop over values assigns to: the key, if there is one, and the value. -/
def eachTarget (g : Grammar) : Reader (Option Expr × Expr) := do
  let first ← g.expr Level.lowest
  if ← eatMark "=>" then return (some first, ← g.expr Level.lowest) else return (none, first)

/-- A loop over the values of an expression, optionally with keys. -/
def foreachStatement (g : Grammar) (start : Nat) : Reader Stmt := do
  let _ ← expectMark "("
  let subject ← g.expr Level.lowest
  let _ ← expect (.reserved "as")
  let (key, target) ← eachTarget g
  let _ ← expectMark ")"
  let body ← loopBody g "endforeach"
  return .eachLoop ⟨start, ← lastStop⟩ subject key target body

/-- Whether a token ends the statements of a case. -/
def endsCase (kind : TokenKind) : Bool :=
  kind == .reserved "case" || kind == .reserved "default" || kind == .reserved "endswitch" ||
    kind == .mark "\x7d"

/-- The value of a case, or the word of the default case. -/
def caseCondition (g : Grammar) : Reader (Option Expr) := do
  if ← eatReserved "default" then return none
  else
    let _ ← expect (.reserved "case")
    some <$> g.expr Level.lowest

/-- What stands behind the value of a case: a colon or a semicolon. -/
def caseSeparator : Reader Token := do
  match ← eat (.mark ":") with
  | some t => return t
  | none => expectMark ";"

/-- A case.  It runs to the end of its last statement, or to its separator. -/
def switchCase (g : Grammar) : Reader (Branch Expr Stmt) := do
  let start ← offset
  let c ← caseCondition g
  let _ ← caseSeparator
  let ss ← statements g endsCase
  return ⟨c, ⟨⟨start, ← lastStop⟩, ss⟩⟩

/-- Whether the next token ends a statement. -/
def atTerminator : Reader Bool := do return (← atMark ";") || (← isAt 0 .closeTag)

/-- The cases up to the end of a switch.  A terminator may stand in front of the first. -/
def switchCases (g : Grammar) : Reader (List (Branch Expr Stmt)) := do
  if ← atTerminator then
    let _ ← terminator
  repeatFrom [] fun (cs : List (Branch Expr Stmt)) => do
    if (← atReserved "case") || (← atReserved "default") then
      return .inl (cs ++ [← switchCase g])
    else return .inr cs

/-- The cases of a switch, in braces or up to `endswitch`. -/
def switchBody (g : Grammar) : Reader (List (Branch Expr Stmt)) := do
  if ← eatMark ":" then
    let cs ← switchCases g
    let _ ← expect (.reserved "endswitch")
    let _ ← terminator
    return cs
  else
    let _ ← expectMark "\x7b"
    let cs ← switchCases g
    let _ ← expectMark "\x7d"
    return cs

/-- A `switch` behind its word. -/
def switchStatement (g : Grammar) (start : Nat) : Reader Stmt := do
  let subject ← condition g
  let cases ← switchBody g
  return .switch ⟨start, ← lastStop⟩ subject cases

/-- A `catch` clause behind its word. -/
def catchClause (g : Grammar) (start : Nat) : Reader (Catch Stmt) := do
  let _ ← expectMark "("
  let h ← hint
  let binding ← eat .var
  let _ ← expectMark ")"
  let body ← block g
  return ⟨⟨start, body.span.stop⟩, h, binding.map (·.text), body⟩

/-- The `catch` clauses that follow. -/
def catchClauses (g : Grammar) : Reader (List (Catch Stmt)) :=
  repeatFrom [] fun (cs : List (Catch Stmt)) => do
    match ← eat (.reserved "catch") with
    | some t => return .inl (cs ++ [← catchClause g t.span.start])
    | none => return .inr cs

/-- A `try` behind its word, with its `catch` clauses and its `finally`. -/
def tryStatement (g : Grammar) (start : Nat) : Reader Stmt := do
  let body ← block g
  let catches ← catchClauses g
  match ← eat (.reserved "finally") with
  | some t =>
      let ensure ← block g
      return .tryCatch ⟨start, ← lastStop⟩ body catches t.span.start (some ensure)
  | none => return .tryCatch ⟨start, ← lastStop⟩ body catches 0 none

/-! ### Namespaces and imports -/

/-- The kind of symbol that an import names. -/
def importKind : Reader (Option SymbolKind) := do
  if ← eatReserved "function" then return some .function
  else if ← eatReserved "const" then return some .constant
  else return none

/-- The new name behind the word `as`. -/
def importAlias : Reader (Option String) := do
  if ← eatReserved "as" then return some (← declaredName).text else return none

/-- One name of an import. -/
def useItem (kind : Option SymbolKind) (group : Option String) : Reader UseItem := do
  let own ← if group.isSome && kind.isNone then importKind else pure none
  let name ← anyName
  let newName ← importAlias
  return ⟨(kind.or own).getD .classlike, group, name.text, newName⟩

/-- An import behind the word `use`. -/
def useStatement (start : Nat) : Reader Stmt := do
  let kind ← importKind
  let grouped := (← isAt 1 (.mark "\\")) && (← isAt 2 (.mark "\x7b"))
  if grouped then
    let group ← anyName
    let _ ← next
    let _ ← next
    let items ← commaList (· == .mark "\x7d") (useItem kind (some group.text))
    let _ ← expectMark "\x7d"
    return .use ⟨start, ← terminator⟩ items
  else
    let items ← commaList1 (useItem kind none)
    return .use ⟨start, ← terminator⟩ items

/-- The name of a namespace, if there is one. -/
def namespaceName : Reader (Option NameRef) := do
  match ← kindAt 0 with
  | some kind => if isName kind then some <$> anyName else return none
  | none => return none

/-- A namespace behind its word.  Without braces it runs to the next namespace. -/
def namespaceStatement (g : Grammar) (start : Nat) : Reader Stmt := do
  let name := (← namespaceName).map (·.text)
  if ← atMark "\x7b" then
    let body ← block g
    return .space ⟨start, body.span.stop⟩ name true body.statements
  else
    let _ ← terminator
    let ss ← statements g (· == .reserved "namespace")
    return .space ⟨start, ← lastStop⟩ name false ss

/-! ### Other statements -/

/-- A static variable with its value. -/
def staticItem (g : Grammar) : Reader Expr := do
  let t ← expect .var
  if ← eatMark "=" then
    let e ← g.expr Level.lowest
    return .assign ⟨t.span.start, e.span.stop⟩ true (.var t.span t.text) e
  else return .var t.span t.text

/-- A `declare` behind its word.  The directives are read and dropped. -/
def declareStatement (g : Grammar) (start : Nat) : Reader Stmt := do
  let _ ← expectMark "("
  let _ ← commaList (· == .mark ")") do
    let _ ← memberName
    let _ ← expectMark "="
    g.expr Level.lowest
  let _ ← expectMark ")"
  if ← atTerminator then return .declare ⟨start, ← terminator⟩ none
  else
    let body ← loopBody g "enddeclare"
    return .declare ⟨start, ← lastStop⟩ (some body)

/-- An expression with its terminator. -/
def expressionStatement (g : Grammar) : Reader Stmt := do
  let start ← offset
  let e ← g.expr Level.lowest
  return .expression ⟨start, ← terminator⟩ e

/-- A declaration of constants behind its word. -/
def constStatement (g : Grammar) (start : Nat) : Reader Stmt := do
  let items ← commaList1 (constItem g)
  return .constants ⟨start, ← terminator⟩ items

/-- Whether a class declaration begins here. -/
def atClass : Reader Bool := do
  match ← kindAt 0 with
  | some (.reserved "class") | some (.reserved "interface") | some (.reserved "trait")
  | some (.reserved "abstract") | some (.reserved "final") => return true
  | some .word =>
      match ← wordAt 0 with
      | some "enum" => isAt 1 .word
      | some "readonly" =>
          return (← isAt 1 (.reserved "class")) || (← isAt 1 (.reserved "final")) ||
            (← isAt 1 (.reserved "abstract"))
      | _ => return false
  | _ => return false

/-- Whether a function declaration begins here: a name follows the word. -/
def atFunction : Reader Bool := do
  if ← atReserved "function" then
    return (← isAt 1 .word) || ((← isAt 1 (.mark "&")) && (← isAt 2 .word))
  else return false

/-- A statement behind attributes: a declaration, or an expression that begins with them. -/
def attributed (g : Grammar) : Reader Stmt := do
  let start ← attributedStart
  if ← atClass then return .classlike (← classDecl g start)
  else if ← atFunction then return .function (← functionDecl g start)
  else
    match ← eat (.reserved "const") with
    | some t => constStatement g t.span.start
    | none =>
        let left ← functionLike g start
        let e ← extendAll g Level.lowest left
        return .expression ⟨start, ← terminator⟩ e

/-- An expression, unless the statement ends at once. -/
def exprIfAny (g : Grammar) : Reader (Option Expr) := do
  if ← atTerminator then return none else some <$> g.expr Level.lowest

/-- A statement that begins with a reserved word; `none` if it is an expression. -/
def reservedStatement (g : Grammar) (word : String) (start : Nat) : Reader (Option Stmt) := do
  match word with
  | "if" => let _ ← next; some <$> ifStatement g start
  | "while" =>
      let _ ← next
      let c ← condition g
      let body ← loopBody g "endwhile"
      return some (.whileLoop ⟨start, ← lastStop⟩ c body)
  | "do" =>
      let _ ← next
      let s ← g.stmt
      let _ ← expect (.reserved "while")
      let c ← condition g
      return some (.doLoop ⟨start, ← terminator⟩ ⟨s.span, [s]⟩ c)
  | "for" => let _ ← next; some <$> forStatement g start
  | "foreach" => let _ ← next; some <$> foreachStatement g start
  | "switch" => let _ ← next; some <$> switchStatement g start
  | "try" => let _ ← next; some <$> tryStatement g start
  | "const" => let _ ← next; some <$> constStatement g start
  | "use" => let _ ← next; some <$> useStatement start
  | "namespace" => let _ ← next; some <$> namespaceStatement g start
  | "echo" =>
      let _ ← next
      let es ← commaList1 (g.expr Level.lowest)
      return some (.echo ⟨start, ← terminator⟩ es)
  | "return" =>
      let _ ← next
      let e ← exprIfAny g
      return some (.ret ⟨start, ← terminator⟩ e)
  | "break" | "continue" =>
      let _ ← next
      let e ← exprIfAny g
      return some (.jump ⟨start, ← terminator⟩ e)
  | "goto" =>
      let _ ← next
      let _ ← declaredName
      return some (.goto ⟨start, ← terminator⟩)
  | "global" =>
      let _ ← next
      let es ← commaList1 (g.expr Level.lowest)
      return some (.global ⟨start, ← terminator⟩ es)
  | "unset" =>
      let _ ← next
      let _ ← expectMark "("
      let es ← commaList (· == .mark ")") (g.expr Level.lowest)
      let _ ← expectMark ")"
      return some (.unset ⟨start, ← terminator⟩ es)
  | "declare" => let _ ← next; some <$> declareStatement g start
  | "static" =>
      if ← isAt 1 .var then
        let _ ← next
        let es ← commaList1 (staticItem g)
        return some (.statics ⟨start, ← terminator⟩ es)
      else return none
  | _ => return none

/-- One statement. -/
def statement (g : Grammar) : Reader Stmt := do
  match ← peek with
  | none => throw (← endFailure)
  | some t =>
      let start := t.span.start
      match t.kind with
      | .openTag => let _ ← next; return .openTag t.span
      | .closeTag => let _ ← next; return .closeTag t.span
      | .html => let _ ← next; return .html t.span
      | .echoTag =>
          let _ ← next
          let es ← commaList1 (g.expr Level.lowest)
          return .echoTag ⟨start, ← terminator⟩ es
      | .mark ";" => let _ ← next; return .empty t.span
      | .mark "\x7b" => return .block (← block g)
      | .mark "#[" => attributed g
      | .word =>
          if ← isAt 1 (.mark ":") then
            let _ ← next
            let _ ← next
            return .label ⟨start, ← lastStop⟩
          else if ← atClass then return .classlike (← classDecl g start)
          else expressionStatement g
      | .reserved word =>
          if ← atClass then return .classlike (← classDecl g start)
          else if ← atFunction then return .function (← functionDecl g start)
          else
            match ← reservedStatement g word start with
            | some s => return s
            | none => expressionStatement g
      | _ => expressionStatement g

end Reader

/-- The grammar for nesting up to a depth; deeper nesting fails. -/
def Grammar.ofDepth : Nat → Grammar
  | 0 =>
      { expr := fun _ => do throw (← Reader.endFailure)
        stmt := do throw (← Reader.endFailure) }
  | n + 1 =>
      { expr := fun level s => Reader.expression (Grammar.ofDepth n) level s
        stmt := fun s => Reader.statement (Grammar.ofDepth n) s }

/-- The statements of a file and the complaints about it. -/
structure Parsed where
  statements : List Stmt
  diagnostics : List Diagnostic

/-- The complaints of reading.  When the tokens ended early, what was missed at the end says less
than the reason for the end. -/
def diagnosticsOf (fault : Option Diagnostic) (failures : List Parse.Failure) : List Diagnostic :=
  match fault with
  | none => failures.map (·.diagnostic)
  | some d => (failures.filter (!·.atEnd)).map (·.diagnostic) ++ [d]

/-- Read the statements of a file.  Each level of nesting takes a token, so their number bounds the
depth. -/
def parse (tokens : List Token) (fault : Option Diagnostic) : Parsed :=
  let g := Grammar.ofDepth (4 * tokens.length + 16)
  match (Reader.statements g fun _ => false) ⟨tokens, 0, []⟩ with
  | .ok ss s => ⟨ss, diagnosticsOf fault s.failures⟩
  | .error f s => ⟨[], diagnosticsOf fault (s.failures ++ [f])⟩

end PhpAtlas
