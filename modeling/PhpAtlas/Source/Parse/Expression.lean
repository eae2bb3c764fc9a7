import PhpAtlas.Source.Parse.Member
import PhpAtlas.Source.Quoted

/-!
# Reading expressions

Operators are read by binding level.  `Reader.operand` reads what stands before the first infix
operator and `Reader.extend` adds one operator behind an expression, as long as it binds tighter
than the level asked for.  An assignment to something assignable is read at any level, so `!$a = 1`
negates the assignment.

A token that starts no operand is noted, consumed, and leaves a missing operand.

## Main definitions

* `Level` — the binding levels, weakest first.
* `Reader.operand` — the start of an expression.
* `Reader.extend` — one infix or trailing operator.
* `Reader.expression` — a whole expression above a level.
-/

namespace PhpAtlas

namespace Level

/-- Below every operator. -/
def lowest : Nat := 0

/-- The level of `print`. -/
def print : Nat := 1

/-- The level of `yield from`. -/
def yieldFrom : Nat := 2

/-- The level of `yield`. -/
def yield : Nat := 3

/-- The level of `or`. -/
def lowOr : Nat := 4

/-- The level of `xor`. -/
def lowXor : Nat := 5

/-- The level of `and`. -/
def lowAnd : Nat := 6

/-- The level of `=` and the assignments with an operator. -/
def assignment : Nat := 7

/-- The level of `? :`. -/
def ternary : Nat := 8

/-- The level of `??`. -/
def coalesce : Nat := 9

/-- The level of `||`. -/
def or : Nat := 10

/-- The level of `&&`. -/
def and : Nat := 11

/-- The level of `|`. -/
def bitOr : Nat := 12

/-- The level of `^`. -/
def bitXor : Nat := 13

/-- The level of `&`. -/
def bitAnd : Nat := 14

/-- The level of `==` and its kin. -/
def equality : Nat := 15

/-- The level of `<` and its kin. -/
def comparison : Nat := 16

/-- The level of `|>`. -/
def pipe : Nat := 17

/-- The level of `.`. -/
def concat : Nat := 18

/-- The level of `<<` and `>>`. -/
def shift : Nat := 19

/-- The level of `+` and `-` between operands. -/
def additive : Nat := 20

/-- The level of `*`, `/` and `%`. -/
def multiplicative : Nat := 21

/-- The level of `!`, `~`, `&`, of signs and of casts. -/
def unary : Nat := 22

/-- The level of `instanceof`. -/
def instanceOf : Nat := 23

/-- The level of `@`. -/
def silence : Nat := 24

/-- The level of `**`. -/
def power : Nat := 25

/-- The level of `clone`. -/
def clone : Nat := 26

/-- The level of `++` and `--`. -/
def increment : Nat := 27

/-- The level of arguments in brackets. -/
def call : Nat := 28

/-- The level of `new`. -/
def new : Nat := 29

/-- The level of an index in square brackets. -/
def index : Nat := 30

/-- The level of `->` and `::`. -/
def access : Nat := 31

end Level

namespace Reader

/-- The operator between two operands, with its level. -/
def binaryOp? : TokenKind → Option (BinaryOp × Nat)
  | .reserved "or" => some (.lowOr, Level.lowOr)
  | .reserved "xor" => some (.lowXor, Level.lowXor)
  | .reserved "and" => some (.lowAnd, Level.lowAnd)
  | .reserved "instanceof" => some (.instanceOf, Level.instanceOf)
  | .mark m =>
      match m with
      | "??" => some (.coalesce, Level.coalesce)
      | "||" => some (.or, Level.or)
      | "&&" => some (.and, Level.and)
      | "|" => some (.bitOr, Level.bitOr)
      | "^" => some (.bitXor, Level.bitXor)
      | "&" => some (.bitAnd, Level.bitAnd)
      | "==" => some (.equal, Level.equality)
      | "!=" => some (.notEqual, Level.equality)
      | "<>" => some (.angledNotEqual, Level.equality)
      | "===" => some (.identical, Level.equality)
      | "!==" => some (.notIdentical, Level.equality)
      | "<=>" => some (.spaceship, Level.equality)
      | "<" => some (.less, Level.comparison)
      | "<=" => some (.lessEqual, Level.comparison)
      | ">" => some (.greater, Level.comparison)
      | ">=" => some (.greaterEqual, Level.comparison)
      | "." => some (.concat, Level.concat)
      | "<<" => some (.shiftLeft, Level.shift)
      | ">>" => some (.shiftRight, Level.shift)
      | "+" => some (.add, Level.additive)
      | "-" => some (.sub, Level.additive)
      | "*" => some (.mul, Level.multiplicative)
      | "/" => some (.div, Level.multiplicative)
      | "%" => some (.mod, Level.multiplicative)
      | "**" => some (.pow, Level.power)
      | _ => none
  | _ => none

/-- Operators that group to the right. -/
def groupsRight : BinaryOp → Bool
  | .coalesce | .pow => true
  | _ => false

/-- The operators that assign and compute at once. -/
def compoundMarks : List String :=
  ["+=", "-=", "*=", "/=", ".=", "%=", "**=", "&=", "|=", "^=", "<<=", ">>=", "??="]

/-- Whether a token assigns, and if so, whether it only assigns. -/
def assignment? : TokenKind → Option Bool
  | .mark m =>
      if m == "=" then some true else if compoundMarks.contains m then some false else none
  | _ => none

/-- The operator in front of an operand, with the level of the operand. -/
def prefixOp? : TokenKind → Option (UnaryOp × Nat)
  | .cast type => some (.cast type, Level.unary)
  | .mark m =>
      match m with
      | "!" => some (.not, Level.unary)
      | "-" => some (.minus, Level.unary)
      | "+" => some (.plus, Level.unary)
      | "~" => some (.complement, Level.unary)
      | "&" => some (.reference, Level.unary)
      | "@" => some (.silence, Level.silence)
      | "++" => some (.increment, Level.increment)
      | "--" => some (.decrement, Level.increment)
      | _ => none
  | _ => none

/-- A name in the place of a class or a function. -/
def asName : Expr → Expr
  | .constant r => .name r
  | e => e

/-- Whether an expression can be assigned to. -/
def isAssignable : Expr → Bool
  | .var .. | .indirect .. | .index .. | .property .. | .staticProperty .. | .array .. => true
  | _ => false

/-- The words that stand for a place in the source. -/
def magicWords : List String :=
  ["__line__", "__file__", "__dir__", "__function__", "__class__", "__method__", "__namespace__",
    "__trait__", "__property__"]

/-- A word in the place of an operand. -/
def wordOperand (t : Token) : Expr :=
  match fold t.text with
  | "true" => .literal t.span .true
  | "false" => .literal t.span .false
  | "null" => .literal t.span .null
  | "self" => .self t.span
  | "parent" => .parent t.span
  | w => if magicWords.contains w then .magic t.span t.text else .constant (nameRef t)

/-! ### Argument and element lists -/

/-- Whether the name of a parameter stands in front of an argument. -/
def atParameterName : Reader Bool := do
  match ← kindAt 0 with
  | some kind => return isMemberName kind && (← isAt 1 (.mark ":"))
  | none => return false

/-- An argument of a call. -/
def argument (g : Grammar) : Reader (Slot Expr) := do
  if ← eatMark "..." then return .spread (← g.expr Level.lowest)
  else if ← atParameterName then
    let name ← memberName
    let _ ← expectMark ":"
    return .named name.text (← g.expr Level.lowest)
  else return .value (← g.expr Level.lowest)

/-- The arguments in brackets. -/
def arguments (g : Grammar) : Reader (List (Slot Expr)) := do
  let _ ← expectMark "("
  let args ← commaList (· == .mark ")") (argument g)
  let _ ← expectMark ")"
  return args

/-- The arguments in brackets, if there are any. -/
def argumentsIfAny (g : Grammar) : Reader (List (Slot Expr)) := do
  if ← atMark "(" then arguments g else return []

/-- Whether the arguments are only dots, which makes a callable. -/
def atDots : Reader Bool := do
  return (← atMark "(") && (← isAt 1 (.mark "...")) && (← isAt 2 (.mark ")"))

/-- An element of an array.  Nothing stands before a comma that follows the opening or a comma. -/
def element (g : Grammar) : Reader (Slot Expr) := do
  if ← atMark "," then return .missing
  else if ← eatMark "..." then return .spread (← g.expr Level.lowest)
  else
    let first ← g.expr Level.lowest
    if ← eatMark "=>" then return .pair first (← g.expr Level.lowest)
    else return .value first

/-- The elements of an array up to its closing mark, which is read too. -/
def elements (g : Grammar) (closing : String) : Reader (List (Slot Expr)) := do
  let list ← commaList (· == .mark closing) (element g)
  let _ ← expectMark closing
  return list

/-! ### Operands -/

/-- Code inside a string, with the name or the index of a simple interpolation. -/
def embedded (g : Grammar) : Reader (Option Expr) := do
  let t ← next
  match t.kind with
  | .embedOpen =>
      let e ← g.expr Level.lowest
      let closing ← expect .embedClose
      if t.text == "$\x7b" then return some (.indirect (t.span.through closing.span) e)
      else return some e
  | .var =>
      let e := Expr.var t.span t.text
      if ← eatMark "[" then
        let _ ← eatMark "-"
        let i ← next
        let index := match i.kind with
          | .var => Expr.var i.span i.text
          | .integer => .literal i.span .integer
          | _ => .literal i.span (.string i.text)
        let closing ← expectMark "]"
        return some (.index (t.span.through closing.span) e (some index))
      else
        let nullSafe ← atMark "?->"
        if nullSafe || (← atMark "->") then
          let _ ← next
          let name ← memberName
          return some (.property ⟨t.span.start, name.span.stop⟩ nullSafe e (.named name))
        else return some e
  | _ => return none

/-- The code inside a string up to its end. -/
def templateParts (g : Grammar) : Reader (List Expr) :=
  repeatFrom [] fun (parts : List Expr) => do
    if (← isAt 0 .templateClose) || (← atEnd) then return .inr parts
    else
      match ← embedded g with
      | some e => return .inl (parts ++ [e])
      | none => return .inl parts

/-- A string with interpolation behind its opening. -/
def template (g : Grammar) (opening : Token) : Reader Expr := do
  let parts ← templateParts g
  let closing ← expect .templateClose
  return .template (opening.span.through closing.span) parts

/-- The conditions of an arm; a default arm has none. -/
def armConditions (g : Grammar) : Reader (List Expr) := do
  let isDefault := (← atReserved "default") &&
    ((← isAt 1 (.mark "=>")) || (← isAt 1 (.mark ",")))
  if isDefault then
    let _ ← next
    let _ ← eatMark ","
    return []
  else commaList (· == .mark "=>") (g.expr Level.lowest)

/-- An arm of a match. -/
def arm (g : Grammar) : Reader (Arm Expr) := do
  let conditions ← armConditions g
  let _ ← expectMark "=>"
  return ⟨conditions, ← g.expr Level.lowest⟩

/-- A match behind its word. -/
def select (g : Grammar) (start : Nat) : Reader Expr := do
  let _ ← expectMark "("
  let subject ← g.expr Level.lowest
  let _ ← expectMark ")"
  let _ ← expectMark "\x7b"
  let arms ← commaList (· == .mark "\x7d") (arm g)
  let closing ← expectMark "\x7d"
  return .select ⟨start, closing.span.stop⟩ subject arms

/-- A variable taken from outside. -/
def capture : Reader Capture := do
  let byRef ← eatMark "&"
  let t ← expect .var
  return ⟨t.text, byRef⟩

/-- The variables behind the word `use`, if it is there. -/
def captures : Reader (List Capture) := do
  if ← eatReserved "use" then
    let _ ← expectMark "("
    let list ← commaList (· == .mark ")") capture
    let _ ← expectMark ")"
    return list
  else return []

/-- A closure behind the word `function`. -/
def closure (g : Grammar) (start : Nat) : Reader Expr := do
  let _ ← eatMark "&"
  let ps ← parameters g
  let vars ← captures
  let returns ← returnHint
  let body ← block g
  return .closure ⟨start, body.span.stop⟩ ps vars returns body

/-- An arrow function behind the word `fn`. -/
def arrow (g : Grammar) (start : Nat) : Reader Expr := do
  let _ ← eatMark "&"
  let ps ← parameters g
  let returns ← returnHint
  let t ← expectMark "=>"
  let body ← g.expr Level.lowest
  return .arrow ⟨start, body.span.stop⟩ ps returns t.span.start body

/-- A closure or an arrow function, possibly with the word `static`. -/
def functionLike (g : Grammar) (start : Nat) : Reader Expr := do
  let _ ← eatReserved "static"
  if ← eatReserved "function" then closure g start
  else
    let _ ← expect (.reserved "fn")
    arrow g start

/-- The modifiers of a class without a name, if one follows. -/
def anonymousModifiers : Reader (List Modifier) := do
  if ← isAt 0 .word then
    if (← wordAt 0) == some "readonly" && (← isAt 1 (.reserved "class")) then modifiers
    else return []
  else if ← atReserved "final" then modifiers
  else return []

/-- An instance behind the word `new`. -/
def instantiation (g : Grammar) (start : Nat) : Reader Expr := do
  skipAttributes
  let ms ← anonymousModifiers
  if ← atReserved "class" then
    let inner ← offset
    let _ ← next
    let args ← argumentsIfAny g
    let decl ← anonymousClass g inner ms
    return .newClass ⟨start, decl.span.stop⟩ args decl
  else
    let cls ← g.expr Level.new
    let args ← argumentsIfAny g
    return .new ⟨start, ← lastStop⟩ (asName cls) args

/-- A value produced by a generator, behind the word `yield`. -/
def yielded (g : Grammar) (start : Nat) : Reader Expr := do
  if (← wordAt 0) == some "from" then
    let _ ← next
    let e ← g.expr Level.yieldFrom
    return .yieldFrom ⟨start, e.span.stop⟩ e
  else
    let bare := match ← kindAt 0 with
      | some (.mark m) => [";", ")", ",", "]", "\x7d", "=>"].contains m
      | some .closeTag | none => true
      | _ => false
    if bare then return .yield ⟨start, ← lastStop⟩ none none
    else
      let e ← g.expr Level.yield
      if ← eatMark "=>" then
        let v ← g.expr Level.yield
        return .yield ⟨start, v.span.stop⟩ (some e) (some v)
      else return .yield ⟨start, e.span.stop⟩ none (some e)

/-- A construct with operands in brackets. -/
def bracketed (g : Grammar) (start : Nat) (word : String) : Reader Expr := do
  let _ ← expectMark "("
  let es ← commaList (· == .mark ")") (g.expr Level.lowest)
  let closing ← expectMark ")"
  return .construct ⟨start, closing.span.stop⟩ word es

/-- An operand that begins with a reserved word; `none` if no operand does. -/
def reservedOperand (g : Grammar) (word : String) (start : Nat) : Reader (Option Expr) := do
  match word with
  | "new" => let _ ← next; some <$> instantiation g start
  | "clone" =>
      let _ ← next
      let e ← g.expr Level.clone
      return some (.clone ⟨start, e.span.stop⟩ e)
  | "function" | "fn" => some <$> functionLike g start
  | "static" =>
      if (← isAt 1 (.reserved "function")) || (← isAt 1 (.reserved "fn")) then
        some <$> functionLike g start
      else return some (.static (← next).span)
  | "array" | "list" =>
      if ← isAt 1 (.mark "(") then
        let _ ← next
        let _ ← next
        let es ← elements g ")"
        let form := if word == "array" then ArrayForm.keyword else .list
        return some (.array ⟨start, ← lastStop⟩ form es)
      else return none
  | "match" => let _ ← next; some <$> select g start
  | "isset" | "empty" | "eval" => let _ ← next; some <$> bracketed g start word
  | "exit" | "die" =>
      let t ← next
      if ← atMark "(" then some <$> bracketed g start word
      else return some (.construct t.span word [])
  | "include" | "include_once" | "require" | "require_once" =>
      let _ ← next
      let e ← g.expr Level.lowest
      return some (.construct ⟨start, e.span.stop⟩ word [e])
  | "print" =>
      let _ ← next
      let e ← g.expr Level.print
      return some (.construct ⟨start, e.span.stop⟩ word [e])
  | "throw" =>
      let _ ← next
      let e ← g.expr Level.lowest
      return some (.throw ⟨start, e.span.stop⟩ e)
  | "yield" => let _ ← next; some <$> yielded g start
  | _ => return none

/-- Note a token that starts no operand, and leave a missing operand in its place. -/
def unexpected : Reader Expr := do
  let t ← next
  note ⟨⟨"Unexpected token `" ++ t.kind.label ++ "`", t.span⟩, false⟩
  return .missing t.span

/-- A variable whose name is computed, behind its first `$`. -/
def indirect (g : Grammar) (start : Nat) : Reader Expr := do
  if ← eatMark "\x7b" then
    let e ← g.expr Level.lowest
    let closing ← expectMark "\x7d"
    return .indirect ⟨start, closing.span.stop⟩ e
  else
    let e ← g.expr Level.access
    return .indirect ⟨start, e.span.stop⟩ e

/-- What stands before the first infix operator. -/
def operand (g : Grammar) : Reader Expr := do
  match ← peek with
  | none => throw (← endFailure)
  | some t =>
      let start := t.span.start
      match t.kind with
      | .var => let _ ← next; return .var t.span t.text
      | .integer => let _ ← next; return .literal t.span .integer
      | .float => let _ ← next; return .literal t.span .float
      | .string =>
          let _ ← next
          return .literal t.span (.string (String.ofList (Quoted.value t.text.toList)))
      | .templateOpen => let _ ← next; template g t
      | .word => let _ ← next; return wordOperand t
      | .qualified | .rooted => let _ ← next; return .constant (nameRef t)
      | .mark "(" =>
          let _ ← next
          let e ← g.expr Level.lowest
          let closing ← expectMark ")"
          return .paren ⟨start, closing.span.stop⟩ e
      | .mark "[" =>
          let _ ← next
          let es ← elements g "]"
          return .array ⟨start, ← lastStop⟩ .brackets es
      | .mark "$" => let _ ← next; indirect g start
      | .mark "#[" => skipAttributes; functionLike g start
      | .reserved word =>
          match ← reservedOperand g word start with
          | some e => return e
          | none => unexpected
      | kind =>
          match prefixOp? kind with
          | some (op, level) =>
              let _ ← next
              let e ← g.expr level
              return .unary ⟨start, e.span.stop⟩ op e
          | none => unexpected

/-! ### Operators behind an expression -/

/-- A call or a callable, with the arguments to come. -/
def called (g : Grammar) (start : Nat) (callee : Callee Expr) : Reader Expr := do
  if ← atDots then
    let _ ← next; let _ ← next; let _ ← next
    return .callable ⟨start, ← lastStop⟩ callee
  else
    let args ← arguments g
    return .call ⟨start, ← lastStop⟩ callee args

/-- The member behind an arrow. -/
def selector (g : Grammar) : Reader (Selector Expr) := do
  match ← peek with
  | some t =>
      match t.kind with
      | .var => let _ ← next; return .computed (.var t.span t.text)
      | .mark "$" => let _ ← next; return .computed (← indirect g t.span.start)
      | .mark "\x7b" =>
          let _ ← next
          let e ← g.expr Level.lowest
          let _ ← expectMark "\x7d"
          return .computed e
      | _ => return .named (← memberName)
  | none => return .named (← memberName)

/-- A member access or a method call.  Above the level of calls the brackets are left alone. -/
def memberAccess (g : Grammar) (level : Nat) (object : Expr) (nullSafe : Bool) : Reader Expr := do
  let _ ← next
  let s ← selector g
  let start := object.span.start
  if (← atMark "(") && level < Level.call then called g start (.method nullSafe object s)
  else return .property ⟨start, ← lastStop⟩ nullSafe object s

/-- What stands behind a double colon. -/
def staticAccess (g : Grammar) (level : Nat) (cls : Expr) : Reader Expr := do
  let _ ← next
  let start := cls.span.start
  let cls := asName cls
  let s ← selector g
  if (← atMark "(") && level < Level.call then called g start (.static cls s)
  else
    let span : Span := ⟨start, ← lastStop⟩
    match s with
    | .computed (.var vs name) => return .staticProperty span cls (.var vs name)
    | .computed (.indirect vs name) => return .staticProperty span cls (.indirect vs name)
    | s => return .classConstant span cls s

/-- An expression, unless a mark is there at once. -/
def exprUnless (g : Grammar) (mark : String) : Reader (Option Expr) := do
  if ← atMark mark then return none else some <$> g.expr Level.lowest

/-- An array access. -/
def indexAccess (g : Grammar) (base : Expr) : Reader Expr := do
  let _ ← next
  let i ← exprUnless g "]"
  let closing ← expectMark "]"
  return .index (base.span.through closing.span) base i

/-- A conditional behind its condition. -/
def conditional (g : Grammar) (condition : Expr) : Reader Expr := do
  let _ ← next
  let yes ← exprUnless g ":"
  let _ ← expectMark ":"
  let no ← g.expr Level.ternary
  return .ternary (condition.span.through no.span) condition yes no

/-- A binary operation behind its left operand. -/
def binary (g : Grammar) (op : BinaryOp) (level : Nat) (left : Expr) : Reader Expr := do
  let _ ← next
  let right ← g.expr level
  let right := if op = .instanceOf then asName right else right
  return .binary (left.span.through right.span) op left right

/-- Whether an operator is read behind an expression when only tighter ones than `level` are. -/
def binds (level : Nat) (op : BinaryOp) (own : Nat) : Bool :=
  if groupsRight op then level ≤ own else level < own

/-- Read one operator behind an expression, or stop. -/
def extend (g : Grammar) (level : Nat) (left : Expr) : Reader (Expr ⊕ Expr) := do
  match ← kindAt 0 with
  | none => return .inr left
  | some kind =>
      match assignment? kind with
      | some plain =>
          if level ≤ Level.assignment || isAssignable left then
            let _ ← next
            let right ← g.expr Level.assignment
            return .inl (.assign (left.span.through right.span) plain left right)
          else return .inr left
      | none =>
      match binaryOp? kind with
      | some (op, own) =>
          if binds level op own then .inl <$> binary g op own left else return .inr left
      | none =>
      match kind with
      | .mark "?" => if level < Level.ternary then .inl <$> conditional g left else return .inr left
      | .mark "|>" =>
          if level < Level.pipe then
            let _ ← next
            let right ← g.expr Level.pipe
            return .inl (.pipe (left.span.through right.span) left right)
          else return .inr left
      | .mark "(" =>
          if level < Level.call then
            .inl <$> called g left.span.start (.function (asName left))
          else return .inr left
      | .mark "[" => if level < Level.index then .inl <$> indexAccess g left else return .inr left
      | .mark "->" =>
          if level < Level.access then .inl <$> memberAccess g level left false
          else return .inr left
      | .mark "?->" =>
          if level < Level.access then .inl <$> memberAccess g level left true
          else return .inr left
      | .mark "::" =>
          if level < Level.access then .inl <$> staticAccess g level left else return .inr left
      | .mark "++" | .mark "--" =>
          if level < Level.increment then
            let t ← next
            return .inl (.trailing (left.span.through t.span) left)
          else return .inr left
      | _ => return .inr left

/-- Read the operators behind an expression. -/
def extendAll (g : Grammar) (level : Nat) (left : Expr) : Reader Expr :=
  repeatFrom left (extend g level)

/-- An expression whose operators bind tighter than a level. -/
def expression (g : Grammar) (level : Nat) : Reader Expr := do
  extendAll g level (← operand g)

end Reader
end PhpAtlas
