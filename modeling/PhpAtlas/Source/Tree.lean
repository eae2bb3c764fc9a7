import PhpAtlas.Name
import PhpAtlas.Text.Offset

/-!
# The tree of a source file

Expressions and statements are mutually recursive; everything between them (arguments, parameters,
branches, members) is a small structure over the two types `ε` of expressions and `σ` of
statements, so that only `Expr` and `Stmt` are tied together at the end.

Nodes carry byte ranges.  A name used as a class or as a callee is `Expr.name`; a name in any other
place is `Expr.constant`.  Both forms of `if` become a list of branches, and both forms of every
body become a range with statements.

## Main definitions

* `Hint` — a type written in a signature.
* `Slot`, `Arm`, `Selector`, `Callee`, `Parameter`, `Capture` — parts of expressions.
* `Body`, `Branch`, `Catch`, `Item`, `FunctionDecl`, `Member`, `ClassDecl` — parts of statements.
* `Expr`, `Stmt` — the tree.
* `Expr.span`, `Stmt.span` — the range of a node.
-/

namespace PhpAtlas

/-- A name as written, with its range. -/
structure NameRef where
  text : String
  span : Span
  deriving Repr, Inhabited

/-- A native type. -/
inductive Hint
  | name (ref : NameRef)
  /-- A word of the language such as `int` or `self`, as spelled. -/
  | keyword (word : String)
  | nullable (inner : Hint)
  | union (left right : Hint)
  | intersection (left right : Hint)
  | group (inner : Hint)
  deriving Repr, Inhabited

/-- A return type with the offset of its colon. -/
structure ReturnHint where
  colon : Nat
  hint : Hint
  deriving Repr

/-- A word in front of a declaration. -/
inductive Modifier
  | pub
  | prot
  | priv
  | pubSet
  | protSet
  | privSet
  | static
  | abstract
  | final
  | readonly
  | var
  deriving DecidableEq, Repr

/-- A constant of a kind that has a type of its own. -/
inductive Literal
  /-- A string without interpolation, unescaped. -/
  | string (value : String)
  | integer
  | float
  | true
  | false
  | null
  deriving DecidableEq, Repr

/-- The operator in front of an operand. -/
inductive UnaryOp
  | not
  | minus
  | plus
  | complement
  | silence
  | reference
  | increment
  | decrement
  | cast (type : String)
  deriving DecidableEq, Repr

/-- The operator between two operands. -/
inductive BinaryOp
  | lowOr
  | lowXor
  | lowAnd
  | coalesce
  | or
  | and
  | bitOr
  | bitXor
  | bitAnd
  | equal
  | notEqual
  | angledNotEqual
  | identical
  | notIdentical
  | spaceship
  | less
  | lessEqual
  | greater
  | greaterEqual
  | concat
  | shiftLeft
  | shiftRight
  | add
  | sub
  | mul
  | div
  | mod
  | instanceOf
  | pow
  deriving DecidableEq, Repr

/-- How an array is written. -/
inductive ArrayForm
  | brackets
  | keyword
  | list
  deriving DecidableEq, Repr

section Parts

variable (ε σ : Type)

/-- What stands in one place of an array or of a list of arguments. -/
inductive Slot
  /-- Nothing, as in `[, $b]`. -/
  | missing
  | value (value : ε)
  | pair (key value : ε)
  | spread (value : ε)
  /-- An argument with the name of its parameter. -/
  | named (name : String) (value : ε)

/-- An arm of a match; without conditions it is the default arm. -/
structure Arm where
  conditions : List ε
  value : ε

/-- Which member is selected. -/
inductive Selector
  | named (ref : NameRef)
  | computed (value : ε)

/-- What is called. -/
inductive Callee
  | function (callee : ε)
  /-- A call on an object; with `nullSafe` it is skipped on `null`. -/
  | method (nullSafe : Bool) (object : ε) (selector : Selector ε)
  | static (cls : ε) (selector : Selector ε)

/-- A range with statements: a block in braces, the statement of a loop, or what stands between a
colon and its end word. -/
structure Body where
  span : Span
  statements : List σ

/-- A parameter. -/
structure Parameter where
  span : Span
  modifiers : List Modifier
  hint : Option Hint
  byRef : Bool
  variadic : Bool
  /-- The name with its `$`. -/
  name : String
  default : Option ε
  /-- Whether accessors stand behind the parameter. -/
  hooked : Bool

/-- A function, a method, or an accessor of a property. -/
structure FunctionDecl where
  span : Span
  modifiers : List Modifier
  name : NameRef
  parameters : List (Parameter ε)
  returns : Option ReturnHint
  /-- An abstract method has no body. -/
  body : Option (Body σ)

/-- A variable that a closure takes from outside. -/
structure Capture where
  /-- The name with its `$`. -/
  name : String
  byRef : Bool

/-- A guarded list of statements: a branch of an `if`, or a case of a `switch`.  Only an `else`
branch and a default case have no condition. -/
structure Branch where
  condition : Option ε
  body : Body σ

/-- A `catch` clause. -/
structure Catch where
  span : Span
  hint : Hint
  /-- The variable that is bound, with its `$`. -/
  binding : Option String
  body : Body σ

/-- A name with a value: a constant, a property with its default, or a case of an enumeration. -/
structure Item where
  name : NameRef
  value : Option ε

/-- What an adaptation does to a trait method. -/
inductive Adaptation
  /-- A method of one trait wins over those of others. -/
  | insteadOf (owner : String) (method : String) (others : List String)
  /-- A method gets another name or another visibility. -/
  | rename (owner : Option String) (method : String) (newName : Option String)
      (visibility : Option Modifier)

/-- A member of a classlike. -/
inductive Member
  | method (decl : FunctionDecl ε σ)
  | property (span : Span) (modifiers : List Modifier) (hint : Option Hint)
      (items : List (Item ε)) (accessors : List (FunctionDecl ε σ))
  | constant (span : Span) (modifiers : List Modifier) (hint : Option Hint)
      (items : List (Item ε))
  | enumCase (span : Span) (item : Item ε)
  | traitUse (span : Span) (names : List NameRef) (adaptations : List Adaptation)

/-- The keyword that declares a classlike. -/
inductive ClassForm
  | cls
  | interface
  | trait
  /-- An enumeration, with or without a backing type. -/
  | enum (backed : Bool)
  deriving DecidableEq, Repr

/-- A classlike declaration. -/
structure ClassDecl where
  span : Span
  form : ClassForm
  modifiers : List Modifier
  name : String
  parents : List NameRef
  interfaces : List NameRef
  members : List (Member ε σ)

/-- One name of an import, with the leading part it shares with a group. -/
structure UseItem where
  kind : SymbolKind
  group : Option String
  name : String
  newName : Option String
  deriving Repr

end Parts

mutual

/-- An expression. -/
inductive Expr
  | paren (span : Span) (inner : Expr)
  | literal (span : Span) (value : Literal)
  /-- A string with interpolation; only its expressions are kept. -/
  | template (span : Span) (parts : List Expr)
  /-- A variable by its name, with the `$`. -/
  | var (span : Span) (name : String)
  /-- A variable whose name is computed. -/
  | indirect (span : Span) (name : Expr)
  | array (span : Span) (form : ArrayForm) (slots : List (Slot Expr))
  /-- An array access; without an index it appends. -/
  | index (span : Span) (base : Expr) (index : Option Expr)
  | assign (span : Span) (plain : Bool) (target value : Expr)
  | binary (span : Span) (op : BinaryOp) (left right : Expr)
  | unary (span : Span) (op : UnaryOp) (operand : Expr)
  /-- An increment or decrement behind its operand. -/
  | trailing (span : Span) (operand : Expr)
  /-- A conditional; without a middle operand it yields its condition. -/
  | ternary (span : Span) (condition : Expr) (yes : Option Expr) (no : Expr)
  | select (span : Span) (subject : Expr) (arms : List (Arm Expr))
  /-- A name that stands for a class or a function. -/
  | name (ref : NameRef)
  /-- A name that stands for a constant. -/
  | constant (ref : NameRef)
  | self (span : Span)
  | static (span : Span)
  | parent (span : Span)
  | call (span : Span) (callee : Callee Expr) (arguments : List (Slot Expr))
  /-- A callable made by writing `...` for the arguments. -/
  | callable (span : Span) (callee : Callee Expr)
  | property (span : Span) (nullSafe : Bool) (object : Expr) (selector : Selector Expr)
  | staticProperty (span : Span) (cls : Expr) (property : Expr)
  | classConstant (span : Span) (cls : Expr) (selector : Selector Expr)
  | new (span : Span) (cls : Expr) (arguments : List (Slot Expr))
  /-- An instance of a class without a name. -/
  | newClass (span : Span) (arguments : List (Slot Expr)) (decl : ClassDecl Expr Stmt)
  | closure (span : Span) (parameters : List (Parameter Expr)) (captures : List Capture)
      (returns : Option ReturnHint) (body : Body Stmt)
  /-- An arrow function; `arrow` is the offset of its `=>`. -/
  | arrow (span : Span) (parameters : List (Parameter Expr)) (returns : Option ReturnHint)
      (arrow : Nat) (body : Expr)
  | clone (span : Span) (object : Expr)
  | throw (span : Span) (exception : Expr)
  | yield (span : Span) (key value : Option Expr)
  | yieldFrom (span : Span) (iterator : Expr)
  | pipe (span : Span) (input callable : Expr)
  /-- A construct such as `isset` or `include`. -/
  | construct (span : Span) (word : String) (operands : List Expr)
  | magic (span : Span) (word : String)
  /-- The place of an operand that could not be read. -/
  | missing (span : Span)

/-- A statement. -/
inductive Stmt
  | openTag (span : Span)
  | closeTag (span : Span)
  | html (span : Span)
  | echoTag (span : Span) (values : List Expr)
  | empty (span : Span)
  | block (body : Body Stmt)
  | expression (span : Span) (value : Expr)
  | ret (span : Span) (value : Option Expr)
  | echo (span : Span) (values : List Expr)
  | cond (span : Span) (branches : List (Branch Expr Stmt))
  | whileLoop (span : Span) (condition : Expr) (body : Body Stmt)
  | doLoop (span : Span) (body : Body Stmt) (condition : Expr)
  | forLoop (span : Span) (initial conditions steps : List Expr) (body : Body Stmt)
  | eachLoop (span : Span) (subject : Expr) (key : Option Expr) (target : Expr) (body : Body Stmt)
  | switch (span : Span) (subject : Expr) (cases : List (Branch Expr Stmt))
  /-- A `try`; `ensureStart` is the offset of the word `finally`. -/
  | tryCatch (span : Span) (body : Body Stmt) (catches : List (Catch Stmt)) (ensureStart : Nat)
      (ensure : Option (Body Stmt))
  | function (decl : FunctionDecl Expr Stmt)
  | classlike (decl : ClassDecl Expr Stmt)
  | constants (span : Span) (items : List (Item Expr))
  | use (span : Span) (items : List UseItem)
  /-- A namespace; without braces it holds the statements up to the next one. -/
  | space (span : Span) (name : Option String) (braced : Bool) (statements : List Stmt)
  | statics (span : Span) (values : List Expr)
  | global (span : Span) (targets : List Expr)
  | unset (span : Span) (targets : List Expr)
  | declare (span : Span) (body : Option (Body Stmt))
  | label (span : Span)
  | goto (span : Span)
  | jump (span : Span) (levels : Option Expr)

end

namespace Expr

/-- The range of an expression. -/
def span : Expr → Span
  | paren s _ | literal s _ | template s _ | var s _ | indirect s _ | array s _ _
  | index s _ _ | assign s _ _ _ | binary s _ _ _ | unary s _ _ | trailing s _ | ternary s _ _ _
  | select s _ _ | self s | static s | parent s | call s _ _ | callable s _ | property s _ _ _
  | staticProperty s _ _ | classConstant s _ _ | new s _ _ | newClass s _ _ | closure s _ _ _ _
  | arrow s _ _ _ _ | clone s _ | throw s _ | yield s _ _ | yieldFrom s _ | pipe s _ _
  | construct s _ _ | magic s _ | missing s => s
  | name r | constant r => r.span

/-- The name of a plain variable, possibly in brackets. -/
def varName? : Expr → Option String
  | var _ n => some n
  | paren _ inner => inner.varName?
  | _ => none

end Expr

namespace Stmt

/-- The range of a statement. -/
def span : Stmt → Span
  | openTag s | closeTag s | html s | echoTag s _ | empty s | expression s _ | ret s _
  | echo s _ | cond s _ | whileLoop s _ _ | doLoop s _ _ | forLoop s _ _ _ _ | eachLoop s _ _ _ _
  | switch s _ _ | tryCatch s _ _ _ _ | constants s _ | use s _ | space s _ _ _ | statics s _
  | global s _ | unset s _ | declare s _ | label s | goto s | jump s _ => s
  | block b => b.span
  | function d => d.span
  | classlike d => d.span

end Stmt

end PhpAtlas
