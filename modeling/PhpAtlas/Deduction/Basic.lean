import PhpAtlas.Deduction.Members
import PhpAtlas.Deduction.Walk
import PhpAtlas.Source.Variables

/-!
# The types of expressions

The types of an expression at a position of a document.  An empty list means that nothing is
known.  Variables are answered by a walk of the scope around the position, which asks for the types
of other expressions; every such question goes one step down.

## Main definitions

* `Atlas.deduceWith`, `Atlas.answerWith` — the types of an expression, given those of variables.
* `Atlas.variableWith` — the candidates of a variable, given those of other variables.
* `Atlas.variableIn`, `Atlas.deduceIn` — the same in a number of nested look-ups, or `none`.
* `Atlas.deduce?`, `Atlas.deduce` — the types of an expression at an offset of a document.
* `Atlas.deduceStatement`, `Atlas.deduceText` — the types of a statement, and of a written
  expression.
-/

namespace PhpAtlas

/-- The types of the result of an operator, whatever its operands. -/
def BinaryOp.resultTypes : BinaryOp → TypeList
  | .and | .or | .lowAnd | .lowOr | .lowXor | .equal | .notEqual | .angledNotEqual | .identical
  | .notIdentical | .less | .lessEqual | .greater | .greaterEqual | .instanceOf =>
      TypeList.keyword "bool"
  | .spaceship => TypeList.keyword "int"
  | .concat => TypeList.keyword "string"
  | _ => TypeList.empty

/-- Why a written expression has no types. -/
inductive NodeError
  /-- Something else was written than an expression. -/
  | notExpression
  /-- The look-up of a variable asked for itself, and does not end. -/
  | endless
  deriving DecidableEq, Repr

/-- The text of an error. -/
def NodeError.message : NodeError → String
  | .notExpression => "unsupported node: expected expression statement"
  | .endless => "the types of the expression depend on themselves"

namespace Atlas

mutual

/-- The types of an expression, given the types of variables. -/
def deduceWith (a : Atlas) (site : Site) (lookup : String → Point → Option TypeList)
    (p : Point) : Expr → Option TypeList
  | .paren _ inner => a.deduceWith site lookup p inner
  | .var _ name => if name == "$this" then some site.classType else lookup name p
  | .assign _ true _ value => a.deduceWith site lookup p value
  | .ternary _ condition yes no => do
      let types ← a.deduceYes site lookup p yes
      let types ←
        match types with
        | some types => pure types
        -- without a middle operand the condition is the value when it holds
        | none => (·.withoutNull) <$> a.deduceWith site lookup p condition
      return types.append (← a.deduceWith site lookup p no)
  | .select _ _ arms => a.deduceArms site lookup p arms
  | .binary _ .coalesce left right => do
      let types ← a.deduceWith site lookup p left
      return types.withoutNull.append (← a.deduceWith site lookup p right)
  | .binary _ op _ _ => some op.resultTypes
  | .new _ cls _ =>
      match a.known.classReference? site p.offset cls with
      | some types => some types
      | none => a.deduceWith site lookup p cls
  | .clone _ object => a.deduceWith site lookup p object
  | .closure .. | .arrow .. => some (TypeList.single ⟨"Closure", "\\Closure"⟩)
  | .call _ (.function (.name r)) _ => some (a.functionTypes (site.contextAt p.offset) r.text)
  | .call _ (.method nullSafe object (.named r)) _ => do
      let owners ← a.deduceWith site lookup p object
      return (a.memberTypes (.method r.text) owners).skipping nullSafe
  | .call _ (.static cls (.named r)) _ => do
      let owners ←
        match a.known.classReference? site p.offset cls with
        | some types => some types
        | none => a.deduceWith site lookup p cls
      return a.memberTypes (.method r.text) owners
  | .property _ nullSafe object (.named r) => do
      let owners ← a.deduceWith site lookup p object
      return (a.memberTypes (.property r.text) owners).skipping nullSafe
  | .staticProperty _ cls (.var _ name) => do
      let owners ←
        match a.known.classReference? site p.offset cls with
        | some types => some types
        | none => a.deduceWith site lookup p cls
      return a.memberTypes (.property name) owners
  | .classConstant _ cls (.named r) =>
      if foldEq r.text "class" then some (TypeList.keyword "string")
      else do
        let owners ←
          match a.known.classReference? site p.offset cls with
          | some types => some types
          | none => a.deduceWith site lookup p cls
        return a.memberTypes (.constant r.text) owners
  | .constant r =>
      match constantType? r.text with
      | some word => some (TypeList.keyword word)
      | none => some (a.constantTypes (site.contextAt p.offset) r.text)
  | .literal span value => some (Expr.literal span value).literalTypes
  | .array span form slots => some (Expr.array span form slots).literalTypes
  | .unary span op operand => some (Expr.unary span op operand).literalTypes
  | _ => some TypeList.empty

/-- The types of the middle operand of a conditional. -/
def deduceYes (a : Atlas) (site : Site) (lookup : String → Point → Option TypeList) (p : Point) :
    Option Expr → Option (Option TypeList)
  | none => some none
  | some yes => some <$> a.deduceWith site lookup p yes

/-- The types of the values of arms, in their order. -/
def deduceArms (a : Atlas) (site : Site) (lookup : String → Point → Option TypeList)
    (p : Point) : List (Arm Expr) → Option TypeList
  | [] => some TypeList.empty
  | ⟨_, value⟩ :: rest => do
      let types ← a.deduceWith site lookup p value
      return types.append (← a.deduceArms site lookup p rest)

end

/-- The types of an expression, given the types of variables.  A question that is deeper than
allowed has no answer. -/
def answerWith (a : Atlas) (site : Site) (lookup : String → Point → Option TypeList) (e : Expr)
    (p : Point) : Option TypeList :=
  if a.maxDepth < p.depth then some TypeList.empty else a.deduceWith site lookup p e

/-- The candidates of a variable at a position, given the types of variables. -/
def variableWith (a : Atlas) (site : Site) (lookup : String → Point → Option TypeList)
    (var : String) (p : Point) : Option TypeList :=
  Lookup.types ⟨a.known, site, var, a.answerWith site lookup⟩ p

/-- The candidates of a variable in a number of nested look-ups; `none` if that is too few. -/
def variableIn (a : Atlas) (site : Site) : (steps : Nat) → String → Point → Option TypeList
  | 0, _, _ => none
  | steps + 1, var, p => a.variableWith site (a.variableIn site steps) var p

/-- The types of an expression in a number of nested look-ups; `none` if that is too few. -/
def deduceIn (a : Atlas) (site : Site) (steps : Nat) (e : Expr) (p : Point) : Option TypeList :=
  a.answerWith site (a.variableIn site steps) e p

/-- Look-ups that are enough, unless one asks for itself: at one depth, first some variable is asked
for and then every variable of the document at most once. -/
def stepsFor (a : Atlas) (doc : Document) : Nat := (a.maxDepth + 1) * (doc.vars.length + 1)

/-- The types of an expression at an offset of a document; `none` if the question does not end. -/
def deduce? (a : Atlas) (doc : Document) (offset : Nat) (e : Expr) : Option TypeList :=
  a.deduceIn (a.siteAt doc offset) (a.stepsFor doc) e ⟨offset, 0⟩

/-- The types of an expression at an offset of a document.  A question that does not end has no
answer. -/
def deduce (a : Atlas) (doc : Document) (offset : Nat) (e : Expr) : TypeList :=
  (a.deduce? doc offset e).getD TypeList.empty

/-- The types of the expression of a statement. -/
def deduceStatement (a : Atlas) (doc : Document) (offset : Nat) :
    Stmt → Except NodeError TypeList
  | .expression _ e =>
      match a.deduce? doc offset e with
      | some types => .ok types
      | none => .error .endless
  | _ => .error .notExpression

/-- A document with an expression as its only statement. -/
def snippet (path expression : String) : Document :=
  let text := Text.dropTrailing ';' (Text.trim expression.toList)
  Document.ofText path ("<?php ".toList ++ text ++ [';'])

/-- The types of a written expression as if it stood at an offset of a document. -/
def deduceText (a : Atlas) (doc : Document) (offset : Nat) (expression : String) :
    Except NodeError TypeList :=
  match (snippet doc.path expression).statements.getLast? with
  | some s => a.deduceStatement doc offset s
  | none => .error .notExpression

end Atlas
end PhpAtlas
