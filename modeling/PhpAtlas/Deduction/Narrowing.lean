import PhpAtlas.Signature

/-!
# What a condition says about a variable

A condition, read for one truth value, says at most one thing about a variable: that it is an
instance of classes, that it has builtin types, that it is `null`, or that it is not.  Negation
flips the truth value.  Conjunction gathers what both operands say; under a disjunction both
have to say something.

## Main definitions

* `Narrowing` — what is said about a variable.
* `Narrowing.and`, `Narrowing.or`, `Narrowing.apply` — how it combines and what it does.
* `Lookup` — the variable that is looked up, and how other expressions are typed.
* `Lookup.narrowing` — what a condition says.
* `Lookup.narrowInside` — what the conditions around a position inside an expression say.
-/

namespace PhpAtlas

/-- What a condition says about a variable. -/
inductive Narrowing
  /-- Nothing. -/
  | any
  /-- It is an instance of one of these. -/
  | only (types : TypeList)
  /-- It has one of these builtin types; matching candidates are kept. -/
  | builtin (types : TypeList)
  | notNull
  | null

namespace Narrowing

/-- The candidates that remain. -/
def apply (types : TypeList) : Narrowing → TypeList
  | any => types
  | only ts => ts
  | builtin ts =>
      let kept := types.filter fun t => ts.contains t.full
      if kept.isEmpty then ts else kept
  | notNull => types.withoutNull
  | null => TypeList.keyword "null"

/-- Both hold.  Classes are gathered, and a type wins over "not null". -/
def and : Narrowing → Narrowing → Narrowing
  | any, right => right
  | only a, only b => only (a.append b)
  | notNull, only b => only b
  | notNull, builtin b => builtin b
  | left, _ => left

/-- One of two holds, which says something only if both do. -/
def or : Narrowing → Narrowing → Narrowing
  | only a, only b | only a, builtin b | builtin a, only b => only (a.append b)
  | builtin a, builtin b => builtin (a.append b)
  | only a, null | null, only a => only (a.push (TypeRef.keyword "null"))
  | builtin a, null | null, builtin a => builtin (a.push (TypeRef.keyword "null"))
  | null, null => null
  | notNull, notNull => notNull
  | _, _ => any

/-- Whether a variable is `null`. -/
def ofNull : Bool → Narrowing
  | true => null
  | false => notNull

/-- Candidates for an instance; without candidates nothing is said. -/
def ofTypes (types : TypeList) : Narrowing := if types.isEmpty then any else only types

end Narrowing

/-! ### The parts of conditions -/

/-- The part that an operator plays in a condition. -/
inductive Connective
  | conjunction
  | disjunction
  | instanceTest
  /-- Equality, or with `false` inequality. -/
  | equality (positive : Bool)
  | other

/-- The part that an operator plays; the two forms of `and` and `or` play the same. -/
def BinaryOp.connective : BinaryOp → Connective
  | .and | .lowAnd => .conjunction
  | .or | .lowOr => .disjunction
  | .instanceOf => .instanceTest
  | .identical | .equal => .equality true
  | .notIdentical | .notEqual | .angledNotEqual => .equality false
  | _ => .other

/-- Whether an expression is the constant `null`. -/
def Expr.isNullLiteral : Expr → Bool
  | .literal _ .null => true
  | .constant r => foldEq r.text "null"
  | .paren _ inner => inner.isNullLiteral
  | _ => false

/-- The expression in a slot. -/
def Slot.value? {ε : Type} : Slot ε → Option ε
  | .missing => none
  | .value e | .pair _ e | .spread e | .named _ e => some e

/-- The builtin types that a function tests for. -/
def testedTypes : String → List String
  | "is_array" => ["array"]
  | "is_bool" => ["bool"]
  | "is_callable" => ["callable"]
  | "is_float" | "is_double" => ["float"]
  | "is_int" | "is_integer" | "is_long" => ["int"]
  | "is_string" => ["string"]
  | "is_object" => ["object"]
  | "is_resource" => ["resource"]
  | "is_iterable" => ["iterable"]
  | "is_numeric" => ["int", "float", "string"]
  | "is_scalar" => ["int", "float", "string", "bool"]
  | _ => []

/-- What the result of a function says about its argument. -/
def testNarrowing (function : String) (truth : Bool) : Narrowing :=
  let name := fold (String.ofList (Text.dropLeading Name.separator function.toList))
  if name == "is_null" then Narrowing.ofNull truth
  else
    match testedTypes name, truth with
    | t :: ts, true => .builtin (TypeList.ofList ((t :: ts).map TypeRef.keyword))
    | _, _ => .any

/-- Whether two operands are a variable and `null`. -/
def comparesNull (name : String) (left right : Expr) : Bool :=
  (left.varName? == some name && right.isNullLiteral) ||
    (right.varName? == some name && left.isNullLiteral)

/-! ### Conditions on a variable -/

/-- A position in a document, and how many questions led to it. -/
structure Point where
  offset : Nat
  depth : Nat
  deriving DecidableEq, Repr

namespace Point

/-- Whether the position lies in a range, both ends included. -/
def within (p : Point) (span : Span) : Bool := span.holds p.offset

/-- Another position, one question deeper. -/
def deeper (p : Point) (offset : Nat) : Point := ⟨offset, p.depth + 1⟩

/-- A position behind every document. -/
def later (p : Point) : Point := p.deeper 4294967295

end Point

/-- The look-up of one variable.  The types of an expression at a position are asked for; `none`
means that the question could not be answered in the steps that were left. -/
structure Lookup where
  known : Known
  site : Site
  /-- The variable, with its `$`. -/
  var : String
  ask : Expr → Point → Option TypeList

/-- The class around a place as a type. -/
def Site.classType (s : Site) : TypeList :=
  match s.cls with
  | some c => TypeList.single ⟨Name.short c.full, c.full⟩
  | none => TypeList.empty

/-- The parent of the class around a place as a type. -/
def Site.parentType (s : Site) : TypeList :=
  match s.cls.bind (·.parent) with
  | some p => TypeList.single ⟨Name.short p, p⟩
  | none => TypeList.empty

/-- The types that a class reference names by itself. -/
def Known.classReference? (known : Known) (site : Site) (offset : Nat) : Expr → Option TypeList
  | .name r => some (TypeList.single (known.resolveType (site.contextAt offset) site.cls r.text))
  | .self _ | .static _ => some site.classType
  | .parent _ => some site.parentType
  | _ => none

namespace Lookup

/-- The types that a class reference stands for. -/
def classTypes (l : Lookup) (p : Point) (cls : Expr) : Option TypeList :=
  match l.known.classReference? l.site p.offset cls with
  | some types => some types
  | none => l.ask cls p

/-- What an instance test says. -/
def instanceNarrowing (l : Lookup) (p : Point) (left right : Expr) (truth : Bool) :
    Option Narrowing :=
  if truth && left.varName? == some l.var then (l.classTypes p right).map Narrowing.ofTypes
  else some .any

/-- What a comparison says. -/
def equalityNarrowing (l : Lookup) (left right : Expr) (isEqual : Bool) : Narrowing :=
  if comparesNull l.var left right then Narrowing.ofNull isEqual else .any

/-- What a condition with a given truth value says about the variable. -/
def narrowing (l : Lookup) (p : Point) : Expr → Bool → Option Narrowing
  | .paren _ inner, truth => l.narrowing p inner truth
  | .unary _ .not operand, truth => l.narrowing p operand (!truth)
  | .binary _ op left right, truth =>
      match op.connective with
      | .instanceTest => l.instanceNarrowing p left right truth
      | .equality positive => some (l.equalityNarrowing left right (positive == truth))
      | .conjunction => do
          let a ← l.narrowing p left truth
          let b ← l.narrowing p right truth
          return if truth then a.and b else a.or b
      | .disjunction => do
          let a ← l.narrowing p left truth
          let b ← l.narrowing p right truth
          return if truth then a.or b else a.and b
      | .other => some .any
  | .var _ name, truth => some (if name == l.var then Narrowing.ofNull (!truth) else .any)
  | .call _ (.function (.name r)) (slot :: _), truth =>
      some (if slot.value?.bind Expr.varName? == some l.var then testNarrowing r.text truth
        else .any)
  | _, _ => some .any

/-- Narrow candidates by a condition. -/
def assume (l : Lookup) (p : Point) (condition : Expr) (truth : Bool) (types : TypeList) :
    Option TypeList :=
  (l.narrowing p condition truth).map (·.apply types)

mutual

/-- Narrow candidates by the conditions between an expression and the position inside it. -/
def narrowInside (l : Lookup) (p : Point) : Expr → TypeList → Option TypeList
  | .paren span inner, types =>
      if p.within span then l.narrowInside p inner types else some types
  | .ternary span condition yes no, types =>
      if p.within span then
        if p.within condition.span then l.narrowInside p condition types
        else do
          match ← l.narrowYes p condition yes types with
          | some types => return types
          | none => l.narrowInside p no (← l.assume p condition false types)
      else some types
  | .binary span op left right, types =>
      if p.within span then
        match op.connective with
        | .conjunction =>
            if p.within right.span then do
              l.narrowInside p right (← l.assume p left true types)
            else l.narrowInside p left types
        | .disjunction =>
            if p.within right.span then do
              l.narrowInside p right (← l.assume p left false types)
            else l.narrowInside p left types
        | _ => do l.narrowInside p right (← l.narrowInside p left types)
      else some types
  | .assign span _ _ value, types =>
      if p.within span then l.narrowInside p value types else some types
  | .unary span _ operand, types =>
      if p.within span then l.narrowInside p operand types else some types
  | .select span _ arms, types =>
      if p.within span then l.narrowArms p arms types else some types
  | .call span (.function callee) slots, types | .call span (.method _ callee _) slots, types
  | .call span (.static callee _) slots, types =>
      if p.within span then do l.narrowSlots p slots (← l.narrowInside p callee types)
      else some types
  | .property span _ object _, types =>
      if p.within span then l.narrowInside p object types else some types
  | _, types => some types

/-- Narrow by the middle operand of a conditional, if the position lies in it. -/
def narrowYes (l : Lookup) (p : Point) (condition : Expr) :
    Option Expr → TypeList → Option (Option TypeList)
  | none, _ => some none
  | some yes, types =>
      if p.within yes.span then do
        return some (← l.narrowInside p yes (← l.assume p condition true types))
      else some none

/-- Narrow by the values of arms, one after the other. -/
def narrowArms (l : Lookup) (p : Point) : List (Arm Expr) → TypeList → Option TypeList
  | [], types => some types
  | ⟨_, value⟩ :: rest, types => do l.narrowArms p rest (← l.narrowInside p value types)

/-- Narrow by arguments, one after the other. -/
def narrowSlots (l : Lookup) (p : Point) : List (Slot Expr) → TypeList → Option TypeList
  | [], types => some types
  | .missing :: rest, types => l.narrowSlots p rest types
  | .value e :: rest, types | .pair _ e :: rest, types | .spread e :: rest, types
  | .named _ e :: rest, types => do l.narrowSlots p rest (← l.narrowInside p e types)

end

end Lookup
end PhpAtlas
