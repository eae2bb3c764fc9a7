import PhpAtlas.Deduction.Annotation

/-!
# The candidates of a variable at a position

The statements of the scope around the position are walked in order, up to the position.  An
assignment replaces the candidates, or adds to them where it may not have run.  Branches, loops
and conditionals narrow the candidates inside the branch that holds the position and nowhere else.

The body of a closure is a scope of its own, into which candidates flow through captures: a capture
by value takes the candidates where the closure is made, and a capture by reference also those
assigned behind it.  An arrow function takes all candidates.

## Main definitions

* `Lookup.walk` — the candidates behind statements.
* `Lookup.walkStmt` — the candidates behind one statement.
* `Lookup.closureIn` — the candidates in the closure that holds the position.
* `Lookup.scopeAt` — the innermost function, or the namespace, around the position.
* `Lookup.types` — the candidates at the position.
-/

namespace PhpAtlas

/-- The candidates behind statements. -/
structure Walked where
  types : TypeList
  /-- Whether the position lies in a closure, whose scope has answered. -/
  inClosure : Bool

/-- Candidates from a closure. -/
inductive Inner
  /-- The position lies in no closure. -/
  | outside
  /-- The candidates in a closure, which may have captured the variable by reference. -/
  | inside (types : TypeList) (byRef : Bool)

namespace Lookup

/-- Go on behind a statement. -/
def goOn (types : TypeList) : Walked := ⟨types, false⟩

/-- Whether statements in a range may not have run: those before the position, and all those in a
range that may not have run. -/
def mayNotRun (p : Point) (conditional : Bool) (span : Span) : Bool :=
  conditional || !p.within span

/-- Narrow candidates by conditions that did not hold. -/
def assumeFailed (l : Lookup) (p : Point) (failed : List Expr) (types : TypeList) :
    Option TypeList :=
  failed.foldlM (fun types condition => l.assume p condition false types) types

/-- Narrow candidates by the conditions in front of a branch and its own. -/
def assumeBranch (l : Lookup) (p : Point) (failed : List Expr) (own : Option Expr)
    (types : TypeList) : Option TypeList := do
  let types ← l.assumeFailed p failed types
  match own with
  | some condition => l.assume p condition true types
  | none => return types

/-- The candidates inside the condition of a branch, if the position lies in one. -/
def inConditions (l : Lookup) (p : Point) (types : TypeList) :
    (failed : List Expr) → List (Branch Expr Stmt) → Option (Option TypeList)
  | _, [] => some none
  | failed, b :: rest =>
      match b.condition with
      | none => l.inConditions p types failed rest
      | some condition =>
          if p.within condition.span then do
            return some (← l.narrowInside p condition (← l.assumeFailed p failed types))
          else l.inConditions p types (failed ++ [condition]) rest

/-- The position lies in the first condition. -/
def firstCondition? (p : Point) : List (Branch Expr Stmt) → Option Expr
  | ⟨some condition, _⟩ :: _ => if p.within condition.span then some condition else none
  | _ => none

/-- The candidates inside a loop over elements: the target is an element and the key is a key. -/
def enterLoop (l : Lookup) (p : Point) (span : Span) (subject : Expr) (key : Option Expr)
    (target : Expr) (types : TypeList) : Option TypeList :=
  if target.varName? == some l.var then
    match l.annotation? span.start with
    | some new => some new
    | none => (l.ask subject (p.deeper span.start)).map TypeList.elements
  else if key.bind Expr.varName? == some l.var then
    some (TypeList.ofList [TypeRef.keyword "int", TypeRef.keyword "string"])
  else some types

/-- The candidates behind the first part of a counting loop. -/
def initialized (l : Lookup) (p : Point) (conditional : Bool) (initial : List Expr)
    (types : TypeList) : Option TypeList :=
  initial.foldlM (fun types e =>
    if e.span.stop ≤ p.offset then l.assigned p e.span.start conditional types e
    else some types) types

/-- The candidates of a variable that a parameter binds. -/
def parameterTypes? (l : Lookup) (start : Nat) (parameters : List (Parameter Expr)) :
    Option TypeList :=
  ((l.known.parameters l.site (l.site.doc.docFor start none) parameters).find?
    (·.name == l.var)).map (·.types)

/-- The candidates at the start of a closure, and whether they come by reference. -/
def captured (l : Lookup) (start : Nat) (parameters : List (Parameter Expr))
    (captures : List Capture) (outer : TypeList) : TypeList × Bool :=
  match l.parameterTypes? start parameters with
  | some types => (types, false)
  | none =>
      match captures.find? (·.name == l.var) with
      | some capture => (outer, capture.byRef)
      | none => (TypeList.empty, false)

mutual

/-- The candidates behind statements.  With `conditional` they may not have run. -/
def walk (l : Lookup) : List Stmt → Point → Bool → TypeList → Option Walked
  | [], _, _, types => some (goOn types)
  | s :: rest, p, conditional, types =>
      if p.offset ≤ s.span.start then some (goOn types)
      else do
        let types := l.annotate s.span.start conditional types
        let inner ← if p.within s.span then l.closureInStmt s p types else some .outside
        match inner with
        | .inside types false => return ⟨types, true⟩
        | .inside types true =>
            -- what is assigned behind the closure reaches it through the reference
            return ⟨(← l.walk rest p.later true types).types, true⟩
        | .outside =>
            let w ← l.walkStmt s p conditional types
            if w.inClosure then return w else l.walk rest p conditional w.types

/-- The candidates behind one statement. -/
def walkStmt (l : Lookup) : Stmt → Point → Bool → TypeList → Option Walked
  | .expression span e, p, conditional, types =>
      if p.offset < e.span.stop then (l.narrowInside p e types).map goOn
      else (l.assigned p span.start conditional types e).map goOn
  | .ret _ (some e), p, _, types => (l.narrowInside p e types).map goOn
  | .block ⟨span, inner⟩, p, conditional, types =>
      l.walk inner p (mayNotRun p conditional span) types
  | .space _ _ _ inner, p, conditional, types => l.walk inner p conditional types
  | .cond _ branches, p, conditional, types =>
      match firstCondition? p branches with
      | some condition => (l.narrowInside p condition types).map goOn
      | none => do
          match ← l.inBranch [] branches p conditional types with
          | some w => return w
          | none =>
              match ← l.inConditions p types [] branches with
              | some types => return goOn types
              | none => l.behindBranches branches p types
  | .eachLoop span subject key target ⟨bodySpan, inner⟩, p, conditional, types => do
      let types ←
        if p.within bodySpan then l.enterLoop p span subject key target types else some types
      l.walk inner p (mayNotRun p conditional bodySpan) types
  | .whileLoop _ condition ⟨bodySpan, inner⟩, p, conditional, types => do
      let types ←
        if p.within bodySpan then l.assume p condition true types
        else if p.within condition.span then l.narrowInside p condition types
        else some types
      l.walk inner p (mayNotRun p conditional bodySpan) types
  | .doLoop _ ⟨bodySpan, inner⟩ _, p, conditional, types =>
      l.walk inner p (mayNotRun p conditional bodySpan) types
  | .forLoop _ initial _ _ ⟨bodySpan, inner⟩, p, conditional, types => do
      let types ← l.initialized p conditional initial types
      l.walk inner p (mayNotRun p conditional bodySpan) types
  | .switch _ _ cases, p, conditional, types => l.walkCases cases p conditional types
  | .tryCatch _ ⟨bodySpan, inner⟩ catches ensureStart ensure, p, conditional, types =>
      if p.within bodySpan then l.walk inner p conditional types
      else do
        let w ← l.walk inner p true types
        if w.inClosure then return w
        else
          match ← l.walkCatches catches p conditional w.types with
          | .error w => return w
          | .ok types =>
              if ensureStart < p.offset then l.walkEnsure ensure p conditional types
              else return goOn types
  | _, _, _, types => some (goOn types)

/-- The candidates in the branch that holds the position, behind the conditions that failed. -/
def inBranch (l : Lookup) : (failed : List Expr) → List (Branch Expr Stmt) → Point → Bool →
    TypeList → Option (Option Walked)
  | _, [], _, _, _ => some none
  | failed, ⟨own, ⟨span, inner⟩⟩ :: rest, p, conditional, types =>
      if p.within span then do
        return some (← l.walk inner p conditional (← l.assumeBranch p failed own types))
      else l.inBranch (failed ++ own.toList) rest p conditional types

/-- The candidates behind branches that may have run. -/
def behindBranches (l : Lookup) : List (Branch Expr Stmt) → Point → TypeList → Option Walked
  | [], _, types => some (goOn types)
  | ⟨_, ⟨span, inner⟩⟩ :: rest, p, types =>
      if span.start < p.offset then do
        let w ← l.walk inner p true types
        if w.inClosure then return w else l.behindBranches rest p w.types
      else l.behindBranches rest p types

/-- The candidates behind the cases up to the position. -/
def walkCases (l : Lookup) : List (Branch Expr Stmt) → Point → Bool → TypeList → Option Walked
  | [], _, _, types => some (goOn types)
  | ⟨_, ⟨span, inner⟩⟩ :: rest, p, conditional, types =>
      if p.offset ≤ span.start then some (goOn types)
      else if p.within span then l.walk inner p conditional types
      else do
        let w ← l.walk inner p true types
        if w.inClosure then return w else l.walkCases rest p conditional w.types

/-- The candidates behind `catch` clauses, or those where the walk ends. -/
def walkCatches (l : Lookup) : List (Catch Stmt) → Point → Bool → TypeList →
    Option (Except Walked TypeList)
  | [], _, _, types => some (.ok types)
  | ⟨span, hint, binding, ⟨_, inner⟩⟩ :: rest, p, conditional, types =>
      if p.offset ≤ span.start then some (.error (goOn types))
      else if p.within span then
        let types :=
          if binding == some l.var then
            l.known.resolveHint (l.site.contextAt p.offset) l.site.cls hint
          else types
        (l.walk inner p conditional types).map .error
      else do
        let w ← l.walk inner p true types
        if w.inClosure then return .error w else l.walkCatches rest p conditional w.types

/-- The candidates behind a `finally` clause. -/
def walkEnsure (l : Lookup) : Option (Body Stmt) → Point → Bool → TypeList → Option Walked
  | none, _, _, types => some (goOn types)
  | some ⟨span, inner⟩, p, conditional, types =>
      l.walk inner p (mayNotRun p conditional span) types

/-- The candidates in the closure of a statement that holds the position. -/
def closureInStmt (l : Lookup) : Stmt → Point → TypeList → Option Inner
  | .expression _ e, p, types | .ret _ (some e), p, types | .whileLoop _ e _, p, types
  | .eachLoop _ e _ _ _, p, types | .switch _ e _, p, types
  | .cond _ (⟨some e, _⟩ :: _), p, types => l.closureIn e p types
  | .echo _ values, p, types => l.closureInAll values p types
  | _, _, _ => some .outside

/-- The candidates in the outermost closure of an expression whose body holds the position. -/
def closureIn (l : Lookup) : Expr → Point → TypeList → Option Inner
  | .closure span parameters captures _ ⟨bodySpan, inner⟩, p, types =>
      if p.within span && p.within bodySpan then do
        let (start, byRef) := l.captured span.start parameters captures types
        let w ← l.walk inner p false start
        return .inside (if w.inClosure then w.types else l.override p bodySpan.start w.types) byRef
      else some .outside
  | .arrow span parameters _ arrow body, p, types =>
      if p.within span && p.within ⟨arrow, body.span.stop⟩ then do
        let start := (l.parameterTypes? span.start parameters).getD types
        match ← l.closureIn body p start with
        | .inside types _ => return .inside types false
        | .outside => return .inside (← l.narrowInside p body start) false
      else some .outside
  | .paren span e, p, types | .unary span _ e, p, types | .trailing span e, p, types
  | .property span _ e _, p, types | .staticProperty span e _, p, types
  | .classConstant span e _, p, types | .yieldFrom span e, p, types | .throw span e, p, types
  | .clone span e, p, types =>
      if p.within span then l.closureIn e p types else some .outside
  | .assign span _ a b, p, types | .binary span _ a b, p, types | .pipe span a b, p, types =>
      if p.within span then do
        match ← l.closureIn a p types with
        | .outside => l.closureIn b p types
        | found => return found
      else some .outside
  | .ternary span condition yes no, p, types =>
      if p.within span then do
        match ← l.closureIn condition p types with
        | .outside =>
            match ← l.closureInOption yes p types with
            | .outside => l.closureIn no p types
            | found => return found
        | found => return found
      else some .outside
  | .yield span key value, p, types =>
      if p.within span then do
        match ← l.closureInOption key p types with
        | .outside => l.closureInOption value p types
        | found => return found
      else some .outside
  | .call span (.function e) slots, p, types | .call span (.method _ e _) slots, p, types
  | .call span (.static e _) slots, p, types =>
      if p.within span then do
        match ← l.closureIn e p types with
        | .outside => l.closureInSlots slots p types
        | found => return found
      else some .outside
  | .new span _ slots, p, types | .array span .brackets slots, p, types
  | .array span .keyword slots, p, types =>
      if p.within span then l.closureInSlots slots p types else some .outside
  | .select span subject arms, p, types =>
      if p.within span then do
        match ← l.closureIn subject p types with
        | .outside => l.closureInArms arms p types
        | found => return found
      else some .outside
  | _, _, _ => some .outside

/-- The closure around a place in an expression that may be missing. -/
def closureInOption (l : Lookup) : Option Expr → Point → TypeList → Option Inner
  | none, _, _ => some .outside
  | some e, p, types => l.closureIn e p types

/-- The closure around a place in one of several expressions. -/
def closureInAll (l : Lookup) : List Expr → Point → TypeList → Option Inner
  | [], _, _ => some .outside
  | e :: rest, p, types => do
      match ← l.closureIn e p types with
      | .outside => l.closureInAll rest p types
      | found => return found

/-- The closure around a place in a value of a `match`; its conditions are not looked into. -/
def closureInArms (l : Lookup) : List (Arm Expr) → Point → TypeList → Option Inner
  | [], _, _ => some .outside
  | ⟨_, e⟩ :: rest, p, types => do
      match ← l.closureIn e p types with
      | .outside => l.closureInArms rest p types
      | found => return found

/-- The closure around a place in an argument or an element of an array. -/
def closureInSlots (l : Lookup) : List (Slot Expr) → Point → TypeList → Option Inner
  | [], _, _ => some .outside
  | .missing :: rest, p, types => l.closureInSlots rest p types
  | .value e :: rest, p, types | .spread e :: rest, p, types | .named _ e :: rest, p, types => do
      match ← l.closureIn e p types with
      | .outside => l.closureInSlots rest p types
      | found => return found
  | .pair k e :: rest, p, types => do
      match ← l.closureIn k p types with
      | .outside =>
          match ← l.closureIn e p types with
          | .outside => l.closureInSlots rest p types
          | found => return found
      | found => return found

end

/-! ### The scope around a position -/

/-- The scope around a position. -/
inductive Enclosing
  /-- The statements of a namespace or of the file, and where they start. -/
  | statements (start : Nat) (inner : List Stmt)
  /-- A function or a method whose body holds the position. -/
  | routine (decl : FunctionDecl Expr Stmt) (body : Body Stmt)
  /-- Inside a declaration, and outside of its bodies. -/
  | nowhere

/-- A function whose body holds the position. -/
def routine? (p : Point) (decl : FunctionDecl Expr Stmt) : Option Enclosing :=
  match decl.body with
  | some body => if p.within body.span then some (.routine decl body) else none
  | none => none

/-- A method whose body holds the position. -/
def methodAt? (p : Point) : Member Expr Stmt → Option Enclosing
  | .method decl => routine? p decl
  | _ => none

/-- The scope around a position: the first statement that holds it decides, and namespaces are
entered. -/
def scopeAt (p : Point) (start : Nat) (all : List Stmt) : List Stmt → Enclosing
  | [] => .statements start all
  | .space span _ _ inner :: rest =>
      if p.within span then scopeAt p span.start inner inner else scopeAt p start all rest
  | .function decl :: rest =>
      if p.within decl.span then (routine? p decl).getD .nowhere else scopeAt p start all rest
  | .classlike decl :: rest =>
      if p.within decl.span then (decl.members.findSome? (methodAt? p)).getD .nowhere
      else scopeAt p start all rest
  | s :: rest =>
      if p.within s.span then .statements start all else scopeAt p start all rest

/-- The candidates at the position behind statements that start a scope. -/
def inScope (l : Lookup) (p : Point) (start : Nat) (inner : List Stmt) (types : TypeList) :
    Option TypeList := do
  let w ← l.walk inner p false types
  return if w.inClosure then w.types else l.override p start w.types

/-- The candidates of the variable at a position. -/
def types (l : Lookup) (p : Point) : Option TypeList :=
  match scopeAt p 0 l.site.doc.statements l.site.doc.statements with
  | .statements start inner => l.inScope p start inner TypeList.empty
  | .routine decl body =>
      l.inScope p body.span.start body.statements
        ((l.parameterTypes? decl.span.start decl.parameters).getD TypeList.empty)
  | .nowhere => some TypeList.empty

end Lookup
end PhpAtlas
