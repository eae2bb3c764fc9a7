import PhpAtlas.Source.Document

/-!
# The variables of a document

The names of all variables that stand as expressions in a document, in their order and with
repetitions.

## Main definitions

* `Expr.vars`, `Stmt.vars` — the variables in a part of a document.
* `Document.vars` — those in the whole document.
-/

namespace PhpAtlas

mutual

/-- The variables in an expression. -/
def Expr.vars : Expr → List String
  | .var _ name => [name]
  | .paren _ e | .indirect _ e | .unary _ _ e | .trailing _ e | .clone _ e | .throw _ e
  | .yieldFrom _ e => e.vars
  | .template _ es | .construct _ _ es => exprVars es
  | .array _ _ slots => slotVars slots
  | .index _ base index => base.vars ++ optionVars index
  | .assign _ _ a b | .binary _ _ a b | .staticProperty _ a b | .pipe _ a b =>
      a.vars ++ b.vars
  | .ternary _ condition yes no => condition.vars ++ (optionVars yes ++ no.vars)
  | .select _ subject arms => subject.vars ++ armVars arms
  | .call _ callee slots => calleeVars callee ++ slotVars slots
  | .callable _ callee => calleeVars callee
  | .property _ _ e s | .classConstant _ e s => e.vars ++ selectorVars s
  | .new _ cls slots => cls.vars ++ slotVars slots
  | .newClass _ slots ⟨_, _, _, _, _, _, members⟩ => slotVars slots ++ memberVars members
  | .closure _ parameters _ _ ⟨_, inner⟩ => parameterVars parameters ++ stmtVars inner
  | .arrow _ parameters _ _ e => parameterVars parameters ++ e.vars
  | .yield _ key value => optionVars key ++ optionVars value
  | .literal .. | .name _ | .constant _ | .self _ | .static _ | .parent _ | .magic ..
  | .missing _ => []

/-- The variables in an expression that may be left out. -/
def optionVars : Option Expr → List String
  | none => []
  | some e => e.vars

/-- The variables in expressions. -/
def exprVars : List Expr → List String
  | [] => []
  | e :: rest => e.vars ++ exprVars rest

/-- The variables in the places of an array or of a list of arguments. -/
def slotVars : List (Slot Expr) → List String
  | [] => []
  | .missing :: rest => slotVars rest
  | .value e :: rest | .spread e :: rest | .named _ e :: rest => e.vars ++ slotVars rest
  | .pair k e :: rest => k.vars ++ (e.vars ++ slotVars rest)

/-- The variables in the arms of a match. -/
def armVars : List (Arm Expr) → List String
  | [] => []
  | ⟨conditions, value⟩ :: rest =>
      exprVars conditions ++ (value.vars ++ armVars rest)

/-- The variables in what selects a member. -/
def selectorVars : Selector Expr → List String
  | .named _ => []
  | .computed e => e.vars

/-- The variables in what is called. -/
def calleeVars : Callee Expr → List String
  | .function e => e.vars
  | .method _ e s | .static e s => e.vars ++ selectorVars s

/-- The variables in the default values of parameters. -/
def parameterVars : List (Parameter Expr) → List String
  | [] => []
  | ⟨_, _, _, _, _, _, default, _⟩ :: rest => optionVars default ++ parameterVars rest

/-- The variables in the values of items. -/
def itemVars : List (Item Expr) → List String
  | [] => []
  | ⟨_, value⟩ :: rest => optionVars value ++ itemVars rest

/-- The variables in a statement. -/
def Stmt.vars : Stmt → List String
  | .echoTag _ es | .echo _ es | .statics _ es | .global _ es | .unset _ es => exprVars es
  | .block ⟨_, inner⟩ | .space _ _ _ inner => stmtVars inner
  | .expression _ e => e.vars
  | .ret _ e | .jump _ e => optionVars e
  | .cond _ branches => branchVars branches
  | .whileLoop _ e ⟨_, inner⟩ => e.vars ++ stmtVars inner
  | .doLoop _ ⟨_, inner⟩ e => stmtVars inner ++ e.vars
  | .forLoop _ initial conditions steps ⟨_, inner⟩ =>
      exprVars initial ++ (exprVars conditions ++
        (exprVars steps ++ stmtVars inner))
  | .eachLoop _ subject key target ⟨_, inner⟩ =>
      subject.vars ++ (optionVars key ++ (target.vars ++ stmtVars inner))
  | .switch _ subject cases => subject.vars ++ branchVars cases
  | .tryCatch _ ⟨_, inner⟩ catches _ ensure =>
      stmtVars inner ++ (catchVars catches ++ bodyVars ensure)
  | .function d => routineVars d
  | .classlike ⟨_, _, _, _, _, _, members⟩ => memberVars members
  | .constants _ items => itemVars items
  | .declare _ body => bodyVars body
  | .openTag _ | .closeTag _ | .html _ | .empty _ | .use .. | .label _ | .goto _ => []

/-- The variables in statements. -/
def stmtVars : List Stmt → List String
  | [] => []
  | s :: rest => s.vars ++ stmtVars rest

/-- The variables in a body that may be left out. -/
def bodyVars : Option (Body Stmt) → List String
  | none => []
  | some ⟨_, inner⟩ => stmtVars inner

/-- The variables in branches or cases. -/
def branchVars : List (Branch Expr Stmt) → List String
  | [] => []
  | ⟨condition, ⟨_, inner⟩⟩ :: rest =>
      optionVars condition ++ (stmtVars inner ++ branchVars rest)

/-- The variables in `catch` clauses. -/
def catchVars : List (Catch Stmt) → List String
  | [] => []
  | ⟨_, _, _, ⟨_, inner⟩⟩ :: rest => stmtVars inner ++ catchVars rest

/-- The variables in a function, a method or an accessor. -/
def routineVars : FunctionDecl Expr Stmt → List String
  | ⟨_, _, _, parameters, _, body⟩ => parameterVars parameters ++ bodyVars body

/-- The variables in functions. -/
def routinesVars : List (FunctionDecl Expr Stmt) → List String
  | [] => []
  | d :: rest => routineVars d ++ routinesVars rest

/-- The variables in a member of a classlike. -/
def Member.vars : Member Expr Stmt → List String
  | .method d => routineVars d
  | .property _ _ _ items accessors => itemVars items ++ routinesVars accessors
  | .constant _ _ _ items => itemVars items
  | .enumCase _ ⟨_, value⟩ => optionVars value
  | .traitUse .. => []

/-- The variables in the members of a classlike. -/
def memberVars : List (Member Expr Stmt) → List String
  | [] => []
  | m :: rest => m.vars ++ memberVars rest

end

/-- The variables in a document. -/
def Document.vars (d : Document) : List String := stmtVars d.statements

end PhpAtlas
