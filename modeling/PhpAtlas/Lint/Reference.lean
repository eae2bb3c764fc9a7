import PhpAtlas.Source.Tree

/-!
# The symbols that a document uses

Names are collected in the order in which they stand, from every place where a name is known to
stand for a symbol: parents and traits, native types, instances, static access, calls, constants,
and accesses to members of objects.

## Main definitions

* `Reference` — the use of a symbol.
* `Hint.references`, `Expr.references`, `Stmt.references` — the uses in a part of a document.
* `references` — the uses in statements.
-/

namespace PhpAtlas

/-- The use of a symbol. -/
inductive Reference
  | symbol (kind : SymbolKind) (ref : NameRef)
  /-- A call of a method of an object. -/
  | method (object : Expr) (ref : NameRef)
  /-- An access to a property of an object. -/
  | property (object : Expr) (ref : NameRef)

namespace Reference

/-- Names that are all those of classes. -/
def classes (names : List NameRef) : List Reference := names.map (symbol .classlike)

/-- The class that stands in front of a member, behind `new`, or behind `instanceof`. -/
def ofClass : Expr → List Reference
  | .name r => [symbol .classlike r]
  | _ => []

/-- The function that is called. -/
def ofCallee : Expr → List Reference
  | .name r => [symbol .function r]
  | _ => []

/-- The method that is called; a computed one is not looked for. -/
def ofMethod (object : Expr) : Selector Expr → List Reference
  | .named r => [method object r]
  | .computed _ => []

/-- The property that is accessed; a computed one is not looked for. -/
def ofProperty (object : Expr) : Selector Expr → List Reference
  | .named r => [property object r]
  | .computed _ => []

/-- A constant, unless its name is that of a literal. -/
def ofConstant (r : NameRef) : List Reference :=
  let bare := String.ofList (Text.dropLeading Name.separator r.text.toList)
  if foldMem bare ["true", "false", "null"] then [] else [symbol .constant r]

/-- The classes in the head of a declaration. -/
def ofHead {ε σ : Type} (d : ClassDecl ε σ) : List Reference :=
  match d.form with
  | .cls => classes d.parents ++ classes d.interfaces
  | .interface => classes d.parents
  | .trait => []
  | .enum _ => classes d.interfaces

end Reference

/-- The classes in a native type. -/
def Hint.references : Hint → List Reference
  | .name r => [.symbol .classlike r]
  | .keyword _ => []
  | .nullable h | .group h => h.references
  | .union a b | .intersection a b => a.references ++ b.references

/-- The classes in a native type that may be missing. -/
def hintReferences (h : Option Hint) : List Reference := (h.map Hint.references).getD []

/-- The classes in the type of a result. -/
def returnReferences (r : Option ReturnHint) : List Reference := hintReferences (r.map (·.hint))

open Reference

mutual

/-- The uses in an expression. -/
def Expr.references : Expr → List Reference
  | .paren _ e | .unary _ _ e | .trailing _ e | .clone _ e | .throw _ e | .yieldFrom _ e =>
      e.references
  | .assign _ _ a b | .pipe _ a b => a.references ++ b.references
  | .binary _ op a b =>
      a.references ++ ((if op = .instanceOf then ofClass b else []) ++ b.references)
  | .ternary _ condition yes no =>
      condition.references ++ (optionReferences yes ++ no.references)
  | .array _ .brackets slots | .array _ .keyword slots => slotReferences slots
  | .select _ subject arms => subject.references ++ armReferences arms
  | .new _ cls slots => ofClass cls ++ (cls.references ++ slotReferences slots)
  | .yield _ key value => optionReferences key ++ optionReferences value
  | .closure _ parameters _ returns ⟨_, inner⟩ =>
      parameterReferences parameters ++ (returnReferences returns ++ references inner)
  | .arrow _ parameters _ _ body => parameterReferences parameters ++ body.references
  | .call _ (.function f) slots => ofCallee f ++ (f.references ++ slotReferences slots)
  | .call _ (.method _ object selector) slots =>
      object.references ++ (ofMethod object selector ++ slotReferences slots)
  | .call _ (.static cls _) slots => ofClass cls ++ (cls.references ++ slotReferences slots)
  | .property _ _ object selector => object.references ++ ofProperty object selector
  | .staticProperty _ cls _ | .classConstant _ cls _ => ofClass cls ++ cls.references
  | .constant r => ofConstant r
  | _ => []

/-- The uses in an expression that may be missing. -/
def optionReferences : Option Expr → List Reference
  | none => []
  | some e => e.references

/-- The uses in several expressions. -/
def exprReferences : List Expr → List Reference
  | [] => []
  | e :: rest => e.references ++ exprReferences rest

/-- The uses in arguments or in elements of an array. -/
def slotReferences : List (Slot Expr) → List Reference
  | [] => []
  | .missing :: rest => slotReferences rest
  | .value e :: rest | .spread e :: rest | .named _ e :: rest =>
      e.references ++ slotReferences rest
  | .pair k e :: rest => k.references ++ (e.references ++ slotReferences rest)

/-- The uses in the values of a `match`; its conditions are not looked into. -/
def armReferences : List (Arm Expr) → List Reference
  | [] => []
  | ⟨_, value⟩ :: rest => value.references ++ armReferences rest

/-- The uses in the types and the default values of parameters. -/
def parameterReferences : List (Parameter Expr) → List Reference
  | [] => []
  | ⟨_, _, hint, _, _, _, default, _⟩ :: rest =>
      hintReferences hint ++ (optionReferences default ++ parameterReferences rest)

/-- The uses in the values of constants. -/
def itemReferences : List (Item Expr) → List Reference
  | [] => []
  | ⟨_, value⟩ :: rest => optionReferences value ++ itemReferences rest

/-- The uses in a statement. -/
def Stmt.references : Stmt → List Reference
  | .space _ _ _ inner => references inner
  | .block ⟨_, inner⟩ => references inner
  | .classlike ⟨span, form, modifiers, name, parents, interfaces, members⟩ =>
      ofHead (ClassDecl.mk span form modifiers name parents interfaces members) ++
        memberReferences members
  | .function ⟨_, _, _, parameters, returns, body⟩ =>
      parameterReferences parameters ++ (returnReferences returns ++ bodyReferences body)
  | .constants _ items => itemReferences items
  | .expression _ e => e.references
  | .ret _ value => optionReferences value
  | .echo _ values => exprReferences values
  | .cond _ branches => branchReferences branches
  | .eachLoop _ subject _ _ ⟨_, inner⟩ => subject.references ++ references inner
  | .forLoop _ initial _ _ ⟨_, inner⟩ => exprReferences initial ++ references inner
  | .whileLoop _ condition ⟨_, inner⟩ => condition.references ++ references inner
  | .doLoop _ ⟨_, inner⟩ condition => references inner ++ condition.references
  | .switch _ subject cases => subject.references ++ caseReferences cases
  | .tryCatch _ ⟨_, inner⟩ catches _ ensure =>
      references inner ++ (catchReferences catches ++ bodyReferences ensure)
  | _ => []

/-- The uses in statements. -/
def references : List Stmt → List Reference
  | [] => []
  | s :: rest => s.references ++ references rest

/-- The uses in a body that may be missing. -/
def bodyReferences : Option (Body Stmt) → List Reference
  | none => []
  | some ⟨_, inner⟩ => references inner

/-- The uses in the branches of an `if`. -/
def branchReferences : List (Branch Expr Stmt) → List Reference
  | [] => []
  | ⟨condition, ⟨_, inner⟩⟩ :: rest =>
      optionReferences condition ++ (references inner ++ branchReferences rest)

/-- The uses in cases; the values that are compared are not looked into. -/
def caseReferences : List (Branch Expr Stmt) → List Reference
  | [] => []
  | ⟨_, ⟨_, inner⟩⟩ :: rest => references inner ++ caseReferences rest

/-- The uses in `catch` clauses. -/
def catchReferences : List (Catch Stmt) → List Reference
  | [] => []
  | ⟨_, hint, _, ⟨_, inner⟩⟩ :: rest =>
      hint.references ++ (references inner ++ catchReferences rest)

/-- The uses in the members of a class; the default values of properties are not looked into. -/
def memberReferences : List (Member Expr Stmt) → List Reference
  | [] => []
  | .method ⟨_, _, _, parameters, returns, body⟩ :: rest =>
      parameterReferences parameters ++
        (returnReferences returns ++ (bodyReferences body ++ memberReferences rest))
  | .property _ _ hint _ _ :: rest => hintReferences hint ++ memberReferences rest
  | .constant _ _ _ items :: rest => itemReferences items ++ memberReferences rest
  | .traitUse _ names _ :: rest => classes names ++ memberReferences rest
  | .enumCase .. :: rest => memberReferences rest

end

end PhpAtlas
