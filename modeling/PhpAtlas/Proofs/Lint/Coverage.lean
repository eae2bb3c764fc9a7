import Mathlib.Logic.Relation
import PhpAtlas.Lint.Basic
import PhpAtlas.Proofs.Source.Parts

/-!
# Which uses of classes are examined

A class can be used at many places of a document.  Those that are reported when the class is unknown
are found by going down the tree, and some parts of the tree are not entered.  Here the places are
said node by node: the names of classes at a node, those of them that are examined, and the parts
that are entered.  What is collected is what these say along a path from the top of the document, so
that a use is missed exactly if something on its path is left out.

## Main definitions

* `Node.classUses` — the names that stand for classes at a node.
* `Node.examinedUses`, `Node.examined` — the names that are collected there, and the parts that are
  entered.
* `Document.Uses`, `Document.Examines`, `Document.Overlooks` — uses of classes in a document.

## Main results

* `Node.mem_references_iff` — what is collected at a node, from its parts.
* `Document.mem_references_iff` — what is collected from a document.
* `Document.uses_iff` — each use is examined or overlooked.
* `classes_collected_iff_examined` — the unknown classes that are reported.
-/

namespace PhpAtlas

/-! ### Names of classes -/

/-- The names in a native type. -/
def Hint.names : Hint → List NameRef
  | .name r => [r]
  | .keyword _ => []
  | .nullable h | .group h => h.names
  | .union a b | .intersection a b => a.names ++ b.names

/-- The names in an optional native type. -/
def hintNames (h : Option Hint) : List NameRef := h.toList.flatMap Hint.names

/-- The names in the types of parameters. -/
def parameterNames (ps : List (Parameter Expr)) : List NameRef := ps.flatMap (hintNames ·.hint)

/-- The names in the type of a result. -/
def returnNames (r : Option ReturnHint) : List NameRef := hintNames (r.map (·.hint))

/-- The name of a class that stands where a class is expected. -/
def Expr.className? : Expr → Option NameRef
  | .name r => some r
  | _ => none

/-- The classes in the head of a declaration. -/
def ClassDecl.headNames (d : ClassDecl Expr Stmt) : List NameRef :=
  match d.form with
  | .cls => d.parents ++ d.interfaces
  | .interface => d.parents
  | .trait => []
  | .enum _ => d.interfaces

namespace Node

/-- The names that stand for classes at a node: behind `new` and `instanceof`, in front of static
members, in signatures, in `catch` clauses, in heads of declarations and in types of members. -/
def classUses : Node → List NameRef
  | expr (.binary _ op _ cls) => if op = .instanceOf then cls.className?.toList else []
  | expr (.new _ cls _) | expr (.call _ (.static cls _) _) | expr (.callable _ (.static cls _))
  | expr (.staticProperty _ cls _) | expr (.classConstant _ cls _) => cls.className?.toList
  | expr (.newClass _ _ d) | stmt (.classlike d) => d.headNames
  | expr (.closure _ parameters _ returns _) | expr (.arrow _ parameters returns _ _) =>
      parameterNames parameters ++ returnNames returns
  | stmt (.function d) | member (.method d) | routine d =>
      parameterNames d.parameters ++ returnNames d.returns
  | clause c => c.hint.names
  | member (.property _ _ hint _ _) | member (.constant _ _ hint _) => hintNames hint
  | member (.traitUse _ names _) => names
  | _ => []

/-- The names of classes that are collected at a node: all but the type of the result of an arrow
function, the class of a static callable, the head of a class without a name, and the type of a
constant. -/
def examinedUses : Node → List NameRef
  | expr (.arrow _ parameters _ _ _) => parameterNames parameters
  | expr (.callable ..) | expr (.newClass ..) | member (.constant ..) => []
  | n => n.classUses

/-- The parts of a node that are entered. -/
def examined : Node → List Node
  | expr (.template ..) | expr (.indirect ..) | expr (.index ..) | expr (.callable ..)
  | expr (.newClass ..) | expr (.construct ..) | expr (.array _ .list _) => []
  | expr (.select _ subject arms) => expr subject :: arms.map (expr ·.value)
  | expr (.call _ (.method _ e _) slots) | expr (.call _ (.static e _) slots) =>
      expr e :: (slots.flatMap Slot.exprs).map expr
  | expr (.property _ _ e _) | expr (.staticProperty _ e _) | expr (.classConstant _ e _) =>
      [expr e]
  | stmt (.echoTag ..) | stmt (.statics ..) | stmt (.global ..) | stmt (.unset ..)
  | stmt (.jump ..) | stmt (.declare ..) => []
  | stmt (.forLoop _ initial _ _ b) => initial.map expr ++ [body b]
  | stmt (.eachLoop _ subject _ _ b) => [expr subject, body b]
  | case b => b.body.statements.map stmt
  | member (.property ..) | member (.enumCase ..) => []
  | n => n.parts

/-- What is collected at a node. -/
def references : Node → List Reference
  | expr e => e.references
  | stmt s => s.references
  | body b => PhpAtlas.references b.statements
  | case b => PhpAtlas.references b.body.statements
  | clause c => c.hint.references ++ PhpAtlas.references c.body.statements
  | member m => memberReferences [m]
  | routine d =>
      parameterReferences d.parameters ++ (returnReferences d.returns ++ bodyReferences d.body)
  | name _ => []

end Node

/-! ### Lists of nodes -/

/-- What is collected at several nodes. -/
def collected (ns : List Node) : List Reference := ns.flatMap Node.references

section Lists

open Node

@[simp] theorem collected_nil : collected [] = [] := rfl

@[simp] theorem collected_cons (n : Node) (ns : List Node) :
    collected (n :: ns) = n.references ++ collected ns := rfl

@[simp] theorem collected_append (ns ms : List Node) :
    collected (ns ++ ms) = collected ns ++ collected ms := List.flatMap_append

theorem optionReferences_eq (o : Option Expr) :
    optionReferences o = collected (o.toList.map expr) := by
  cases o <;> simp [optionReferences, Node.references]

theorem exprReferences_eq (es : List Expr) : exprReferences es = collected (es.map expr) := by
  induction es with
  | nil => rfl
  | cons e rest ih => simp [exprReferences, Node.references, ih]

theorem slotReferences_eq (slots : List (Slot Expr)) :
    slotReferences slots = collected ((slots.flatMap Slot.exprs).map expr) := by
  induction slots with
  | nil => rfl
  | cons slot rest ih => cases slot <;> simp [slotReferences, Slot.exprs, Node.references, ih]

theorem armReferences_eq (arms : List (Arm Expr)) :
    armReferences arms = collected (arms.map (expr ·.value)) := by
  induction arms with
  | nil => rfl
  | cons a rest ih => simp [armReferences, Node.references, ih]

theorem itemReferences_eq (items : List (Item Expr)) :
    itemReferences items = collected ((items.flatMap (·.value.toList)).map expr) := by
  induction items with
  | nil => rfl
  | cons item rest ih => simp [itemReferences, optionReferences_eq, ih]

theorem references_eq (ss : List Stmt) : references ss = collected (ss.map stmt) := by
  induction ss with
  | nil => rfl
  | cons s rest ih => simp [references, Node.references, ih]

theorem bodyReferences_eq (b : Option (Body Stmt)) :
    bodyReferences b = collected (b.toList.map body) := by
  cases b <;> simp [bodyReferences, Node.references]

theorem branchReferences_eq (branches : List (Branch Expr Stmt)) :
    branchReferences branches = collected (branches.flatMap partsOfBranch) := by
  induction branches with
  | nil => rfl
  | cons b rest ih =>
    simp [branchReferences, partsOfBranch, Node.references, optionReferences_eq, ih]

theorem caseReferences_eq (cases : List (Branch Expr Stmt)) :
    caseReferences cases = collected (cases.map case) := by
  induction cases with
  | nil => rfl
  | cons b rest ih => simp [caseReferences, Node.references, ih]

theorem catchReferences_eq (catches : List (Catch Stmt)) :
    catchReferences catches = collected (catches.map clause) := by
  induction catches with
  | nil => rfl
  | cons c rest ih => simp [catchReferences, Node.references, ih]

theorem memberReferences_eq (members : List (Member Expr Stmt)) :
    memberReferences members = collected (members.map member) := by
  induction members with
  | nil => rfl
  | cons m rest ih => cases m <;> simp [memberReferences, Node.references, ih]

end Lists

/-! ### Classes among what is collected -/

namespace Reference

variable {r : NameRef}

@[simp] theorem mem_classes {names : List NameRef} :
    symbol .classlike r ∈ classes names ↔ r ∈ names := by
  simp [classes]

@[simp] theorem mem_ofClass {e : Expr} : symbol .classlike r ∈ ofClass e ↔ r ∈ e.className? := by
  cases e <;> simp [ofClass, Expr.className?, eq_comm]

@[simp] theorem not_mem_ofCallee {e : Expr} : symbol .classlike r ∉ ofCallee e := by
  cases e <;> simp [ofCallee]

@[simp] theorem not_mem_ofMethod {e : Expr} {s : Selector Expr} :
    symbol .classlike r ∉ ofMethod e s := by
  cases s <;> simp [ofMethod]

@[simp] theorem not_mem_ofProperty {e : Expr} {s : Selector Expr} :
    symbol .classlike r ∉ ofProperty e s := by
  cases s <;> simp [ofProperty]

@[simp] theorem not_mem_ofConstant {other : NameRef} : symbol .classlike r ∉ ofConstant other := by
  unfold ofConstant
  dsimp only
  split <;> simp

@[simp] theorem mem_ofHead {d : ClassDecl Expr Stmt} :
    symbol .classlike r ∈ ofHead d ↔ r ∈ d.headNames := by
  unfold ofHead ClassDecl.headNames
  cases d.form <;> simp

@[simp] theorem mem_hint {h : Hint} : symbol .classlike r ∈ h.references ↔ r ∈ h.names := by
  induction h with
  | name => simp [Hint.references, Hint.names]
  | keyword => simp [Hint.references, Hint.names]
  | nullable _ ih | group _ ih => exact ih
  | union _ _ iha ihb | intersection _ _ iha ihb =>
    simp [Hint.references, Hint.names, iha, ihb]

@[simp] theorem mem_hintReferences {h : Option Hint} :
    symbol .classlike r ∈ hintReferences h ↔ r ∈ hintNames h := by
  cases h <;> simp [hintReferences, hintNames]

@[simp] theorem mem_returnReferences {h : Option ReturnHint} :
    symbol .classlike r ∈ returnReferences h ↔ r ∈ returnNames h := mem_hintReferences

theorem mem_parameterReferences {ps : List (Parameter Expr)} :
    symbol .classlike r ∈ parameterReferences ps ↔
      r ∈ parameterNames ps ∨ symbol .classlike r ∈ collected ((defaults ps).map .expr) := by
  induction ps with
  | nil => simp [parameterReferences, parameterNames, defaults]
  | cons p rest ih =>
    simp only [parameterReferences, parameterNames, defaults, optionReferences_eq, List.mem_append,
      List.flatMap_cons, List.map_append, collected_append, mem_hintReferences] at ih ⊢
    rw [ih]
    simp only [or_assoc, or_left_comm]

/-- The signature and the body of a function. -/
theorem mem_signature {ps : List (Parameter Expr)} {returns : Option ReturnHint}
    {rest : List Reference} :
    symbol .classlike r ∈ parameterReferences ps ++ (returnReferences returns ++ rest) ↔
      r ∈ parameterNames ps ++ returnNames returns ∨
        symbol .classlike r ∈ collected ((defaults ps).map .expr) ++ rest := by
  simp only [List.mem_append, mem_parameterReferences, mem_returnReferences, or_assoc,
    or_left_comm]

end Reference

namespace Node

variable {r : NameRef}

open Reference

theorem mem_references_expr (e : Expr) : symbol .classlike r ∈ e.references ↔
    r ∈ (expr e).examinedUses ∨ symbol .classlike r ∈ collected (expr e).examined := by
  cases e with
  | binary span op a b =>
    by_cases hop : op = .instanceOf <;>
      simp [Expr.references, examinedUses, classUses, examined, parts, partsOfExpr,
        Node.references, hop, or_left_comm]
  | array span form slots =>
    cases form <;>
      simp [Expr.references, examinedUses, classUses, examined, parts, partsOfExpr,
        slotReferences_eq]
  | call span callee slots =>
    cases callee <;>
      simp [Expr.references, examinedUses, classUses, examined, parts, partsOfExpr,
        slotReferences_eq, Node.references, Callee.exprs]
  | closure span parameters captures returns b =>
    rw [Expr.references, mem_signature]
    simp [examinedUses, classUses, examined, parts, partsOfExpr, Node.references]
  | arrow span parameters returns arrow b =>
    rw [Expr.references, List.mem_append, mem_parameterReferences]
    simp [examinedUses, examined, parts, partsOfExpr, Node.references, or_assoc]
  | _ =>
    simp [Expr.references, examinedUses, classUses, examined, parts, partsOfExpr, Node.references,
      slotReferences_eq, optionReferences_eq, armReferences_eq]

theorem mem_references_stmt (s : Stmt) : symbol .classlike r ∈ s.references ↔
    r ∈ (stmt s).examinedUses ∨ symbol .classlike r ∈ collected (stmt s).examined := by
  cases s with
  | function d =>
    rw [Stmt.references, mem_signature]
    simp [examinedUses, classUses, examined, parts, partsOfStmt, partsOfRoutine, Node.references,
      bodyReferences_eq]
  | _ =>
    simp [Stmt.references, examinedUses, classUses, examined, parts, partsOfStmt, Node.references,
      references_eq, optionReferences_eq, exprReferences_eq, itemReferences_eq, bodyReferences_eq,
      branchReferences_eq, caseReferences_eq, catchReferences_eq, memberReferences_eq]

theorem mem_references_member (m : Member Expr Stmt) :
    symbol .classlike r ∈ (member m).references ↔
      r ∈ (member m).examinedUses ∨ symbol .classlike r ∈ collected (member m).examined := by
  cases m with
  | method d =>
    rw [Node.references, memberReferences, memberReferences, List.append_nil, mem_signature]
    simp [examinedUses, classUses, examined, parts, partsOfRoutine, Node.references,
      bodyReferences_eq]
  | _ =>
    simp [Node.references, memberReferences, examinedUses, classUses, examined, parts,
      itemReferences_eq]

/-- A class is collected at a node if it is examined there or collected at a part that is
entered. -/
theorem mem_references_iff (n : Node) : symbol .classlike r ∈ n.references ↔
    r ∈ n.examinedUses ∨ ∃ m ∈ n.examined, symbol .classlike r ∈ m.references := by
  -- one equation for lists of nodes, so that no case has to look into a list
  rw [← List.mem_flatMap]
  show _ ↔ _ ∨ _ ∈ collected n.examined
  cases n with
  | expr e => exact mem_references_expr e
  | stmt s => exact mem_references_stmt s
  | member m => exact mem_references_member m
  | routine d =>
    rw [Node.references, mem_signature]
    simp [examinedUses, classUses, examined, parts, partsOfRoutine, Node.references,
      bodyReferences_eq]
  | body | case =>
    simp [Node.references, examinedUses, classUses, examined, parts, references_eq]
  | clause c => simp [Node.references, examinedUses, classUses, examined, parts]
  | name => simp [Node.references, examinedUses, classUses, examined, parts]

theorem examined_subset {n m : Node} (h : m ∈ n.examined) : m ∈ n.parts := by
  cases n with
  | expr e =>
    cases e with
    | array span form slots =>
      cases form with
      | brackets | keyword => exact h
      | list => cases h
    | select span subject arms =>
      rcases List.mem_cons.1 h with rfl | h
      · exact List.mem_cons_self
      · obtain ⟨a, ha, rfl⟩ := List.mem_map.1 h
        exact arm_mem ha
    | call span callee slots =>
      cases callee with
      | function => exact h
      | method | static =>
        simp only [examined, parts, partsOfExpr, Callee.exprs, List.cons_append, List.map_cons,
          List.map_append, List.mem_cons, List.mem_append] at h ⊢
        rcases h with h | h
        · exact .inl h
        · exact .inr (.inr h)
    | property | staticProperty | classConstant =>
      obtain rfl := List.mem_singleton.1 h
      exact List.mem_cons_self
    | template | indirect | index | callable | newClass | construct => cases h
    | _ => exact h
  | stmt s =>
    cases s with
    | forLoop span initial conditions steps b =>
      simp only [examined, parts, partsOfStmt, List.map_append, List.mem_append] at h ⊢
      rcases h with h | h
      · exact .inl (.inl (.inl h))
      · exact .inr h
    | eachLoop span subject key target b =>
      simp only [examined, parts, partsOfStmt, List.mem_cons, List.mem_append] at h ⊢
      rcases h with h | h
      · exact .inl h
      · exact .inr (.inr (.inr h))
    | echoTag | statics | global | unset | jump | declare => cases h
    | _ => exact h
  | case b => exact List.mem_append_right _ h
  | member m =>
    cases m with
    | property | enumCase => cases h
    | _ => exact h
  | _ => exact h

end Node

/-! ### Along paths -/

namespace Node

/-- A node below another one. -/
def Below (n m : Node) : Prop := Relation.ReflTransGen (fun a b : Node => b ∈ a.parts) n m

/-- A node below another one that is entered from there. -/
def Entered (n m : Node) : Prop := Relation.ReflTransGen (fun a b : Node => b ∈ a.examined) n m

variable {n m : Node} {r : NameRef}

open Reference

theorem Entered.below (h : Entered n m) : Below n m :=
  Relation.ReflTransGen.mono (fun _ _ => examined_subset) _ _ h

/-- What is collected at a node is examined at a node that is entered from there. -/
theorem mem_references_iff_entered :
    symbol .classlike r ∈ n.references ↔ ∃ m, Entered n m ∧ r ∈ m.examinedUses := by
  constructor
  · -- a collected class is examined here or further down, where the tree is smaller
    induction n using parts_induction with
    | h n ih =>
      intro h
      rcases n.mem_references_iff.1 h with h | ⟨m, hm, h⟩
      · exact ⟨n, .refl, h⟩
      · obtain ⟨k, hk, hr⟩ := ih m (examined_subset hm) h
        exact ⟨k, .head hm hk, hr⟩
  · rintro ⟨m, hm, hr⟩
    induction hm using Relation.ReflTransGen.head_induction_on with
    | refl => exact m.mem_references_iff.2 (.inl hr)
    | head hstep _ ih => exact (mem_references_iff _).2 (.inr ⟨_, hstep, ih⟩)

/-- A use at a node or below it is left out there: the name is not collected, or it stands below a
part that is not entered. -/
def LeavesOut (n : Node) (r : NameRef) : Prop :=
  (r ∈ n.classUses ∧ r ∉ n.examinedUses) ∨
    ∃ m ∈ n.parts, m ∉ n.examined ∧ ∃ k, Below m k ∧ r ∈ k.classUses

theorem examinedUses_subset (h : r ∈ n.examinedUses) : r ∈ n.classUses := by
  cases n with
  | expr e =>
    cases e with
    | arrow => exact List.mem_append_left _ h
    | callable | newClass => cases h
    | _ => exact h
  | member m =>
    cases m with
    | constant => cases h
    | _ => exact h
  | _ => exact h

/-- A class that is used at a node or below it is examined, or left out on the way to it. -/
theorem uses_iff :
    (∃ m, Below n m ∧ r ∈ m.classUses) ↔
      (∃ m, Entered n m ∧ r ∈ m.examinedUses) ∨ ∃ m, Entered n m ∧ m.LeavesOut r := by
  constructor
  · rintro ⟨k, hk, hr⟩
    induction hk using Relation.ReflTransGen.head_induction_on with
    | refl =>
      by_cases hexamined : r ∈ k.examinedUses
      · exact .inl ⟨k, .refl, hexamined⟩
      · exact .inr ⟨k, .refl, .inl ⟨hr, hexamined⟩⟩
    | @head n m hm hk ih =>
      -- the first part on the way that is not entered hides all that stands below
      by_cases hexamined : m ∈ n.examined
      · rcases ih with ⟨i, hi, hr⟩ | ⟨i, hi, hr⟩
        · exact .inl ⟨i, .head hexamined hi, hr⟩
        · exact .inr ⟨i, .head hexamined hi, hr⟩
      · exact .inr ⟨n, .refl, .inr ⟨m, hm, hexamined, k, hk, hr⟩⟩
  · rintro (⟨m, hm, hr⟩ | ⟨m, hm, ⟨hr, -⟩ | ⟨k, hk, -, i, hi, hr⟩⟩)
    · exact ⟨m, hm.below, examinedUses_subset hr⟩
    · exact ⟨m, hm.below, hr⟩
    · exact ⟨i, hm.below.trans (.head hk hi), hr⟩

end Node

/-! ### Uses in a document -/

namespace Document

/-- A name stands for a class somewhere in a document. -/
def Uses (doc : Document) (r : NameRef) : Prop :=
  ∃ s ∈ doc.statements, ∃ n, Node.Below (.stmt s) n ∧ r ∈ n.classUses

/-- A name is examined as the name of a class. -/
def Examines (doc : Document) (r : NameRef) : Prop :=
  ∃ s ∈ doc.statements, ∃ n, Node.Entered (.stmt s) n ∧ r ∈ n.examinedUses

/-- A use of a class is left out. -/
def Overlooks (doc : Document) (r : NameRef) : Prop :=
  ∃ s ∈ doc.statements, ∃ n, Node.Entered (.stmt s) n ∧ n.LeavesOut r

variable {doc : Document} {r : NameRef}

/-- What is collected as a class is what is examined. -/
theorem mem_references_iff :
    Reference.symbol .classlike r ∈ references doc.statements ↔ doc.Examines r := by
  rw [references_eq, collected, List.flatMap_map, List.mem_flatMap]
  simp only [Node.mem_references_iff_entered]
  rfl

/-- Each use of a class is examined or overlooked. -/
theorem uses_iff : doc.Uses r ↔ doc.Examines r ∨ doc.Overlooks r := by
  simp only [Uses, Node.uses_iff, and_or_left, exists_or]
  rfl

end Document

/-! ### Reports -/

theorem unknown_message_eq_iff {kind : SymbolKind} {full full' : String} :
    "Unknown " ++ kind.noun ++ " " ++ full' = "Unknown class " ++ full ↔
      kind = .classlike ∧ full' = full := by
  rw [← String.toList_inj]
  cases kind <;> simp [SymbolKind.noun, String.toList_inj]

theorem Atlas.unknown?_classlike_eq_some_iff {a : Atlas} {c : NameContext} {name full : String} :
    a.unknown? c .classlike name = some full ↔ TypeRef.isBuiltin name = false ∧
      a.known.resolve c .classlike name = full ∧ a.known .classlike full = false := by
  unfold Atlas.unknown?
  cases TypeRef.isBuiltin name with
  | true => simp
  | false =>
    cases hknown : a.known .classlike (a.known.resolve c .classlike name) with
    | true =>
      simp only [decide_true, Bool.and_false, Bool.false_eq_true, if_false, if_true, true_and,
        reduceCtorEq, false_iff, not_and, hknown]
      rintro rfl
      simp [hknown]
    | false =>
      simp only [decide_true, Bool.and_false, Bool.false_eq_true, if_false, true_and, hknown,
        Option.some.injEq]
      exact ⟨fun h => ⟨h, h ▸ hknown⟩, And.left⟩

theorem Atlas.report_inj {doc : Document} {span span' : Span} {message message' : String}
    (h : report doc span message = report doc span' message') :
    span = span' ∧ message = message' :=
  ⟨congrArg LintMessage.span h, congrArg LintMessage.message h⟩

/-- What is reported as an unknown class is collected as one. -/
theorem Atlas.mem_errors_iff {a : Atlas} {s : LintSettings} {doc : Document} {span : Span}
    {full : String} :
    report doc span ("Unknown class " ++ full) ∈ (a.lint s doc).errors ↔
      s.unknownClasses = true ∧ ∃ r, .symbol .classlike r ∈ references doc.statements ∧
        r.span = span ∧
        a.unknown? (doc.contextAt doc.scopes span.start) .classlike r.text = some full := by
  -- the two kinds of errors differ in their first letter
  have hsyntax : report doc span ("Unknown class " ++ full) ∉ syntaxReports s doc := by
    rw [syntaxReports]
    split
    · intro h
      obtain ⟨d, -, hd⟩ := List.mem_map.1 h
      have hmessage := congrArg (fun m : LintMessage => m.message.toList.head?) hd
      simp [report] at hmessage
    · exact List.not_mem_nil
  have hone : ∀ use, a.errorOf? s doc use = some (report doc span ("Unknown class " ++ full)) ↔
      s.unknownClasses = true ∧ ∃ r, use = .symbol .classlike r ∧ r.span = span ∧
        a.unknown? (doc.contextAt doc.scopes span.start) .classlike r.text = some full := by
    intro use
    cases use with
    | symbol kind r =>
      rw [errorOf?, unknownSymbol]
      by_cases hwants : s.wants kind = true
      · rw [if_pos hwants, Option.map_eq_some_iff]
        constructor
        · rintro ⟨found, hfound, hreport⟩
          obtain ⟨hspan, hmessage⟩ := report_inj hreport
          obtain ⟨rfl, rfl⟩ := unknown_message_eq_iff.1 hmessage
          exact ⟨hwants, r, rfl, hspan, hspan ▸ hfound⟩
        · rintro ⟨-, r', ⟨⟩, rfl, hfound⟩
          exact ⟨full, hfound, rfl⟩
      · rw [if_neg hwants]
        refine ⟨nofun, ?_⟩
        rintro ⟨hwanted, r', ⟨⟩, -⟩
        exact absurd hwanted hwants
    | method | property => simp [errorOf?]
  simp only [lint, List.mem_append, hsyntax, false_or, List.mem_filterMap, hone]
  constructor
  · rintro ⟨use, huse, hwanted, r, rfl, hr⟩
    exact ⟨hwanted, r, huse, hr⟩
  · rintro ⟨hwanted, r, huse, hr⟩
    exact ⟨_, huse, hwanted, r, rfl, hr⟩

/-- The names that are collected as classes are those that are examined, and each other use of a
class stands in a place that is left out.  An unknown class is reported exactly where its name is
examined, unless it is a word for a type of the language. -/
theorem classes_collected_iff_examined (a : Atlas) (s : LintSettings) (doc : Document) :
    (∀ r, .symbol .classlike r ∈ references doc.statements ↔ doc.Examines r) ∧
    (∀ r, doc.Uses r ↔ doc.Examines r ∨ doc.Overlooks r) ∧
    ∀ span full,
      Atlas.report doc span ("Unknown class " ++ full) ∈ (a.lint s doc).errors ↔
        s.unknownClasses = true ∧ ∃ r, doc.Examines r ∧ r.span = span ∧
          TypeRef.isBuiltin r.text = false ∧
          a.known.resolve (doc.contextAt doc.scopes span.start) .classlike r.text = full ∧
          a.known .classlike full = false := by
  refine ⟨fun r => Document.mem_references_iff, fun r => Document.uses_iff, fun span full => ?_⟩
  rw [Atlas.mem_errors_iff]
  simp only [Document.mem_references_iff, Atlas.unknown?_classlike_eq_some_iff]

/-- An arrow function with a type. -/
def typedArrow : Expr :=
  .arrow ⟨6, 20⟩ [] (some ⟨10, .name ⟨"Foo", ⟨12, 15⟩⟩⟩) 16 (.literal ⟨19, 20⟩ .integer)

/-- A file with that function. -/
def typedArrowDocument : Document :=
  ⟨"a.php", "<?php fn(): Foo => 1;".toList, [.openTag ⟨0, 5⟩, .expression ⟨6, 21⟩ typedArrow],
    [], []⟩

/-- Not all uses of classes are collected: the type of the result of an arrow function is not. -/
theorem not_forall_uses_collected :
    ¬ ∀ (doc : Document) (r : NameRef), doc.Uses r →
      .symbol .classlike r ∈ references doc.statements := by
  intro h
  have huses : typedArrowDocument.Uses ⟨"Foo", ⟨12, 15⟩⟩ :=
    ⟨.expression ⟨6, 21⟩ typedArrow, .tail _ (.head _), .expr typedArrow, .single (.head _),
      .head _⟩
  have hnone : references typedArrowDocument.statements = [] := by
    simp [typedArrowDocument, typedArrow, references, Stmt.references, Expr.references,
      parameterReferences]
  have hcollected := h _ _ huses
  rw [hnone] at hcollected
  cases hcollected

end PhpAtlas
