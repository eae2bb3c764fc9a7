import PhpAtlas.Proofs.Source.Nodes
import PhpAtlas.Proofs.Steps
import PhpAtlas.Source.Variables

/-!
# The variables of nodes

The variables in a node of the tree are those in its parts, in their order, and the node itself if
it is a variable.

* `Node.vars` — the variables in a node.
* `Node.vars_eq` — they are those in its parts.
* `Node.vars_subset_of_mem_parts` — a part has no others.
-/

namespace PhpAtlas

/-! ### Expressions in larger parts -/

theorem exprVars_eq (es : List Expr) : exprVars es = es.flatMap Expr.vars :=
  eq_flatMap rfl (fun _ _ => rfl) es

theorem optionVars_eq (o : Option Expr) :
    optionVars o = o.toList.flatMap Expr.vars := by
  cases o <;> simp [optionVars]

theorem slotVars_eq (slots : List (Slot Expr)) :
    slotVars slots = (slots.flatMap Slot.exprs).flatMap Expr.vars := by
  rw [List.flatMap_assoc]
  refine eq_flatMap rfl (fun s rest => ?_) slots
  cases s <;> simp [slotVars, Slot.exprs]

theorem armVars_eq (arms : List (Arm Expr)) :
    armVars arms = (arms.flatMap Arm.exprs).flatMap Expr.vars := by
  rw [List.flatMap_assoc]
  refine eq_flatMap rfl (fun a rest => ?_) arms
  simp [armVars, Arm.exprs, exprVars_eq]

theorem selectorVars_eq (s : Selector Expr) :
    selectorVars s = s.exprs.flatMap Expr.vars := by
  cases s <;> simp [selectorVars, Selector.exprs]

theorem calleeVars_eq (c : Callee Expr) :
    calleeVars c = c.exprs.flatMap Expr.vars := by
  cases c <;> simp [calleeVars, Callee.exprs, selectorVars_eq]

theorem parameterVars_eq (parameters : List (Parameter Expr)) :
    parameterVars parameters = (defaults parameters).flatMap Expr.vars := by
  rw [defaults, List.flatMap_assoc]
  refine eq_flatMap rfl (fun p rest => ?_) parameters
  simp [parameterVars, optionVars_eq]

theorem itemVars_eq (items : List (Item Expr)) :
    itemVars items = (items.flatMap (·.value.toList)).flatMap Expr.vars := by
  rw [List.flatMap_assoc]
  refine eq_flatMap rfl (fun item rest => ?_) items
  simp [itemVars, optionVars_eq]

theorem stmtVars_eq (ss : List Stmt) : stmtVars ss = ss.flatMap Stmt.vars :=
  eq_flatMap rfl (fun _ _ => rfl) ss

namespace Node

/-! ### Nodes in larger parts -/

/-- The variables in a node. -/
def vars : Node → List String
  | expr e => e.vars
  | stmt s => s.vars
  | body b => stmtVars b.statements
  | case b => optionVars b.condition ++ stmtVars b.body.statements
  | clause c => stmtVars c.body.statements
  | member m => m.vars
  | routine d => routineVars d
  | name _ => []

theorem bodyVars_eq (o : Option (Body Stmt)) :
    bodyVars o = (o.toList.map body).flatMap vars := by
  cases o <;> simp [bodyVars, vars]

theorem branchVars_eq (branches : List (Branch Expr Stmt)) :
    branchVars branches = (branches.flatMap partsOfBranch).flatMap vars := by
  rw [List.flatMap_assoc]
  refine eq_flatMap rfl (fun b rest => ?_) branches
  simp [branchVars, partsOfBranch, vars, optionVars_eq, List.flatMap_map]

theorem caseVars_eq (cases : List (Branch Expr Stmt)) :
    branchVars cases = (cases.map case).flatMap vars := by
  rw [List.flatMap_map]
  refine eq_flatMap rfl (fun b rest => ?_) cases
  simp [branchVars, vars]

theorem catchVars_eq (catches : List (Catch Stmt)) :
    catchVars catches = (catches.map clause).flatMap vars := by
  rw [List.flatMap_map]
  exact eq_flatMap rfl (fun _ _ => rfl) catches

theorem routinesVars_eq (ds : List (FunctionDecl Expr Stmt)) :
    routinesVars ds = (ds.map routine).flatMap vars := by
  rw [List.flatMap_map]
  exact eq_flatMap rfl (fun _ _ => rfl) ds

theorem memberVars_eq (ms : List (Member Expr Stmt)) :
    memberVars ms = (ms.map member).flatMap vars := by
  rw [List.flatMap_map]
  exact eq_flatMap rfl (fun _ _ => rfl) ms

theorem routineVars_eq (d : FunctionDecl Expr Stmt) :
    routineVars d = (partsOfRoutine d).flatMap vars := by
  obtain ⟨span, modifiers, name, parameters, returns, body⟩ := d
  simp [routineVars, partsOfRoutine, vars, parameterVars_eq, bodyVars_eq,
    List.flatMap_map]

/-! ### Every node -/

/-- The variable that a node is. -/
def ownVars : Node → List String
  | expr (.var _ v) => [v]
  | _ => []

/-- The variables in a node are itself, if it is one, and those in its parts. -/
theorem vars_eq (n : Node) : n.vars = n.ownVars ++ n.parts.flatMap vars := by
  cases n with
  | expr e =>
    cases e <;> simp only [vars, ownVars, parts, partsOfExpr, Expr.vars, exprVars_eq,
      optionVars_eq, slotVars_eq, armVars_eq, calleeVars_eq, selectorVars_eq, parameterVars_eq,
      memberVars_eq, List.flatMap_map, List.flatMap_append, List.flatMap_cons, List.flatMap_nil,
      List.append_nil, List.nil_append]
  | stmt s =>
    cases s with
    | switch span subject cases =>
      simp only [vars, ownVars, parts, partsOfStmt, Stmt.vars, caseVars_eq, List.flatMap_cons,
        List.nil_append]
    | _ =>
      simp only [vars, ownVars, parts, partsOfStmt, Stmt.vars, exprVars_eq, optionVars_eq,
        stmtVars_eq, itemVars_eq, bodyVars_eq, branchVars_eq, catchVars_eq, routineVars_eq,
        memberVars_eq, List.flatMap_map, List.flatMap_append, List.flatMap_cons, List.flatMap_nil,
        List.append_nil, List.nil_append, List.append_assoc]
  | member m =>
    cases m <;> simp only [vars, ownVars, parts, Member.vars, itemVars_eq, optionVars_eq,
      routineVars_eq, routinesVars_eq, List.flatMap_map, List.flatMap_append, List.flatMap_nil,
      List.nil_append]
  | body b | case b =>
    simp only [vars, ownVars, parts, stmtVars_eq, optionVars_eq, List.flatMap_map,
      List.flatMap_append, List.nil_append]
  | clause c =>
    simp only [vars, ownVars, parts, List.flatMap_cons, List.flatMap_nil, List.append_nil,
      List.nil_append]
  | routine d => simp only [vars, ownVars, parts, routineVars_eq, List.nil_append]
  | name r => rfl

theorem vars_subset_of_mem_parts {n m : Node} (h : m ∈ n.parts) :
    m.vars ⊆ n.vars := by
  intro v hv
  rw [n.vars_eq]
  exact List.mem_append_right _ (List.mem_flatMap.2 ⟨m, h, hv⟩)

end Node
end PhpAtlas
