import PhpAtlas.Proofs.Source.Nodes

/-!
# Parts are smaller

The parts of a node are smaller than the node, so that what follows from the parts of each node
holds at all nodes.

## Main results

* `Node.sizeOf_lt_of_mem_parts` — a part is smaller than the whole.
* `Node.parts_induction` — induction from the parts to the whole.
-/

namespace PhpAtlas

/-! ### Expressions in larger parts -/

section Sizes

variable {e : Expr}

theorem Slot.sizeOf_exprs_lt {slot : Slot Expr} (h : e ∈ slot.exprs) : sizeOf e < sizeOf slot := by
  cases slot with
  | missing => cases h
  | value | spread | named =>
    obtain rfl := List.mem_singleton.1 h
    simp +arith
  | pair k v =>
    simp only [Slot.exprs, List.mem_cons, List.not_mem_nil, or_false] at h
    rcases h with rfl | rfl
    · simp
      omega
    · simp +arith

theorem Selector.sizeOf_exprs_lt {s : Selector Expr} (h : e ∈ s.exprs) : sizeOf e < sizeOf s := by
  cases s with
  | named => cases h
  | computed =>
    obtain rfl := List.mem_singleton.1 h
    simp +arith

theorem Callee.sizeOf_exprs_lt {c : Callee Expr} (h : e ∈ c.exprs) : sizeOf e < sizeOf c := by
  cases c with
  | function f =>
    obtain rfl := List.mem_singleton.1 h
    simp +arith
  | method nullSafe object s =>
    rcases List.mem_cons.1 h with rfl | h
    · simp
      omega
    · have := Selector.sizeOf_exprs_lt h
      simp
      omega
  | static cls s =>
    rcases List.mem_cons.1 h with rfl | h
    · simp
      omega
    · have := Selector.sizeOf_exprs_lt h
      simp
      omega

theorem Arm.sizeOf_exprs_lt {a : Arm Expr} (h : e ∈ a.exprs) : sizeOf e < sizeOf a := by
  obtain ⟨conditions, value⟩ := a
  rcases List.mem_append.1 h with h | h
  · have := List.sizeOf_lt_of_mem h
    simp at this ⊢
    omega
  · obtain rfl := List.mem_singleton.1 h
    simp +arith

/-- What is found in the elements of a list is smaller than the list. -/
theorem sizeOf_lt_of_mem_flatMap {α β : Type} [SizeOf α] [SizeOf β] {f : α → List β}
    (hf : ∀ a, ∀ b ∈ f a, sizeOf b < sizeOf a) {l : List α} {b : β} (h : b ∈ l.flatMap f) :
    sizeOf b < sizeOf l := by
  obtain ⟨a, ha, hb⟩ := List.mem_flatMap.1 h
  exact Nat.lt_trans (hf a b hb) (List.sizeOf_lt_of_mem ha)

theorem sizeOf_slots_lt {slots : List (Slot Expr)} (h : e ∈ slots.flatMap Slot.exprs) :
    sizeOf e < sizeOf slots :=
  sizeOf_lt_of_mem_flatMap (fun _ _ => Slot.sizeOf_exprs_lt) h

theorem sizeOf_arms_lt {arms : List (Arm Expr)} (h : e ∈ arms.flatMap Arm.exprs) :
    sizeOf e < sizeOf arms :=
  sizeOf_lt_of_mem_flatMap (fun _ _ => Arm.sizeOf_exprs_lt) h

theorem sizeOf_toList_lt {α : Type} [SizeOf α] {o : Option α} {a : α} (h : a ∈ o.toList) :
    sizeOf a < sizeOf o := by
  obtain rfl := Option.mem_toList.1 h
  simp

theorem sizeOf_defaults_lt {ps : List (Parameter Expr)} (h : e ∈ defaults ps) :
    sizeOf e < sizeOf ps := by
  refine sizeOf_lt_of_mem_flatMap (fun p e he => ?_) h
  have := sizeOf_toList_lt he
  obtain ⟨⟩ := p
  simp at this ⊢
  omega

theorem Item.sizeOf_value_lt {item : Item Expr} (h : e ∈ item.value.toList) :
    sizeOf e < sizeOf item := by
  have := sizeOf_toList_lt h
  obtain ⟨⟩ := item
  simp at this ⊢
  omega

theorem sizeOf_items_lt {items : List (Item Expr)} (h : e ∈ items.flatMap (·.value.toList)) :
    sizeOf e < sizeOf items :=
  sizeOf_lt_of_mem_flatMap (fun _ _ => Item.sizeOf_value_lt) h

end Sizes

namespace Node

/-- A node with one field is larger by one than the field. -/
theorem sizeOf_map_lt {α : Type} [SizeOf α] {f : α → Node} (hf : ∀ a, sizeOf (f a) = 1 + sizeOf a)
    {l : List α} {bound : Nat} (hl : ∀ a ∈ l, sizeOf a < bound) {m : Node} (h : m ∈ l.map f) :
    sizeOf m < 1 + bound := by
  obtain ⟨a, ha, rfl⟩ := List.mem_map.1 h
  have := hl a ha
  rw [hf]
  omega

theorem sizeOf_partsOfRoutine_lt {d : FunctionDecl Expr Stmt} {m : Node}
    (h : m ∈ partsOfRoutine d) : sizeOf m < 1 + sizeOf d := by
  obtain ⟨span, modifiers, name, parameters, returns, body⟩ := d
  simp only [partsOfRoutine, List.mem_cons, List.mem_append, List.mem_map] at h
  rcases h with rfl | ⟨e, he, rfl⟩ | ⟨b, hb, rfl⟩
  · simp
    omega
  · have := sizeOf_defaults_lt he
    simp
    omega
  · have := sizeOf_toList_lt hb
    simp at this ⊢
    omega

theorem sizeOf_partsOfExpr_lt {e : Expr} {m : Node} (h : m ∈ partsOfExpr e) :
    sizeOf m < 1 + sizeOf e := by
  cases e with
  | literal | var | name | constant | self | static | parent | magic | missing => cases h
  | paren | indirect | unary | trailing | clone | throw | yieldFrom =>
    obtain rfl := List.mem_singleton.1 h
    simp +arith
  | template _ es | construct _ _ es =>
    have := sizeOf_map_lt expr.sizeOf_spec (fun _ => List.sizeOf_lt_of_mem) h
    simp
    omega
  | array span form slots =>
    have := sizeOf_map_lt expr.sizeOf_spec (fun _ => sizeOf_slots_lt) h
    simp
    omega
  | index span base index =>
    rcases List.mem_cons.1 h with rfl | h
    · simp +arith
    · have := sizeOf_map_lt expr.sizeOf_spec (fun _ => sizeOf_toList_lt) h
      simp
      omega
  | assign | binary | staticProperty | pipe =>
    rcases List.mem_cons.1 h with rfl | h
    · simp +arith
    · obtain rfl := List.mem_singleton.1 h
      simp +arith
  | ternary span condition yes no =>
    rcases List.mem_cons.1 h with rfl | h
    · simp +arith
    rcases List.mem_append.1 h with h | h
    · have := sizeOf_map_lt expr.sizeOf_spec (fun _ => sizeOf_toList_lt) h
      simp
      omega
    · obtain rfl := List.mem_singleton.1 h
      simp +arith
  | select span subject arms =>
    rcases List.mem_cons.1 h with rfl | h
    · simp +arith
    · have := sizeOf_map_lt expr.sizeOf_spec (fun _ => sizeOf_arms_lt) h
      simp
      omega
  | call span callee slots =>
    obtain ⟨e, he, rfl⟩ := List.mem_map.1 h
    rcases List.mem_append.1 he with he | he
    · have := Callee.sizeOf_exprs_lt he
      simp
      omega
    · have := sizeOf_slots_lt he
      simp
      omega
  | callable span callee =>
    have := sizeOf_map_lt expr.sizeOf_spec (fun _ => Callee.sizeOf_exprs_lt) h
    simp
    omega
  | property | classConstant =>
    rcases List.mem_cons.1 h with rfl | h
    · simp +arith
    · have := sizeOf_map_lt expr.sizeOf_spec (fun _ => Selector.sizeOf_exprs_lt) h
      simp
      omega
  | new span cls slots =>
    rcases List.mem_cons.1 h with rfl | h
    · simp +arith
    · have := sizeOf_map_lt expr.sizeOf_spec (fun _ => sizeOf_slots_lt) h
      simp
      omega
  | newClass span slots d =>
    obtain ⟨⟩ := d
    rcases List.mem_append.1 h with h | h
    · have := sizeOf_map_lt expr.sizeOf_spec (fun _ => sizeOf_slots_lt) h
      simp
      omega
    · have := sizeOf_map_lt member.sizeOf_spec (fun _ => List.sizeOf_lt_of_mem) h
      simp at this ⊢
      omega
  | closure | arrow =>
    rcases List.mem_append.1 h with h | h
    · have := sizeOf_map_lt expr.sizeOf_spec (fun _ => sizeOf_defaults_lt) h
      simp
      omega
    · obtain rfl := List.mem_singleton.1 h
      simp +arith
  | yield span key value =>
    rcases List.mem_append.1 h with h | h
    · have := sizeOf_map_lt expr.sizeOf_spec (fun _ => sizeOf_toList_lt) h
      simp
      omega
    · have := sizeOf_map_lt expr.sizeOf_spec (fun _ => sizeOf_toList_lt) h
      simp
      omega

theorem sizeOf_partsOfBranch_lt {b : Branch Expr Stmt} {m : Node} (h : m ∈ partsOfBranch b) :
    sizeOf m < 1 + sizeOf b := by
  obtain ⟨condition, body⟩ := b
  rcases List.mem_append.1 h with h | h
  · have := sizeOf_map_lt expr.sizeOf_spec (fun _ => sizeOf_toList_lt) h
    simp at this ⊢
    omega
  · obtain rfl := List.mem_singleton.1 h
    simp +arith

theorem sizeOf_partsOfStmt_lt {s : Stmt} {m : Node} (h : m ∈ partsOfStmt s) :
    sizeOf m < 1 + sizeOf s := by
  cases s with
  | openTag | closeTag | html | empty | use | label | goto => cases h
  | echoTag | echo | statics | global | unset =>
    have := sizeOf_map_lt expr.sizeOf_spec (fun _ => List.sizeOf_lt_of_mem) h
    simp
    omega
  | block body =>
    obtain ⟨span, inner⟩ := body
    have := sizeOf_map_lt stmt.sizeOf_spec (fun _ => List.sizeOf_lt_of_mem) h
    simp at this ⊢
    omega
  | expression =>
    obtain rfl := List.mem_singleton.1 h
    simp +arith
  | ret | jump =>
    have := sizeOf_map_lt expr.sizeOf_spec (fun _ => sizeOf_toList_lt) h
    simp
    omega
  | cond span branches =>
    obtain ⟨b, hb, hm⟩ := List.mem_flatMap.1 h
    have := List.sizeOf_lt_of_mem hb
    have := sizeOf_partsOfBranch_lt hm
    simp
    omega
  | whileLoop | doLoop =>
    rcases List.mem_cons.1 h with rfl | h
    · simp +arith
    · obtain rfl := List.mem_singleton.1 h
      simp +arith
  | forLoop span initial conditions steps body =>
    rcases List.mem_append.1 h with h | h
    · obtain ⟨e, he, rfl⟩ := List.mem_map.1 h
      simp only [List.mem_append] at he
      rcases he with (he | he) | he
      · have := List.sizeOf_lt_of_mem he
        simp
        omega
      · have := List.sizeOf_lt_of_mem he
        simp
        omega
      · have := List.sizeOf_lt_of_mem he
        simp
        omega
    · obtain rfl := List.mem_singleton.1 h
      simp +arith
  | eachLoop span subject key target body =>
    rcases List.mem_cons.1 h with rfl | h
    · simp +arith
    rcases List.mem_append.1 h with h | h
    · have := sizeOf_map_lt expr.sizeOf_spec (fun _ => sizeOf_toList_lt) h
      simp
      omega
    rcases List.mem_cons.1 h with rfl | h
    · simp +arith
    · obtain rfl := List.mem_singleton.1 h
      simp +arith
  | switch span subject cases =>
    rcases List.mem_cons.1 h with rfl | h
    · simp +arith
    · have := sizeOf_map_lt case.sizeOf_spec (fun _ => List.sizeOf_lt_of_mem) h
      simp
      omega
  | tryCatch span b catches ensureStart ensure =>
    rcases List.mem_cons.1 h with rfl | h
    · simp +arith
    rcases List.mem_append.1 h with h | h
    · have := sizeOf_map_lt clause.sizeOf_spec (fun _ => List.sizeOf_lt_of_mem) h
      simp
      omega
    · have := sizeOf_map_lt body.sizeOf_spec (fun _ => sizeOf_toList_lt) h
      simp
      omega
  | function d =>
    have := sizeOf_partsOfRoutine_lt h
    simp
    omega
  | classlike d =>
    obtain ⟨⟩ := d
    have := sizeOf_map_lt member.sizeOf_spec (fun _ => List.sizeOf_lt_of_mem) h
    simp at this ⊢
    omega
  | constants span items =>
    have := sizeOf_map_lt expr.sizeOf_spec (fun _ => sizeOf_items_lt) h
    simp
    omega
  | space span name braced inner =>
    have := sizeOf_map_lt stmt.sizeOf_spec (fun _ => List.sizeOf_lt_of_mem) h
    simp
    omega
  | declare span b =>
    have := sizeOf_map_lt body.sizeOf_spec (fun _ => sizeOf_toList_lt) h
    simp
    omega

theorem sizeOf_partsOfMember_lt {member : Member Expr Stmt} {m : Node}
    (h : m ∈ (Node.member member).parts) : sizeOf m < 1 + sizeOf member := by
  cases member with
  | method d =>
    have := sizeOf_partsOfRoutine_lt h
    simp
    omega
  | property span modifiers hint items accessors =>
    rcases List.mem_append.1 h with h | h
    · have := sizeOf_map_lt expr.sizeOf_spec (fun _ => sizeOf_items_lt) h
      simp
      omega
    · have := sizeOf_map_lt routine.sizeOf_spec (fun _ => List.sizeOf_lt_of_mem) h
      simp
      omega
  | constant span modifiers hint items =>
    have := sizeOf_map_lt expr.sizeOf_spec (fun _ => sizeOf_items_lt) h
    simp
    omega
  | enumCase span item =>
    have := sizeOf_map_lt expr.sizeOf_spec (fun _ => Item.sizeOf_value_lt) h
    simp
    omega
  | traitUse => cases h

/-- A part is smaller than the whole. -/
theorem sizeOf_lt_of_mem_parts {n m : Node} (h : m ∈ n.parts) : sizeOf m < sizeOf n := by
  cases n with
  | expr e => exact sizeOf_partsOfExpr_lt h
  | stmt s => exact sizeOf_partsOfStmt_lt h
  | body b =>
    obtain ⟨span, inner⟩ := b
    have := sizeOf_map_lt stmt.sizeOf_spec (fun _ => List.sizeOf_lt_of_mem) h
    simp at this ⊢
    omega
  | case b =>
    obtain ⟨condition, span, inner⟩ := b
    rcases List.mem_append.1 h with h | h
    · have := sizeOf_map_lt expr.sizeOf_spec (fun _ => sizeOf_toList_lt) h
      simp at this ⊢
      omega
    · have := sizeOf_map_lt stmt.sizeOf_spec (fun _ => List.sizeOf_lt_of_mem) h
      simp at this ⊢
      omega
  | clause c =>
    obtain ⟨span, hint, binding, b⟩ := c
    obtain rfl := List.mem_singleton.1 h
    simp +arith
  | member member => exact sizeOf_partsOfMember_lt h
  | routine d => exact sizeOf_partsOfRoutine_lt h
  | name r => cases h

/-- What follows from the parts of each node holds at all nodes. -/
theorem parts_induction {P : Node → Prop} (h : ∀ n, (∀ m ∈ n.parts, P m) → P n) (n : Node) :
    P n :=
  -- nodes of different kinds contain each other, so the recursion is on the size
  h n fun m _ => parts_induction h m
termination_by sizeOf n
decreasing_by exact sizeOf_lt_of_mem_parts ‹_›

end Node
end PhpAtlas
