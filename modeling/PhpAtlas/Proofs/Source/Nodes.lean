import PhpAtlas.Source.Document

/-!
# The nodes of a source file

A node of the tree has a range, and parts that are nodes again.  In a tree as it is read from a
source file, the parts of a node lie in its range, one behind the other.

## Main definitions

* `Node`, `Node.span`, `Node.parts` — the nodes of a tree, their ranges and their parts.
* `Span.Covers`, `Span.Before`, `Span.Encloses` — one range in another, one behind another, and an
  offset in a range.
* `Throughout`, `holdsDown` — a predicate holds at a node and at all nodes below, and a check of it.
* `Node.ItemsInside`, `Node.EnsureInside` — the names of constants and the word `finally` stand in
  the statement that they belong to.
* `Nested` — the parts of a node lie in its range in their order, and so on down.
* `Inside` — a nested node in a range.
* `NestedStmts` — the same of statements in their order.

## Main results

* `throughout_of_holdsDown`, `nestedStmts_of_holdsDown` — what holds down to the leaves can be
  checked.
-/

namespace PhpAtlas

/-! ### Ranges -/

namespace Span

/-- A range lies in another. -/
def Covers (outer inner : Span) : Prop := outer.start ≤ inner.start ∧ inner.stop ≤ outer.stop

/-- A range that is not empty lies behind another one. -/
def Before (a b : Span) : Prop := a.start < b.start ∧ a.stop ≤ b.start

instance (a b : Span) : Decidable (a.Covers b) := inferInstanceAs (Decidable (_ ∧ _))

instance (a b : Span) : Decidable (a.Before b) := inferInstanceAs (Decidable (_ ∧ _))

variable {a b c : Span} {offset : Nat}

theorem holds_iff : a.holds offset = true ↔ a.start ≤ offset ∧ offset ≤ a.stop := by
  simp [holds]

theorem holds_eq_false (h : a.stop < offset) : a.holds offset = false := by
  refine Bool.eq_false_iff.2 fun hholds => ?_
  rw [holds_iff] at hholds
  omega

theorem Covers.holds (h : a.Covers b) (hb : b.holds offset = true) : a.holds offset = true := by
  rw [holds_iff] at hb ⊢
  obtain ⟨hstart, hstop⟩ := h
  omega

theorem Covers.trans (h : a.Covers b) (h' : b.Covers c) : a.Covers c := by
  obtain ⟨hstart, hstop⟩ := h
  obtain ⟨hstart', hstop'⟩ := h'
  exact ⟨by omega, by omega⟩

/-- The offset lies in the range, and not at its start. -/
def Encloses (s : Span) (offset : Nat) : Prop := s.start < offset ∧ offset ≤ s.stop

instance (a : Span) (offset : Nat) : Decidable (a.Encloses offset) :=
  inferInstanceAs (Decidable (_ ∧ _))

theorem Encloses.holds (h : a.Encloses offset) : a.holds offset = true := by
  obtain ⟨hstart, hstop⟩ := h
  exact holds_iff.2 ⟨Nat.le_of_lt hstart, hstop⟩

theorem Covers.encloses (h : a.Covers b) (hb : b.Encloses offset) : a.Encloses offset := by
  obtain ⟨hstart, hstop⟩ := h
  obtain ⟨hstart', hstop'⟩ := hb
  exact ⟨by omega, by omega⟩

theorem covers_refl : a.Covers a := ⟨Nat.le_refl _, Nat.le_refl _⟩

end Span

/-! ### Nodes -/

/-- A node of the tree. -/
inductive Node
  | expr (e : Expr)
  | stmt (s : Stmt)
  | body (b : Body Stmt)
  /-- A case of a `switch`. -/
  | case (b : Branch Expr Stmt)
  /-- A `catch` clause. -/
  | clause (c : Catch Stmt)
  | member (m : Member Expr Stmt)
  /-- A function, a method or an accessor. -/
  | routine (d : FunctionDecl Expr Stmt)
  | name (r : NameRef)

/-- The expressions in a slot. -/
def Slot.exprs : Slot Expr → List Expr
  | .missing => []
  | .value e | .spread e | .named _ e => [e]
  | .pair k e => [k, e]

/-- The expressions that select a member. -/
def Selector.exprs : Selector Expr → List Expr
  | .named _ => []
  | .computed e => [e]

/-- The expressions in front of the arguments of a call. -/
def Callee.exprs : Callee Expr → List Expr
  | .function e => [e]
  | .method _ e s | .static e s => e :: s.exprs

/-- The expressions of an arm: its conditions, then its value. -/
def Arm.exprs (a : Arm Expr) : List Expr := a.conditions ++ [a.value]

/-- The default values of parameters. -/
def defaults (parameters : List (Parameter Expr)) : List Expr :=
  parameters.flatMap (·.default.toList)

/-- The range of a member. -/
def Member.span : Member Expr Stmt → Span
  | .method d => d.span
  | .property s .. | .constant s .. | .enumCase s _ | .traitUse s .. => s

namespace Node

/-- The range of a node; that of a case is the range of its body. -/
def span : Node → Span
  | expr e => e.span
  | stmt s => s.span
  | body b => b.span
  | case b => b.body.span
  | clause c => c.span
  | member m => m.span
  | routine d => d.span
  | name r => r.span

/-- The parts of a function: its name, its default values and its body. -/
def partsOfRoutine (d : FunctionDecl Expr Stmt) : List Node :=
  name d.name :: ((defaults d.parameters).map expr ++ d.body.toList.map body)

/-- The parts of an expression. -/
def partsOfExpr : Expr → List Node
  | .paren _ e | .indirect _ e | .unary _ _ e | .trailing _ e | .clone _ e | .throw _ e
  | .yieldFrom _ e => [expr e]
  | .template _ es | .construct _ _ es => es.map expr
  | .array _ _ slots => (slots.flatMap Slot.exprs).map expr
  | .index _ base index => expr base :: index.toList.map expr
  | .assign _ _ a b | .binary _ _ a b | .staticProperty _ a b | .pipe _ a b => [expr a, expr b]
  | .ternary _ condition yes no => expr condition :: (yes.toList.map expr ++ [expr no])
  | .select _ subject arms => expr subject :: (arms.flatMap Arm.exprs).map expr
  | .call _ callee slots => (callee.exprs ++ slots.flatMap Slot.exprs).map expr
  | .callable _ callee => callee.exprs.map expr
  | .property _ _ e s | .classConstant _ e s => expr e :: s.exprs.map expr
  | .new _ cls slots => expr cls :: (slots.flatMap Slot.exprs).map expr
  | .newClass _ slots d => (slots.flatMap Slot.exprs).map expr ++ d.members.map member
  | .closure _ parameters _ _ b => (defaults parameters).map expr ++ [body b]
  | .arrow _ parameters _ _ e => (defaults parameters).map expr ++ [expr e]
  | .yield _ key value => key.toList.map expr ++ value.toList.map expr
  | .literal .. | .var .. | .name _ | .constant _ | .self _ | .static _ | .parent _ | .magic ..
  | .missing _ => []

/-- The condition of a branch in front of its body. -/
def partsOfBranch (b : Branch Expr Stmt) : List Node := b.condition.toList.map expr ++ [body b.body]

/-- The parts of a statement. -/
def partsOfStmt : Stmt → List Node
  | .openTag _ | .closeTag _ | .html _ | .empty _ | .use .. | .label _ | .goto _ => []
  | .echoTag _ es | .echo _ es | .statics _ es | .global _ es | .unset _ es => es.map expr
  | .block b => b.statements.map stmt
  | .expression _ e => [expr e]
  | .ret _ e | .jump _ e => e.toList.map expr
  | .cond _ branches => branches.flatMap partsOfBranch
  | .whileLoop _ e b => [expr e, body b]
  | .doLoop _ b e => [body b, expr e]
  | .forLoop _ initial conditions steps b =>
      (initial ++ conditions ++ steps).map expr ++ [body b]
  | .eachLoop _ subject key target b =>
      expr subject :: (key.toList.map expr ++ [expr target, body b])
  | .switch _ subject cases => expr subject :: cases.map case
  | .tryCatch _ b catches _ ensure => body b :: (catches.map clause ++ ensure.toList.map body)
  | .function d => partsOfRoutine d
  | .classlike d => d.members.map member
  | .constants _ items => (items.flatMap (·.value.toList)).map expr
  | .space _ _ _ inner => inner.map stmt
  | .declare _ b => b.toList.map body

/-- The parts of a node, in their order. -/
def parts : Node → List Node
  | expr e => partsOfExpr e
  | stmt s => partsOfStmt s
  | body b => b.statements.map stmt
  | case b => b.condition.toList.map expr ++ b.body.statements.map stmt
  | clause c => [body c.body]
  | member (.method d) => partsOfRoutine d
  | member (.property _ _ _ items accessors) =>
      (items.flatMap (·.value.toList)).map expr ++ accessors.map routine
  | member (.constant _ _ _ items) => (items.flatMap (·.value.toList)).map expr
  | member (.enumCase _ item) => item.value.toList.map expr
  | member (.traitUse ..) => []
  | routine d => partsOfRoutine d
  | name _ => []

section Parts

variable {span : Span}

theorem condition_mem {branches : List (Branch Expr Stmt)} {b : Branch Expr Stmt}
    (hb : b ∈ branches) {e : Expr} (he : e ∈ b.condition) :
    expr e ∈ (stmt (.cond span branches)).parts :=
  List.mem_flatMap.2 ⟨b, hb, by simp [partsOfBranch, Option.mem_def.1 he]⟩

theorem branch_mem {branches : List (Branch Expr Stmt)} {b : Branch Expr Stmt}
    (hb : b ∈ branches) : body b.body ∈ (stmt (.cond span branches)).parts :=
  List.mem_flatMap.2 ⟨b, hb, by simp [partsOfBranch]⟩

theorem catch_mem {b : Body Stmt} {catches : List (Catch Stmt)} {ensureStart : Nat}
    {ensure : Option (Body Stmt)} {c : Catch Stmt} (hc : c ∈ catches) :
    clause c ∈ (stmt (.tryCatch span b catches ensureStart ensure)).parts :=
  List.mem_cons_of_mem _ (List.mem_append_left _ (List.mem_map_of_mem hc))

theorem ensure_mem {b : Body Stmt} {catches : List (Catch Stmt)} {ensureStart : Nat}
    {ensure : Option (Body Stmt)} {last : Body Stmt} (hlast : last ∈ ensure) :
    body last ∈ (stmt (.tryCatch span b catches ensureStart ensure)).parts := by
  simp [parts, partsOfStmt, Option.mem_def.1 hlast]

theorem arm_mem {subject : Expr} {arms : List (Arm Expr)} {a : Arm Expr} (ha : a ∈ arms) :
    expr a.value ∈ (expr (.select span subject arms)).parts := by
  refine List.mem_cons_of_mem _ (List.mem_map_of_mem (List.mem_flatMap.2 ⟨a, ha, ?_⟩))
  simp [Arm.exprs]

theorem slot_mem {callee : Callee Expr} {slots : List (Slot Expr)} {e : Expr}
    (he : e ∈ slots.flatMap Slot.exprs) : expr e ∈ (expr (.call span callee slots)).parts :=
  List.mem_map_of_mem (List.mem_append_right _ he)

theorem yes_mem {condition no : Expr} {yes : Option Expr} {e : Expr} (he : e ∈ yes) :
    expr e ∈ (expr (.ternary span condition yes no)).parts := by
  simp [parts, partsOfExpr, Option.mem_def.1 he]

theorem no_mem {condition no : Expr} {yes : Option Expr} :
    expr no ∈ (expr (.ternary span condition yes no)).parts := by
  simp [parts, partsOfExpr]

end Parts

end Node

/-! ### Nesting -/

/-- A predicate holds at a node and at all nodes below. -/
inductive Throughout (P : Node → Prop) : Node → Prop
  | intro (n : Node) (here : P n) (parts : ∀ m ∈ n.parts, Throughout P m) : Throughout P n

theorem Throughout.part {P : Node → Prop} {n m : Node} (h : Throughout P n) (hm : m ∈ n.parts) :
    Throughout P m := by
  cases h with
  | intro _ _ hparts => exact hparts m hm

theorem Throughout.here {P : Node → Prop} {n : Node} (h : Throughout P n) : P n := by
  cases h
  assumption

theorem Throughout.mono {P Q : Node → Prop} {n : Node} (h : Throughout P n)
    (himp : ∀ m, P m → Q m) : Throughout Q n := by
  induction h with
  | intro n hhere _ ih => exact .intro n (himp n hhere) ih

/-- Check a predicate at a node and at the nodes below, which lie no deeper than allowed. -/
def holdsDown (P : Node → Prop) [DecidablePred P] : (depth : Nat) → Node → Bool
  | 0, _ => false
  | depth + 1, n => decide (P n) && n.parts.all (holdsDown P depth)

theorem throughout_of_holdsDown {P : Node → Prop} [DecidablePred P] {depth : Nat} {n : Node}
    (h : holdsDown P depth n = true) : Throughout P n := by
  induction depth generalizing n with
  | zero => cases h
  | succ depth ih =>
    simp only [holdsDown, Bool.and_eq_true, decide_eq_true_iff, List.all_eq_true] at h
    exact .intro n h.1 fun m hm => ih (h.2 m hm)

/-- A node ends behind its start, and its parts lie in its range in their order. -/
structure Node.Aligned (n : Node) : Prop where
  proper : n.span.start ≤ n.span.stop
  inside : ∀ m ∈ n.parts, n.span.Covers m.span
  ordered : n.parts.Pairwise fun a b => a.span.Before b.span

instance : DecidablePred Node.Aligned := fun n =>
  decidable_of_iff (n.span.start ≤ n.span.stop ∧ (∀ m ∈ n.parts, n.span.Covers m.span) ∧
    n.parts.Pairwise fun a b => a.span.Before b.span)
    ⟨fun ⟨hproper, hinside, hordered⟩ => ⟨hproper, hinside, hordered⟩,
      fun ⟨hproper, hinside, hordered⟩ => ⟨hproper, hinside, hordered⟩⟩

/-- Where the names of the constants stand that a node declares. -/
def Node.itemOffsets : Node → List Nat
  | .stmt (.constants _ items) => items.map (·.name.span.start)
  | _ => []

/-- The names of constants stand in the statement that declares them. -/
def Node.ItemsInside (n : Node) : Prop := ∀ offset ∈ n.itemOffsets, n.span.holds offset = true

instance : DecidablePred Node.ItemsInside := fun n =>
  inferInstanceAs (Decidable (∀ offset ∈ n.itemOffsets, n.span.holds offset = true))

/-- Where the word `finally` of a node stands. -/
def Node.ensureStart? : Node → Option Nat
  | .stmt (.tryCatch _ _ _ ensureStart (some _)) => some ensureStart
  | _ => none

/-- The word `finally` of a node stands in it. -/
def Node.EnsureInside (n : Node) : Prop := ∀ start ∈ n.ensureStart?, start ≤ n.span.stop

instance : DecidablePred Node.EnsureInside := fun n =>
  inferInstanceAs (Decidable (∀ start ∈ n.ensureStart?, start ≤ n.span.stop))

/-- The parts of a node lie in its range in their order, and so on down. -/
def Nested (n : Node) : Prop := Throughout Node.Aligned n

namespace Nested

variable {n m : Node}

theorem aligned (h : Nested n) : n.Aligned := by
  cases h
  assumption

theorem proper (h : Nested n) : n.span.start ≤ n.span.stop := h.aligned.proper

theorem inside (h : Nested n) (hm : m ∈ n.parts) : n.span.Covers m.span := h.aligned.inside m hm

theorem ordered (h : Nested n) : n.parts.Pairwise fun a b => a.span.Before b.span :=
  h.aligned.ordered

theorem part (h : Nested n) (hm : m ∈ n.parts) : Nested m := by
  cases h with
  | intro _ _ hparts => exact hparts m hm

end Nested

/-- A nested node in a range. -/
structure Inside (r : Span) (n : Node) : Prop where
  nested : Nested n
  covers : r.Covers n.span

namespace Inside

variable {r : Span} {n m : Node}

theorem part (h : Inside r n) (hm : m ∈ n.parts) : Inside r m :=
  ⟨h.nested.part hm, h.covers.trans (h.nested.inside hm)⟩

theorem holds_start (h : Inside r n) : r.holds n.span.start = true := by
  have hproper := h.nested.proper
  obtain ⟨hstart, hstop⟩ := h.covers
  rw [Span.holds_iff]
  omega

end Inside

/-- A namespace without braces. -/
def Stmt.isOpenSpace : Stmt → Bool
  | .space _ _ braced _ => !braced
  | _ => false

/-- Statements that stand in their order and are nested. -/
structure NestedStmts (ss : List Stmt) : Prop where
  ordered : ss.Pairwise fun a b => a.span.Before b.span
  nested : ∀ s ∈ ss, Nested (.stmt s)

theorem nestedStmts_of_holdsDown (depth : Nat) {ss : List Stmt}
    (hordered : ss.Pairwise fun a b => a.span.Before b.span)
    (h : ∀ s ∈ ss, holdsDown Node.Aligned depth (.stmt s) = true) : NestedStmts ss :=
  ⟨hordered, fun s hs => throughout_of_holdsDown (h s hs)⟩

/-- Statements that are the last parts of a nested node. -/
theorem Nested.statements {n : Node} (h : Nested n) (front : List Node) {ss : List Stmt}
    (hparts : n.parts = front ++ ss.map .stmt) : NestedStmts ss where
  ordered := by
    have hordered := h.ordered
    rw [hparts, List.pairwise_append, List.pairwise_map] at hordered
    exact hordered.2.1
  nested s hs := h.part (by
    rw [hparts]
    exact List.mem_append_right _ (List.mem_map_of_mem hs))

/-- Of statements in their order, those before one that starts in front of an offset do not hold
the offset. -/
theorem NestedStmts.split {ss : List Stmt} (h : NestedStmts ss) {s : Stmt} (hs : s ∈ ss)
    {offset : Nat} (hstart : s.span.start < offset) :
    ∃ before after, ss = before ++ s :: after ∧ ∀ b ∈ before, b.span.stop < offset := by
  obtain ⟨before, after, rfl⟩ := List.append_of_mem hs
  refine ⟨before, after, rfl, fun b hb => ?_⟩
  have hbefore : b.span.Before s.span :=
    (List.pairwise_append.1 h.ordered).2.2 b hb s List.mem_cons_self
  obtain ⟨-, hstop⟩ := hbefore
  omega

end PhpAtlas
