import PhpAtlas.Proofs.Deduction.Conditions
import PhpAtlas.Proofs.Deduction.Questions
import PhpAtlas.Proofs.Deduction.Scopes

/-!
# The search for the closure around a position

The look-up of a variable ends in the closure whose body holds the position, if the search comes to
it.  On its way down the search passes over what ends before the position, and the walk behind such
a node goes on; at every node it enters the one part that holds the position.  Not every part of a
node is entered: the operands of an array access, of `isset` or of a `for` header, the later
conditions of an `if`, default values and the members of nested declarations are not.

## Main definitions

* `Expr.searched`, `Stmt.searched` — the expressions in which closures are looked for.
* `Lookup.Passed`, `Lookup.Behind` — the walk goes on behind a node, as it ends before the position.
* `Lookup.Decided` — a closure in a node has the last word on the candidates.
* `Enters` — the search goes on from a node to one of its parts.
* `Searched` — the search comes to a node of a file.

## Main results

* `Lookup.closureIn_eq_closureInAll` — closures are looked for in the operands, one by one.
* `Nested.behind` — the walk goes on behind every nested node that ends before the position.
* `Enters.decided` — what decides a part that holds the position, decides the node.
* `Searched.types_eq` — what decides a node that the search comes to, decides the look-up.
-/

namespace PhpAtlas

/-! ### Where closures are looked for -/

/-- The operands of an expression in which closures are looked for. -/
def Expr.searched : Expr → List Expr
  | .paren _ e | .unary _ _ e | .trailing _ e | .property _ _ e _ | .staticProperty _ e _
  | .classConstant _ e _ | .yieldFrom _ e | .throw _ e | .clone _ e => [e]
  | .assign _ _ a b | .binary _ _ a b | .pipe _ a b => [a, b]
  | .ternary _ condition yes no => condition :: (yes.toList ++ [no])
  | .yield _ key value => key.toList ++ value.toList
  | .call _ (.function e) slots | .call _ (.method _ e _) slots | .call _ (.static e _) slots =>
      e :: slots.flatMap Slot.exprs
  | .new _ _ slots | .array _ .brackets slots | .array _ .keyword slots =>
      slots.flatMap Slot.exprs
  | .select _ subject arms => subject :: arms.map (·.value)
  | _ => []

/-- Whether an expression is a closure or an arrow function. -/
def Expr.isFunction : Expr → Bool
  | .closure .. | .arrow .. => true
  | _ => false

/-- The expressions of a statement in which closures are looked for. -/
def Stmt.searched : Stmt → List Expr
  | .expression _ e | .ret _ (some e) | .whileLoop _ e _ | .eachLoop _ e _ _ _ | .switch _ e _
  | .cond _ (⟨some e, _⟩ :: _) => [e]
  | .echo _ values => values
  | _ => []

/-- The body of a loop. -/
def Stmt.loopBody? : Stmt → Option (Body Stmt)
  | .whileLoop _ _ b | .doLoop _ b _ | .forLoop _ _ _ _ b | .eachLoop _ _ _ _ b => some b
  | _ => none

/-- The searched operands are parts of the expression, in their order. -/
theorem Expr.searched_sublist (e : Expr) :
    (e.searched.map Node.expr).Sublist (Node.expr e).parts := by
  cases e with
  | call _ callee slots =>
    cases callee with
    | function e => exact List.Sublist.refl _
    | method _ e s | static e s =>
      refine List.Sublist.map _ (.cons_cons _ ?_)
      exact List.sublist_append_right _ _
  | select _ subject arms =>
    refine List.Sublist.cons_cons _ (List.Sublist.map _ ?_)
    induction arms with
    | nil => exact .slnil
    | cons a rest ih =>
      exact List.Sublist.append (List.sublist_append_right a.conditions [a.value]) ih
  | array _ form slots =>
    cases form with
    | list => exact List.nil_sublist _
    | brackets | keyword => exact List.Sublist.refl _
  | new _ cls slots => exact List.sublist_cons_self _ _
  | ternary _ condition yes no =>
    simp [Expr.searched, Node.parts, Node.partsOfExpr]
  | yield _ key value =>
    simp [Expr.searched, Node.parts, Node.partsOfExpr]
  | _ => simp [Expr.searched, Node.parts, Node.partsOfExpr]

theorem Stmt.searched_sublist (s : Stmt) :
    (s.searched.map Node.expr).Sublist (Node.stmt s).parts := by
  cases s with
  | ret _ value => cases value <;> exact List.Sublist.refl _
  | cond _ branches =>
    match branches with
    | [] | ⟨none, _⟩ :: _ => exact List.nil_sublist _
    | ⟨some e, b⟩ :: rest => exact (List.nil_sublist _).cons_cons _
  | _ => simp [Stmt.searched, Node.parts, Node.partsOfStmt]

theorem Stmt.loopBody?_mem_parts {s : Stmt} {b : Body Stmt} (h : s.loopBody? = some b) :
    Node.body b ∈ (Node.stmt s).parts := by
  cases s with
  | whileLoop | doLoop | forLoop | eachLoop =>
    cases h
    simp [Node.parts, Node.partsOfStmt]
  | _ => cases h

namespace Lookup

variable {l : Lookup} {p : Point} {types : TypeList}

/-- Outside of an expression there is none of its closures. -/
theorem closureIn_of_not_within {e : Expr} (h : p.within e.span = false) :
    l.closureIn e p types = some .outside := by
  have h : ¬ p.within e.span = true := Bool.eq_false_iff.1 h
  cases e with
  | closure span _ _ _ body =>
    rw [closureIn]
    exact if_neg fun hboth => h (Bool.and_eq_true_iff.1 hboth).1
  | arrow span _ _ _ body =>
    rw [closureIn]
    exact if_neg fun hboth => h (Bool.and_eq_true_iff.1 hboth).1
  | call span callee slots => cases callee <;> exact if_neg h
  | array span form slots =>
    cases form with
    | list => rfl
    | brackets | keyword => exact if_neg h
  | _ => first | exact if_neg h | simp only [closureIn]

/-- Outside of an expression none of its conditions counts. -/
theorem narrowInside_of_not_within {e : Expr} (h : p.within e.span = false) (types : TypeList) :
    l.narrowInside p e types = some types := by
  have h : ¬ p.within e.span = true := Bool.eq_false_iff.1 h
  cases e with
  | call span callee slots => cases callee <;> exact if_neg h
  | _ => first | exact if_neg h | simp only [narrowInside]

/-- Look on if the position lies in no closure yet. -/
def orElse (next : Option Inner) : Inner → Option Inner
  | .outside => next
  | found => some found

theorem closureInAll_cons (e : Expr) (rest : List Expr) :
    l.closureInAll (e :: rest) p types =
      (l.closureIn e p types).bind (orElse (l.closureInAll rest p types)) := by
  rw [closureInAll]
  rfl

theorem closureInAll_singleton (e : Expr) :
    l.closureInAll [e] p types = l.closureIn e p types := by
  rw [closureInAll_cons]
  cases l.closureIn e p types with
  | none => rfl
  | some inner => cases inner <;> rfl

/-- Closures are looked for in one list behind the other. -/
theorem closureInAll_append (es rest : List Expr) :
    l.closureInAll (es ++ rest) p types =
      (l.closureInAll es p types).bind (orElse (l.closureInAll rest p types)) := by
  induction es with
  | nil => rfl
  | cons e es ih =>
    rw [List.cons_append, closureInAll_cons, closureInAll_cons, ih]
    cases l.closureIn e p types with
    | none => rfl
    | some inner => cases inner <;> rfl

theorem closureInOption_eq (o : Option Expr) :
    l.closureInOption o p types = l.closureInAll o.toList p types := by
  cases o with
  | none => simp only [closureInOption, Option.toList, closureInAll]
  | some e => rw [closureInOption, Option.toList_some, closureInAll_singleton]

theorem closureInArms_eq (arms : List (Arm Expr)) :
    l.closureInArms arms p types = l.closureInAll (arms.map (·.value)) p types := by
  induction arms with
  | nil => simp only [closureInArms, List.map_nil, closureInAll]
  | cons a rest ih => simp only [closureInArms, List.map_cons, closureInAll, ih]

theorem closureInSlots_eq (slots : List (Slot Expr)) :
    l.closureInSlots slots p types = l.closureInAll (slots.flatMap Slot.exprs) p types := by
  induction slots with
  | nil => simp only [closureInSlots, List.flatMap_nil, closureInAll]
  | cons slot rest ih =>
    cases slot <;>
      simp only [closureInSlots, List.flatMap_cons, Slot.exprs, List.cons_append, List.nil_append,
        closureInAll, ih]

/-- In an expression other than a closure, closures are looked for in its operands, one by one. -/
theorem closureIn_eq_closureInAll {e : Expr} (h : e.isFunction = false) :
    l.closureIn e p types =
      if p.within e.span then l.closureInAll e.searched p types else some .outside := by
  cases e with
  | closure | arrow => cases h
  | paren | unary | trailing | property | staticProperty | classConstant | yieldFrom | throw
  | clone => simp only [closureIn, Expr.searched, Expr.span, closureInAll_singleton]
  | assign _ _ a b | binary _ _ a b | pipe _ a b =>
    rw [Expr.searched, closureInAll_cons, closureInAll_singleton, closureIn]
    rfl
  | ternary _ condition yes no =>
    rw [Expr.searched, closureInAll_cons, closureInAll_append, closureInAll_singleton,
      ← closureInOption_eq, closureIn]
    rfl
  | yield _ key value =>
    rw [Expr.searched, closureInAll_append, ← closureInOption_eq, ← closureInOption_eq, closureIn]
    rfl
  | call _ callee slots =>
    cases callee with
    | function e | method _ e _ | static e _ =>
      rw [Expr.searched, closureInAll_cons, ← closureInSlots_eq, closureIn]
      rfl
  | new span _ slots =>
    rw [closureIn, closureInSlots_eq]
    exact if_congr Iff.rfl rfl rfl
  | array span form slots =>
    cases form with
    | list => simp only [closureIn, Expr.searched, closureInAll, ite_self]
    | brackets | keyword =>
      rw [closureIn, closureInSlots_eq]
      exact if_congr Iff.rfl rfl rfl
  | select _ subject arms =>
    rw [Expr.searched, closureInAll_cons, ← closureInArms_eq, closureIn]
    rfl
  | _ => simp only [closureIn, Expr.searched, closureInAll, ite_self]

theorem closureInStmt_eq (s : Stmt) :
    l.closureInStmt s p types = l.closureInAll s.searched p types := by
  cases s with
  | expression | whileLoop | eachLoop | switch =>
    simp only [closureInStmt, Stmt.searched, closureInAll_singleton]
  | ret _ value =>
    cases value <;> simp only [closureInStmt, Stmt.searched, closureInAll_singleton, closureInAll]
  | cond _ branches =>
    match branches with
    | [] | ⟨none, _⟩ :: _ => simp only [closureInStmt, Stmt.searched, closureInAll]
    | ⟨some e, _⟩ :: _ => simp only [closureInStmt, Stmt.searched, closureInAll_singleton]
  | _ => simp only [closureInStmt, Stmt.searched, closureInAll]

/-- Expressions without a closure around the position are passed over. -/
theorem closureInAll_of_outside {es : List Expr}
    (h : ∀ e ∈ es, l.closureIn e p types = some .outside) :
    l.closureInAll es p types = some .outside := by
  induction es with
  | nil => rfl
  | cons e rest ih =>
    rw [closureInAll_cons, h e List.mem_cons_self]
    exact ih fun e he => h e (List.mem_cons_of_mem _ he)

end Lookup

/-! ### What ends before the position -/

/-- The parts of a nested node in front of one that starts before an offset end before it. -/
theorem Nested.front_stop {n m : Node} (h : Nested n) (front back : List Node)
    (hparts : n.parts = front ++ m :: back) {offset : Nat} (hm : m.span.start < offset) :
    ∀ x ∈ front, x.span.stop < offset := by
  intro x hx
  have hordered := h.ordered
  rw [hparts] at hordered
  obtain ⟨-, hbefore⟩ : x.span.Before m.span :=
    (List.pairwise_append.1 hordered).2.2 x hx m List.mem_cons_self
  omega

namespace Lookup

variable {l : Lookup} {p : Point}

/-- No closure in the node has answered where a walk ends. -/
def Passed (l : Lookup) (p : Point) : Node → Prop
  | .stmt s => ∀ conditional types w,
      l.walkStmt s p conditional types = some w → w.inClosure = false
  | .body b => ∀ conditional types w,
      l.walk b.statements p conditional types = some w → w.inClosure = false
  | .case b => ∀ conditional types w,
      l.walk b.body.statements p conditional types = some w → w.inClosure = false
  | .clause c => ∀ conditional types w,
      l.walk c.body.statements p conditional types = some w → w.inClosure = false
  | _ => True

/-- A node ends before the position, and the walk goes on behind it. -/
structure Behind (l : Lookup) (p : Point) (n : Node) : Prop where
  start : n.span.start < p.offset
  stop : n.span.stop < p.offset
  passed : Passed l p n

theorem Behind.not_within {n : Node} (h : Behind l p n) : ¬ p.within n.span = true :=
  Bool.eq_false_iff.1 (Span.holds_eq_false h.stop)

/-- The walk goes on behind statements that end before the position. -/
theorem walk_append {before : List Stmt} (hbefore : ∀ s ∈ before, Behind l p (.stmt s))
    {rest : List Stmt} {conditional : Bool} {types : TypeList} {w : Walked}
    (h : l.walk (before ++ rest) p conditional types = some w) :
    ∃ types', l.walk rest p conditional types' = some w := by
  induction before generalizing types with
  | nil => exact ⟨types, h⟩
  | cons s before ih =>
    have hs := hbefore s List.mem_cons_self
    -- the walk does not stop in front of the statement, and looks for no closure in it
    have hstart : ¬ p.offset ≤ s.span.start := Nat.not_le.2 hs.start
    have hwithin : ¬ p.within s.span = true := hs.not_within
    rw [List.cons_append, walk_cons, if_neg hstart, if_neg hwithin, Option.bind_some,
      behindClosures, Option.bind_eq_some_iff] at h
    obtain ⟨w', hw', h⟩ := h
    rw [hs.passed _ _ _ hw'] at h
    exact ih (fun s hs => hbefore s (List.mem_cons_of_mem _ hs)) h

theorem inClosure_of_walk {ss : List Stmt} (hss : ∀ s ∈ ss, Behind l p (.stmt s))
    {conditional : Bool} {types : TypeList} {w : Walked}
    (h : l.walk ss p conditional types = some w) : w.inClosure = false := by
  rw [← List.append_nil ss] at h
  obtain ⟨types', h⟩ := walk_append hss h
  cases h
  rfl

theorem inBranch_of_not_within {branches : List (Branch Expr Stmt)}
    (h : ∀ b ∈ branches, ¬ p.within b.body.span = true) (failed : List Expr) (conditional : Bool)
    (types : TypeList) : l.inBranch failed branches p conditional types = some none := by
  induction branches generalizing failed with
  | nil => rfl
  | cons b rest ih =>
    rw [inBranch, if_neg (h b List.mem_cons_self)]
    exact ih (fun b hb => h b (List.mem_cons_of_mem _ hb)) _

theorem inClosure_of_behindBranches {branches : List (Branch Expr Stmt)}
    (h : ∀ b ∈ branches, Behind l p (.body b.body)) {types : TypeList} {w : Walked}
    (hw : l.behindBranches branches p types = some w) : w.inClosure = false := by
  induction branches generalizing types with
  | nil =>
    cases hw
    rfl
  | cons b rest ih =>
    have hb := h b List.mem_cons_self
    have hstart : b.body.span.start < p.offset := hb.start
    rw [behindBranches, if_pos hstart, Option.bind_eq_bind, Option.bind_eq_some_iff] at hw
    obtain ⟨w', hw', hw⟩ := hw
    rw [hb.passed _ _ _ hw'] at hw
    exact ih (fun b hb => h b (List.mem_cons_of_mem _ hb)) hw

/-- The walk goes on behind cases that end before the position. -/
theorem walkCases_append {before : List (Branch Expr Stmt)}
    (hbefore : ∀ b ∈ before, Behind l p (.case b)) {rest : List (Branch Expr Stmt)}
    {conditional : Bool} {types : TypeList} {w : Walked}
    (h : l.walkCases (before ++ rest) p conditional types = some w) :
    ∃ types', l.walkCases rest p conditional types' = some w := by
  induction before generalizing types with
  | nil => exact ⟨types, h⟩
  | cons b before ih =>
    have hb := hbefore b List.mem_cons_self
    have hstart : ¬ p.offset ≤ b.body.span.start := Nat.not_le.2 hb.start
    have hwithin : ¬ p.within b.body.span = true := hb.not_within
    rw [List.cons_append, walkCases, if_neg hstart, if_neg hwithin, Option.bind_eq_bind,
      Option.bind_eq_some_iff] at h
    obtain ⟨w', hw', h⟩ := h
    rw [hb.passed _ _ _ hw'] at h
    exact ih (fun b hb => hbefore b (List.mem_cons_of_mem _ hb)) h

/-- The walk goes on behind `catch` clauses that end before the position. -/
theorem walkCatches_append {before : List (Catch Stmt)}
    (hbefore : ∀ c ∈ before, Behind l p (.clause c)) {rest : List (Catch Stmt)}
    {conditional : Bool} {types : TypeList} {r : Except Walked TypeList}
    (h : l.walkCatches (before ++ rest) p conditional types = some r) :
    ∃ types', l.walkCatches rest p conditional types' = some r := by
  induction before generalizing types with
  | nil => exact ⟨types, h⟩
  | cons c before ih =>
    have hc := hbefore c List.mem_cons_self
    have hstart : ¬ p.offset ≤ c.span.start := Nat.not_le.2 hc.start
    have hwithin : ¬ p.within c.span = true := hc.not_within
    rw [List.cons_append, walkCatches, if_neg hstart, if_neg hwithin, Option.bind_eq_bind,
      Option.bind_eq_some_iff] at h
    obtain ⟨w', hw', h⟩ := h
    rw [hc.passed _ _ _ hw'] at h
    exact ih (fun c hc => hbefore c (List.mem_cons_of_mem _ hc)) h

theorem walkCatches_of_behind {catches : List (Catch Stmt)}
    (hcatches : ∀ c ∈ catches, Behind l p (.clause c)) {conditional : Bool} {types : TypeList}
    {r : Except Walked TypeList} (h : l.walkCatches catches p conditional types = some r) :
    ∃ types', r = .ok types' := by
  rw [← List.append_nil catches] at h
  obtain ⟨types', h⟩ := walkCatches_append hcatches h
  cases h
  exact ⟨types', rfl⟩

/-- The walk of a loop is a walk of its body. -/
theorem walk_of_loopBody? {s : Stmt} {b : Body Stmt} (hs : s.loopBody? = some b)
    {conditional : Bool} {types : TypeList} {w : Walked}
    (h : l.walkStmt s p conditional types = some w) :
    ∃ conditional' types', l.walk b.statements p conditional' types' = some w := by
  have hbind : ∀ {o : Option TypeList} {conditional' : Bool},
      (o.bind fun types' => l.walk b.statements p conditional' types') = some w →
      ∃ conditional' types', l.walk b.statements p conditional' types' = some w := by
    intro o conditional' h
    obtain ⟨types', -, h⟩ := Option.bind_eq_some_iff.1 h
    exact ⟨conditional', types', h⟩
  cases s with
  | doLoop span body condition =>
    cases hs
    exact ⟨_, _, h⟩
  | forLoop span initial conditions steps body =>
    cases hs
    exact hbind h
  | eachLoop span subject key target body =>
    cases hs
    rw [walkStmt] at h
    split at h <;> exact hbind h
  | whileLoop span condition body =>
    cases hs
    rw [walkStmt] at h
    split at h
    · exact hbind h
    · split at h <;> exact hbind h
  | _ => cases hs

/-- The walk of a statement goes on if it goes on behind its parts. -/
theorem passed_stmt {s : Stmt} (hparts : ∀ m ∈ (Node.stmt s).parts, Behind l p m) :
    Passed l p (.stmt s) := by
  have hbody : ∀ b, Node.body b ∈ (Node.stmt s).parts → ∀ {conditional types w},
      l.walk b.statements p conditional types = some w → w.inClosure = false :=
    fun b hb {conditional types w} => (hparts (.body b) hb).passed conditional types w
  have hgoOn : ∀ {o : Option TypeList} {w}, o.map goOn = some w → w.inClosure = false := by
    intro o w h
    obtain ⟨types, -, rfl⟩ := Option.map_eq_some_iff.1 h
    rfl
  intro conditional types w h
  cases s with
  | expression span e =>
    rw [walkStmt] at h
    split at h <;> exact hgoOn h
  | ret _ value =>
    cases value with
    | none =>
      cases h
      rfl
    | some e => exact hgoOn h
  | block b => exact inClosure_of_walk (fun s hs => hparts _ (List.mem_map_of_mem hs)) h
  | space _ _ _ inner => exact inClosure_of_walk (fun s hs => hparts _ (List.mem_map_of_mem hs)) h
  | cond span branches =>
    have hbranches : ∀ b ∈ branches, Behind l p (.body b.body) :=
      fun b hb => hparts _ (Node.branch_mem hb)
    rw [walkStmt] at h
    split at h
    · exact hgoOn h
    · rw [inBranch_of_not_within fun b hb => (hbranches b hb).not_within, Option.bind_eq_bind,
        Option.bind_some, Option.bind_eq_bind, Option.bind_eq_some_iff] at h
      obtain ⟨inside, -, h⟩ := h
      cases inside with
      | some types =>
        cases h
        rfl
      | none => exact inClosure_of_behindBranches hbranches h
  | eachLoop | whileLoop | doLoop | forLoop =>
    obtain ⟨conditional', types', h⟩ := walk_of_loopBody? rfl h
    exact hbody _ (Stmt.loopBody?_mem_parts rfl) h
  | switch span subject cases =>
    have hcases : ∀ b ∈ cases, Behind l p (.case b) := fun b hb =>
      hparts _ (List.mem_cons_of_mem _ (List.mem_map_of_mem hb))
    rw [walkStmt, ← List.append_nil cases] at h
    obtain ⟨types', h⟩ := walkCases_append hcases h
    cases h
    rfl
  | tryCatch span b catches ensureStart ensure =>
    have hcatches : ∀ c ∈ catches, Behind l p (.clause c) :=
      fun c hc => hparts _ (Node.catch_mem hc)
    rw [walkStmt] at h
    split at h
    · exact hbody b List.mem_cons_self h
    · rw [Option.bind_eq_bind, Option.bind_eq_some_iff] at h
      obtain ⟨w', hw', h⟩ := h
      rw [hbody b List.mem_cons_self hw', if_neg Bool.false_ne_true, Option.bind_eq_bind,
        Option.bind_eq_some_iff] at h
      -- neither the body nor a clause has ended the walk, so `finally` comes next
      obtain ⟨r, hr, h⟩ := h
      obtain ⟨types', rfl⟩ := walkCatches_of_behind hcatches hr
      dsimp only at h
      split at h
      · cases ensure with
        | none =>
          cases h
          rfl
        | some last => exact hbody last (Node.ensure_mem rfl) h
      · cases h
        rfl
  | _ =>
    cases h
    rfl

end Lookup

/-- The walk goes on behind every nested node that ends before the position. -/
theorem Nested.behind {n : Node} (h : Nested n) {l : Lookup} {p : Point}
    (hstop : n.span.stop < p.offset) : Lookup.Behind l p n := by
  induction h with
  | intro n haligned _ ih =>
    have hparts : ∀ m ∈ n.parts, Lookup.Behind l p m := fun m hm =>
      ih m hm (Nat.lt_of_le_of_lt (haligned.inside m hm).2 hstop)
    refine ⟨Nat.lt_of_le_of_lt haligned.proper hstop, hstop, ?_⟩
    cases n with
    | stmt s => exact Lookup.passed_stmt hparts
    | body b =>
      exact fun _ _ _ => Lookup.inClosure_of_walk fun s hs => hparts _ (List.mem_map_of_mem hs)
    | case b =>
      exact fun _ _ _ => Lookup.inClosure_of_walk fun s hs =>
        hparts _ (List.mem_append_right _ (List.mem_map_of_mem hs))
    | clause c => exact (hparts (.body c.body) List.mem_cons_self).passed
    | _ => trivial

/-! ### What a closure decides -/

namespace Lookup

variable {l : Lookup} {p : Point} {answer : Option TypeList}

/-- A closure has answered, for a variable that is not captured by reference on the way. -/
def Found (answer : Option TypeList) (inner : Inner) : Prop :=
  ∃ types, inner = .inside types false ∧ answer = some types

/-- A walk has ended in a closure. -/
def Ended (answer : Option TypeList) (w : Walked) : Prop :=
  w.inClosure = true ∧ answer = some w.types

/-- Whatever the candidates in front of a node are, a look-up that comes through it has the answer
of a closure in it. -/
def Decided (l : Lookup) (p : Point) (answer : Option TypeList) : Node → Prop
  | .expr e => ∀ types inner, l.closureIn e p types = some inner → Found answer inner
  | .stmt s => ∀ rest conditional types w, (l.closureInStmt s p types).bind
      (l.behindClosures s rest p conditional types) = some w → Ended answer w
  | .body b => ∀ conditional types w,
      l.walk b.statements p conditional types = some w → Ended answer w
  | .case b => ∀ conditional types w,
      l.walk b.body.statements p conditional types = some w → Ended answer w
  | .clause c => ∀ conditional types w,
      l.walk c.body.statements p conditional types = some w → Ended answer w
  | _ => False

/-- Among expressions, the first that is decided answers if those before it end in front of the
position. -/
theorem Decided.closureInAll {e : Expr} (h : Decided l p answer (.expr e))
    {before after : List Expr} (hbefore : ∀ b ∈ before, b.span.stop < p.offset)
    {types : TypeList} {inner : Inner}
    (hinner : l.closureInAll (before ++ e :: after) p types = some inner) : Found answer inner := by
  -- what ends before the position has no closure around it
  have houtside : l.closureInAll before p types = some .outside :=
    closureInAll_of_outside fun b hb => closureIn_of_not_within (Span.holds_eq_false (hbefore b hb))
  rw [closureInAll_append, houtside, Option.bind_some, orElse, closureInAll_cons,
    Option.bind_eq_some_iff] at hinner
  obtain ⟨first, hfirst, hinner⟩ := hinner
  obtain ⟨found, rfl, hanswer⟩ := h types first hfirst
  cases hinner
  exact ⟨found, rfl, hanswer⟩

/-- A statement is decided if its closures are. -/
theorem decided_of_found {s : Stmt}
    (h : ∀ types inner, l.closureInStmt s p types = some inner → Found answer inner) :
    Decided l p answer (.stmt s) := by
  intro rest conditional types w hw
  obtain ⟨inner, hinner, hw⟩ := Option.bind_eq_some_iff.1 hw
  obtain ⟨found, rfl, hanswer⟩ := h types inner hinner
  cases hw
  exact ⟨rfl, hanswer⟩

/-- A statement is decided if its own closures end before the position and its walk is decided. -/
theorem decided_of_ended {s : Stmt} (hsearched : ∀ e ∈ s.searched, e.span.stop < p.offset)
    (h : ∀ conditional types w, l.walkStmt s p conditional types = some w → Ended answer w) :
    Decided l p answer (.stmt s) := by
  intro rest conditional types w hw
  have houtside : l.closureInStmt s p types = some .outside := by
    rw [closureInStmt_eq]
    exact closureInAll_of_outside fun e he =>
      closureIn_of_not_within (Span.holds_eq_false (hsearched e he))
  rw [houtside, Option.bind_some, behindClosures, Option.bind_eq_some_iff] at hw
  obtain ⟨w', hw', hw⟩ := hw
  have hended := h conditional types w' hw'
  rw [hended.1, if_pos rfl] at hw
  exact Option.some.inj hw ▸ hended

/-- A walk is decided if the statement that holds the position is. -/
theorem Decided.walk {s : Stmt} (h : Decided l p answer (.stmt s)) {ss : List Stmt}
    (hss : NestedStmts ss) (hs : s ∈ ss) (hp : s.span.Encloses p.offset) {conditional : Bool}
    {types : TypeList} {w : Walked} (hw : l.walk ss p conditional types = some w) :
    Ended answer w := by
  obtain ⟨before, after, rfl, hbefore⟩ := hss.split hs hp.1
  -- the statements in front of the one that holds the position are passed over
  have hbehind : ∀ b ∈ before, Behind l p (.stmt b) := fun b hb =>
    (hss.nested b (List.mem_append_left _ hb)).behind (hbefore b hb)
  obtain ⟨types', hw⟩ := walk_append hbehind hw
  have hwithin : p.within s.span = true := hp.holds
  rw [walk_cons, if_neg (Nat.not_le.2 hp.1), if_pos hwithin] at hw
  exact h _ _ _ _ hw

end Lookup

/-! ### One step of the search -/

/-- The search for the closure around a position goes on from a node to a part of it.  From a
closure that takes the variable by reference it does not: what is assigned behind that closure is
added to what is found in it. -/
inductive Enters (var : String) : Node → Node → Prop
  | operand {e e' : Expr} (h : e' ∈ e.searched) : Enters var (.expr e) (.expr e')
  | arrow {span : Span} {parameters : List (Parameter Expr)} {returns : Option ReturnHint}
      {arrow : Nat} {body : Expr} (h : arrow ≤ body.span.start) :
      Enters var (.expr (.arrow span parameters returns arrow body)) (.expr body)
  | closure {span : Span} {parameters : List (Parameter Expr)} {captures : List Capture}
      {returns : Option ReturnHint} {body : Body Stmt}
      (h : ∀ c ∈ captures, c.name = var → c.byRef = false) :
      Enters var (.expr (.closure span parameters captures returns body)) (.body body)
  | value {s : Stmt} {e : Expr} (h : e ∈ s.searched) : Enters var (.stmt s) (.expr e)
  | block {b : Body Stmt} {s : Stmt} (h : s ∈ b.statements) :
      Enters var (.stmt (.block b)) (.stmt s)
  | branch {span : Span} {branches : List (Branch Expr Stmt)} {b : Branch Expr Stmt}
      (h : b ∈ branches) : Enters var (.stmt (.cond span branches)) (.body b.body)
  | loop {s : Stmt} {b : Body Stmt} (h : s.loopBody? = some b) : Enters var (.stmt s) (.body b)
  | case {span : Span} {subject : Expr} {cases : List (Branch Expr Stmt)} {b : Branch Expr Stmt}
      (h : b ∈ cases) : Enters var (.stmt (.switch span subject cases)) (.case b)
  | attempt {span : Span} {b : Body Stmt} {catches : List (Catch Stmt)} {ensureStart : Nat}
      {ensure : Option (Body Stmt)} :
      Enters var (.stmt (.tryCatch span b catches ensureStart ensure)) (.body b)
  | clause {span : Span} {b : Body Stmt} {catches : List (Catch Stmt)} {ensureStart : Nat}
      {ensure : Option (Body Stmt)} {c : Catch Stmt} (h : c ∈ catches) :
      Enters var (.stmt (.tryCatch span b catches ensureStart ensure)) (.clause c)
  | ensure {span : Span} {b : Body Stmt} {catches : List (Catch Stmt)} {ensureStart : Nat}
      {last : Body Stmt} (h : ensureStart ≤ last.span.start) :
      Enters var (.stmt (.tryCatch span b catches ensureStart (some last))) (.body last)
  | inBody {b : Body Stmt} {s : Stmt} (h : s ∈ b.statements) : Enters var (.body b) (.stmt s)
  | inCase {b : Branch Expr Stmt} {s : Stmt} (h : s ∈ b.body.statements) :
      Enters var (.case b) (.stmt s)
  | inClause {c : Catch Stmt} : Enters var (.clause c) (.body c.body)

theorem Enters.mem_parts {var : String} {n m : Node} (h : Enters var n m) : m ∈ n.parts := by
  cases h with
  | @operand e e' h => exact e.searched_sublist.subset (List.mem_map_of_mem h)
  | arrow => exact List.mem_append_right _ List.mem_cons_self
  | closure => exact List.mem_append_right _ List.mem_cons_self
  | @value s e h => exact s.searched_sublist.subset (List.mem_map_of_mem h)
  | block h => exact List.mem_map_of_mem h
  | branch h => exact Node.branch_mem h
  | loop h => exact Stmt.loopBody?_mem_parts h
  | case h => exact List.mem_cons_of_mem _ (List.mem_map_of_mem h)
  | attempt => exact List.mem_cons_self
  | clause h => exact Node.catch_mem h
  | ensure => exact Node.ensure_mem rfl
  | inBody h => exact List.mem_map_of_mem h
  | inCase h => exact List.mem_append_right _ (List.mem_map_of_mem h)
  | inClause => exact List.mem_cons_self

namespace Nested

/-- Of expressions that are parts of a node, those before one that starts in front of an offset end
before it. -/
theorem splitExprs {n : Node} (h : Nested n) {es : List Expr}
    (hes : (es.map Node.expr).Sublist n.parts) {e : Expr} (he : e ∈ es) {offset : Nat}
    (hstart : e.span.start < offset) :
    ∃ before after, es = before ++ e :: after ∧ ∀ b ∈ before, b.span.stop < offset := by
  have hordered := List.pairwise_map.1 (h.ordered.sublist hes)
  obtain ⟨before, after, rfl⟩ := List.append_of_mem he
  refine ⟨before, after, rfl, fun b hb => ?_⟩
  obtain ⟨-, hbefore⟩ : b.span.Before e.span :=
    (List.pairwise_append.1 hordered).2.2 b hb e List.mem_cons_self
  omega

/-- The searched expressions of a statement stand in front of its other parts. -/
theorem searched_stop {s : Stmt} (h : Nested (.stmt s)) {m : Node}
    (hm : m ∈ (Node.stmt s).parts) (hexpr : ∀ e, m ≠ .expr e) {offset : Nat}
    (hstart : m.span.start < offset) : ∀ e ∈ s.searched, e.span.stop < offset := by
  -- where a statement has other parts, its searched expression is its first part
  have hfirst : ∀ {e : Expr} {rest : List Node}, (Node.stmt s).parts = .expr e :: rest →
      e.span.stop < offset := by
    intro e rest hparts
    have hordered := h.ordered
    rw [hparts] at hm hordered
    have hmem : m ∈ rest := (List.mem_cons.1 hm).resolve_left (hexpr e)
    obtain ⟨-, hbefore⟩ : e.span.Before m.span := (List.pairwise_cons.1 hordered).1 m hmem
    omega
  intro e he
  cases s with
  | expression | whileLoop | eachLoop | switch =>
    obtain rfl := List.mem_singleton.1 he
    exact hfirst rfl
  | ret _ value =>
    cases value with
    | none => cases he
    | some e' =>
      obtain rfl := List.mem_singleton.1 he
      exact hfirst rfl
  | cond _ branches =>
    match branches with
    | [] | ⟨none, _⟩ :: _ => cases he
    | ⟨some e', b⟩ :: rest =>
      obtain rfl := List.mem_singleton.1 he
      exact hfirst rfl
  | echo _ values =>
    obtain ⟨e', -, rfl⟩ := List.mem_map.1 hm
    exact absurd rfl (hexpr e')
  | _ => cases he

end Nested

namespace Lookup

variable {l : Lookup} {p : Point} {answer : Option TypeList}

/-- A closure without a capture of the variable by reference hands nothing back. -/
theorem captured_byRef (start : Nat) (parameters : List (Parameter Expr))
    {captures : List Capture} (h : ∀ c ∈ captures, c.name = l.var → c.byRef = false)
    (types : TypeList) : (l.captured start parameters captures types).2 = false := by
  unfold captured
  split
  · rfl
  · split
    · rename_i capture hfind
      have hname := List.find?_some hfind
      exact h capture (List.mem_of_find?_eq_some hfind) (beq_iff_eq.1 hname)
    · rfl

theorem mem_of_firstCondition? {branches : List (Branch Expr Stmt)} {e : Expr}
    (h : firstCondition? p branches = some e) :
    ∃ b ∈ branches, e ∈ b.condition := by
  match branches with
  | [] | ⟨none, _⟩ :: _ => cases h
  | ⟨some condition, body⟩ :: rest =>
    simp only [firstCondition?, Option.ite_none_right_eq_some] at h
    exact ⟨_, List.mem_cons_self, h.2⟩

theorem firstCondition?_eq_none {span : Span} {branches : List (Branch Expr Stmt)}
    (h : ∀ e ∈ (Stmt.cond span branches).searched, e.span.stop < p.offset) :
    firstCondition? p branches = none := by
  match branches with
  | [] | ⟨none, _⟩ :: _ => rfl
  | ⟨some e, _⟩ :: _ =>
    have hwithin : ¬ p.within e.span = true :=
      Bool.eq_false_iff.1 (Span.holds_eq_false (h e List.mem_cons_self))
    rw [firstCondition?, if_neg hwithin]

/-- A branch that holds the position decides. -/
theorem decided_branch {span : Span} {branches : List (Branch Expr Stmt)} {b : Branch Expr Stmt}
    (hn : Nested (.stmt (.cond span branches))) (hb : b ∈ branches)
    (hp : b.body.span.Encloses p.offset) (h : Decided l p answer (.body b.body)) :
    Decided l p answer (.stmt (.cond span branches)) := by
  have hsearched := hn.searched_stop (Node.branch_mem hb) (fun e => nofun) hp.1
  refine decided_of_ended hsearched fun conditional types w hw => ?_
  obtain ⟨before, after, rfl⟩ := List.append_of_mem hb
  -- the bodies of earlier branches end before the position
  have hbefore : ∀ earlier ∈ before, p.within earlier.body.span = false := by
    intro earlier hearlier
    refine Span.holds_eq_false (hn.front_stop (m := .body b.body)
      (before.flatMap Node.partsOfBranch ++ b.condition.toList.map .expr)
      (after.flatMap Node.partsOfBranch) ?_ hp.1 (.body earlier.body) ?_)
    · simp [Node.parts, Node.partsOfStmt, Node.partsOfBranch]
    · refine List.mem_append_left _ (List.mem_flatMap.2 ⟨earlier, hearlier, ?_⟩)
      simp [Node.partsOfBranch]
  rw [walkStmt, firstCondition?_eq_none hsearched, inBranch_append hbefore hp.holds] at hw
  simp only [Option.bind_eq_bind, Option.bind_eq_some_iff] at hw
  obtain ⟨found, ⟨types', -, w', hw', hfound⟩, hw⟩ := hw
  cases hfound
  cases hw
  exact h conditional types' w hw'

/-- A case that holds the position decides. -/
theorem decided_case {span : Span} {subject : Expr} {cases : List (Branch Expr Stmt)}
    {b : Branch Expr Stmt} (hn : Nested (.stmt (.switch span subject cases))) (hb : b ∈ cases)
    (hp : b.body.span.Encloses p.offset) (h : Decided l p answer (.case b)) :
    Decided l p answer (.stmt (.switch span subject cases)) := by
  have hmem : Node.case b ∈ (Node.stmt (.switch span subject cases)).parts :=
    List.mem_cons_of_mem _ (List.mem_map_of_mem hb)
  have hsearched := hn.searched_stop hmem (fun e => nofun) hp.1
  refine decided_of_ended hsearched fun conditional types w hw => ?_
  obtain ⟨before, after, rfl⟩ := List.append_of_mem hb
  have hbefore : ∀ earlier ∈ before, Behind l p (.case earlier) := by
    intro earlier hearlier
    -- the subject and the earlier cases stand in front of the case
    refine (hn.part ?_).behind (hn.front_stop (m := .case b)
      (.expr subject :: before.map .case) (after.map .case) ?_ hp.1 _ ?_)
    · exact List.mem_cons_of_mem _ (List.mem_map_of_mem (List.mem_append_left _ hearlier))
    · simp [Node.parts, Node.partsOfStmt]
    · exact List.mem_cons_of_mem _ (List.mem_map_of_mem hearlier)
  obtain ⟨types', hw⟩ := walkCases_append hbefore hw
  have hwithin : p.within b.body.span = true := hp.holds
  rw [walkCases, if_neg (Nat.not_le.2 hp.1), if_pos hwithin] at hw
  exact h conditional types' w hw

section Try

variable {span : Span} {b : Body Stmt} {catches : List (Catch Stmt)} {ensureStart : Nat}
  {ensure : Option (Body Stmt)}

/-- Behind its body, a `try` goes on with the clauses. -/
theorem walkStmt_tryCatch (hn : Nested (.stmt (.tryCatch span b catches ensureStart ensure)))
    (hb : b.span.stop < p.offset) {conditional : Bool} {types : TypeList} {w : Walked}
    (hw : l.walkStmt (.tryCatch span b catches ensureStart ensure) p conditional types = some w) :
    ∃ types' r, l.walkCatches catches p conditional types' = some r ∧
      (match r with
        | .error w => some w
        | .ok types =>
            if ensureStart < p.offset then l.walkEnsure ensure p conditional types
            else some (goOn types)) = some w := by
  have hbehind : Behind l p (.body b) := (hn.part List.mem_cons_self).behind hb
  have hwithin : ¬ p.within b.span = true := hbehind.not_within
  rw [walkStmt, if_neg hwithin, Option.bind_eq_bind, Option.bind_eq_some_iff] at hw
  obtain ⟨w', hw', hw⟩ := hw
  rw [hbehind.passed _ _ _ hw', if_neg Bool.false_ne_true, Option.bind_eq_bind,
    Option.bind_eq_some_iff] at hw
  obtain ⟨r, hr, hw⟩ := hw
  refine ⟨w'.types, r, hr, ?_⟩
  cases r <;> exact hw

/-- A `catch` clause that holds the position decides. -/
theorem decided_clause (hn : Nested (.stmt (.tryCatch span b catches ensureStart ensure)))
    {c : Catch Stmt} (hc : c ∈ catches) (hp : c.span.Encloses p.offset)
    (h : Decided l p answer (.clause c)) :
    Decided l p answer (.stmt (.tryCatch span b catches ensureStart ensure)) := by
  refine decided_of_ended (fun e => nofun) fun conditional types w hw => ?_
  obtain ⟨before, after, rfl⟩ := List.append_of_mem hc
  have hfront := hn.front_stop (m := .clause c) (.body b :: before.map .clause)
    (after.map .clause ++ ensure.toList.map .body)
    (by simp [Node.parts, Node.partsOfStmt]) hp.1
  have hbefore : ∀ earlier ∈ before, Behind l p (.clause earlier) := by
    intro earlier hearlier
    have hmem := hfront _ (List.mem_cons_of_mem _ (List.mem_map_of_mem hearlier))
    exact (hn.part (Node.catch_mem (List.mem_append_left _ hearlier))).behind hmem
  obtain ⟨types', r, hr, hw⟩ := walkStmt_tryCatch hn (hfront _ List.mem_cons_self) hw
  obtain ⟨types', hr⟩ := walkCatches_append hbefore hr
  have hwithin : p.within c.span = true := hp.holds
  rw [walkCatches, if_neg (Nat.not_le.2 hp.1), if_pos hwithin, Option.map_eq_some_iff] at hr
  obtain ⟨w', hw', rfl⟩ := hr
  cases hw
  exact h _ _ _ hw'

/-- A `finally` clause that holds the position decides. -/
theorem decided_ensure {last : Body Stmt}
    (hn : Nested (.stmt (.tryCatch span b catches ensureStart (some last))))
    (hstart : ensureStart ≤ last.span.start) (hp : last.span.Encloses p.offset)
    (h : Decided l p answer (.body last)) :
    Decided l p answer (.stmt (.tryCatch span b catches ensureStart (some last))) := by
  refine decided_of_ended (fun e => nofun) fun conditional types w hw => ?_
  have hfront := hn.front_stop (m := .body last) (.body b :: catches.map .clause) []
    (by simp [Node.parts, Node.partsOfStmt]) hp.1
  have hcatches : ∀ c ∈ catches, Behind l p (.clause c) := fun c hc =>
    (hn.part (Node.catch_mem hc)).behind
      (hfront _ (List.mem_cons_of_mem _ (List.mem_map_of_mem hc)))
  obtain ⟨types', r, hr, hw⟩ := walkStmt_tryCatch hn (hfront _ List.mem_cons_self) hw
  obtain ⟨types', rfl⟩ := walkCatches_of_behind hcatches hr
  dsimp only at hw
  rw [if_pos (Nat.lt_of_le_of_lt hstart hp.1)] at hw
  exact h _ _ _ hw

end Try

end Lookup

/-- What decides a part that the search enters and that holds the position, decides the node. -/
theorem Enters.decided {l : Lookup} {p : Point} {answer : Option TypeList} {n m : Node}
    (h : Enters l.var n m) (hn : Nested n) (hp : m.span.Encloses p.offset)
    (hm : l.Decided p answer m) : l.Decided p answer n := by
  have hwithin : p.within n.span = true := ((hn.inside h.mem_parts).encloses hp).holds
  cases h with
  | @operand e e' h =>
    intro types inner hinner
    -- functions have no operands that are searched
    have hfunction : e.isFunction = false := by
      cases e with
      | closure | arrow => cases h
      | _ => rfl
    obtain ⟨before, after, hsplit, hbefore⟩ := hn.splitExprs e.searched_sublist h hp.1
    have hwithin : p.within e.span = true := hwithin
    rw [Lookup.closureIn_eq_closureInAll hfunction, if_pos hwithin, hsplit] at hinner
    exact hm.closureInAll hbefore hinner
  | @arrow span parameters returns arrow body harrow =>
    intro types inner hinner
    -- the body stands behind the arrow, where the function is a scope of its own
    have hboth : (p.within span && p.within ⟨arrow, body.span.stop⟩) = true := by
      obtain ⟨hstart, hstop⟩ : body.span.Encloses p.offset := hp
      refine Bool.and_eq_true_iff.2 ⟨hwithin, Span.holds_iff.2 ⟨?_, hstop⟩⟩
      simp only
      omega
    rw [Lookup.closureIn, if_pos hboth, Option.bind_eq_bind, Option.bind_eq_some_iff] at hinner
    obtain ⟨first, hfirst, hinner⟩ := hinner
    obtain ⟨found, rfl, hanswer⟩ := hm _ first hfirst
    cases hinner
    exact ⟨found, rfl, hanswer⟩
  | @closure span parameters captures returns body hcaptures =>
    intro types inner hinner
    have hboth : (p.within span && p.within body.span) = true :=
      Bool.and_eq_true_iff.2 ⟨hwithin, hp.holds⟩
    rw [Lookup.closureIn, if_pos hboth] at hinner
    -- without a reference, nothing that is assigned behind the closure is added
    have hbyRef := Lookup.captured_byRef span.start parameters hcaptures types
    simp only [Option.bind_eq_bind, Option.bind_eq_some_iff, hbyRef] at hinner
    obtain ⟨w, hw, hinner⟩ := hinner
    obtain ⟨hended, hanswer⟩ := hm _ _ w hw
    rw [hended] at hinner
    cases hinner
    exact ⟨w.types, rfl, hanswer⟩
  | @value s e h =>
    refine Lookup.decided_of_found fun types inner hinner => ?_
    obtain ⟨before, after, hsplit, hbefore⟩ := hn.splitExprs s.searched_sublist h hp.1
    rw [Lookup.closureInStmt_eq, hsplit] at hinner
    exact hm.closureInAll hbefore hinner
  | block h =>
    exact Lookup.decided_of_ended (fun e => nofun) fun _ _ _ hw =>
      hm.walk (hn.statements [] rfl) h hp hw
  | branch h => exact Lookup.decided_branch hn h hp hm
  | @loop s b h =>
    have hsearched := hn.searched_stop (Stmt.loopBody?_mem_parts h) (fun e => nofun) hp.1
    refine Lookup.decided_of_ended hsearched fun conditional types w hw => ?_
    obtain ⟨conditional', types', hw⟩ := Lookup.walk_of_loopBody? h hw
    exact hm _ _ _ hw
  | case h => exact Lookup.decided_case hn h hp hm
  | @attempt span b catches ensureStart ensure =>
    refine Lookup.decided_of_ended (fun e => nofun) fun conditional types w hw => ?_
    have hbody : p.within b.span = true := hp.holds
    rw [Lookup.walkStmt, if_pos hbody] at hw
    exact hm _ _ _ hw
  | clause h => exact Lookup.decided_clause hn h hp hm
  | ensure h => exact Lookup.decided_ensure hn h hp hm
  | inBody h => exact fun _ _ _ hw => hm.walk (hn.statements [] rfl) h hp hw
  | inCase h => exact fun _ _ _ hw => hm.walk (hn.statements _ rfl) h hp hw
  | inClause => exact hm

/-! ### The search in a file -/

/-- The search for the closure around a position comes to a node: it starts with the bodies of
functions and methods, and with all other statements of the file and its namespaces. -/
inductive Searched (file : List Stmt) (var : String) : Node → Prop
  | routine {d : FunctionDecl Expr Stmt} {owner : Option (ClassDecl Expr Stmt)} {body : Body Stmt}
      (h : Routine file d owner) (hbody : d.body = some body) : Searched file var (.body body)
  | statement {ss : List Stmt} {s : Stmt} (h : SpaceOf file ss) (hs : s ∈ ss)
      (hplain : s.isPlain = true) : Searched file var (.stmt s)
  | part {n m : Node} (h : Searched file var n) (hm : Enters var n m) : Searched file var m

namespace Searched

theorem nested {file : List Stmt} {var : String} {n : Node} (h : Searched file var n)
    (hfile : NestedStmts file) : Nested n := by
  induction h with
  | routine h hbody => exact h.nested_body hfile hbody
  | statement h hs hplain => exact (h.nested hfile).nested _ hs
  | part h hm ih => exact ih.part hm.mem_parts

/-- What decides a node that the search comes to and that holds the position, decides the
look-up. -/
theorem types_eq {l : Lookup} {p : Point} {answer : Option TypeList} {n : Node}
    (h : Searched l.site.doc.statements l.var n) (hfile : NestedStmts l.site.doc.statements)
    (hp : n.span.Encloses p.offset) (hn : l.Decided p answer n) {types : TypeList}
    (htypes : l.types p = some types) : answer = some types := by
  -- in a scope whose walk ends in the closure, nothing comes behind the answer
  have hscope : ∀ {start : Nat} {ss : List Stmt} {initial : TypeList},
      (∀ w, l.walk ss p false initial = some w → Lookup.Ended answer w) →
      l.inScope p start ss initial = some types → answer = some types := by
    intro start ss initial hended hscope
    simp only [Lookup.inScope, Option.bind_eq_bind, Option.bind_eq_some_iff] at hscope
    obtain ⟨w, hw, hscope⟩ := hscope
    obtain ⟨hclosure, hanswer⟩ := hended w hw
    rw [hclosure] at hscope
    cases hscope
    exact hanswer
  induction h with
  | routine h hbody =>
    rw [Lookup.types, h.scopeAt_eq hfile hbody hp.holds] at htypes
    exact hscope (hn _ _) htypes
  | statement h hs hplain =>
    obtain ⟨start, hstart⟩ := h.scopeAt_plain hfile hs hplain hp
    rw [Lookup.types, hstart] at htypes
    exact hscope (fun w hw => hn.walk (h.nested hfile) hs hp hw) htypes
  | part h hm ih =>
    have hnested := h.nested hfile
    exact ih ((hnested.inside hm.mem_parts).encloses hp) (hm.decided hnested hp hn)

end Searched

end PhpAtlas
