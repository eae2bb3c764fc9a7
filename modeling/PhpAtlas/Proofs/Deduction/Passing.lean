import Mathlib.Logic.Relation
import PhpAtlas.Proofs.Deduction.Search
import PhpAtlas.Proofs.Deduction.Termination
import PhpAtlas.Proofs.Types.Distinct

/-!
# Statements that end before the position

A block, conditional, loop, `switch` or `try` in front of the position may have run or not.  The
walk passes it by adding candidates: those of the annotations and assignments in it, in their order.
It replaces none, and nothing that a condition or a `catch` says inside of the statement holds
behind it.

The types of assigned values are asked for.  If one of these questions leads to a circle then
passing the statement does not end, whatever the candidates in front of it are.

## Main definitions

* `Source`, `Stmt.sources` — the annotations and assignments in a statement.
* `Lookup.gives` — the candidates that sources give, or `none` where a question has no answer.
* `gather` — candidates with others added.
* `Stmt.isCompound`, `Stmt.Within` — the statements that are passed so, and those in them.
* `Atlas.CirclesAt` — what a source gives is asked for in a circle.

## Main results

* `Nested.gathered` — the walk passes a nested node by adding what its sources give.
* `Stmt.sources_subset` — what gives candidates in an inner statement gives them in the outer one.
* `Atlas.exists_gives`, `Atlas.gives_of_le` — sources that lead to no circle give candidates after
  some number of steps, and the same ones after more.
* `passed_statement_adds` — a passed statement adds a list of types, which has all types assigned in
  it, unless one of them leads to a circle.
-/

namespace PhpAtlas

/-! ### Adding candidates -/

/-- Candidates with others added, one list after the other; `none` if one of the lists is not
known. -/
def gather : List (Option TypeList) → TypeList → Option TypeList
  | [], r => some r
  | x :: xs, r => x.bind fun types => gather xs (r.append types)

/-- All types in lists that are known. -/
def entriesOf (xs : List (Option TypeList)) : List TypeRef :=
  xs.flatMap fun x => (x.getD TypeList.empty).entries

section Gather

variable {xs : List (Option TypeList)} {r : TypeList}

theorem gather_append (xs ys : List (Option TypeList)) (r : TypeList) :
    gather (xs ++ ys) r = (gather xs r).bind (gather ys) := by
  induction xs generalizing r with
  | nil => rfl
  | cons x xs ih =>
    cases x with
    | none => rfl
    | some types => exact ih (r.append types)

theorem gather_of_answered (h : none ∉ xs) : gather xs r = some (r.extend (entriesOf xs)) := by
  induction xs generalizing r with
  | nil => rfl
  | cons x xs ih =>
    cases x with
    | none => exact absurd List.mem_cons_self h
    | some types =>
      have hrest := ih (r := r.append types) fun hmem => h (List.mem_cons_of_mem _ hmem)
      have hentries : entriesOf (some types :: xs) = types.entries ++ entriesOf xs := rfl
      rw [gather, Option.bind_some, hrest, hentries, TypeList.extend_append]
      rfl

theorem entries_subset_entriesOf {types : TypeList} (h : some types ∈ xs) :
    types.entries ⊆ entriesOf xs :=
  fun _ ht => List.mem_flatMap.2 ⟨_, h, ht⟩

theorem gather_of_unanswered (h : none ∈ xs) : gather xs r = none := by
  induction xs generalizing r with
  | nil => cases h
  | cons x xs ih =>
    cases x with
    | none => rfl
    | some types =>
      rcases List.mem_cons.1 h with h | h
      · cases h
      · exact ih h

end Gather

/-! ### What gives candidates in a statement -/

/-- What may give a variable candidates. -/
inductive Source
  /-- A comment in front of the statement at an offset. -/
  | comment (offset : Nat)
  /-- An expression that may assign to the variable, in the statement at an offset. -/
  | value (start : Nat) (e : Expr)

mutual

/-- What may give candidates in statements, in order. -/
def sources : List Stmt → List Source
  | [] => []
  | s :: rest => .comment s.span.start :: (s.sources ++ sources rest)

/-- What may give candidates in a statement. -/
def Stmt.sources : Stmt → List Source
  | .expression span e => [.value span.start e]
  | .block ⟨_, inner⟩ | .space _ _ _ inner | .eachLoop _ _ _ _ ⟨_, inner⟩
  | .whileLoop _ _ ⟨_, inner⟩ | .doLoop _ ⟨_, inner⟩ _ => PhpAtlas.sources inner
  | .forLoop _ initial _ _ ⟨_, inner⟩ =>
      initial.map (fun e => .value e.span.start e) ++ PhpAtlas.sources inner
  | .cond _ branches | .switch _ _ branches => branchSources branches
  | .tryCatch _ ⟨_, inner⟩ catches _ ensure =>
      PhpAtlas.sources inner ++ (catchSources catches ++ ensureSources ensure)
  | _ => []

/-- What may give candidates in the branches of an `if` or the cases of a `switch`. -/
def branchSources : List (Branch Expr Stmt) → List Source
  | [] => []
  | ⟨_, ⟨_, inner⟩⟩ :: rest => sources inner ++ branchSources rest

/-- What may give candidates in `catch` clauses. -/
def catchSources : List (Catch Stmt) → List Source
  | [] => []
  | ⟨_, _, _, ⟨_, inner⟩⟩ :: rest => sources inner ++ catchSources rest

/-- What may give candidates in a `finally`. -/
def ensureSources : Option (Body Stmt) → List Source
  | none => []
  | some ⟨_, inner⟩ => sources inner

end

/-- Whether a statement is a block, a conditional, a `foreach`, `while` or `do` loop, a `switch` or
a `try`.  A `for` loop is none: its first part always runs. -/
def Stmt.isCompound : Stmt → Bool
  | .block _ | .cond .. | .eachLoop .. | .whileLoop .. | .doLoop .. | .switch .. | .tryCatch .. =>
      true
  | _ => false

/-- The value that an expression assigns to a variable, alone or in a chain of assignments, and the
start of the assignment. -/
def Expr.assignedTo? (var : String) : Expr → Option (Expr × Nat)
  | .assign span true target value =>
      if target.varName? == some var then some (value, span.start) else value.assignedTo? var
  | _ => none

namespace Lookup

/-- The candidates that a source gives.  An annotation in front of the statement wins over the
assigned value, whose types are asked for at the start of the assignment. -/
def given (l : Lookup) (p : Point) : Source → List (Option TypeList)
  | .comment offset => (l.namedAnnotation? offset).toList.map some
  | .value start e => (e.assignedTo? l.var).toList.map fun (value, offset) =>
      (l.annotation? start).or (l.ask value (p.deeper offset))

/-- The candidates that sources give. -/
def gives (l : Lookup) (p : Point) (sources : List Source) : List (Option TypeList) :=
  sources.flatMap (l.given p)

variable {l : Lookup} {p : Point}

theorem given_assigned {e value : Expr} {offset : Nat}
    (h : e.assignedTo? l.var = some (value, offset)) (start : Nat) :
    l.given p (.value start e) = [(l.annotation? start).or (l.ask value (p.deeper offset))] := by
  rw [given, h]
  rfl

theorem gives_append (a b : List Source) : l.gives p (a ++ b) = l.gives p a ++ l.gives p b :=
  List.flatMap_append

theorem gives_singleton (x : Source) : l.gives p [x] = l.given p x := List.flatMap_singleton _ _

theorem gather_gives_append (a b : List Source) (r : TypeList) :
    gather (l.gives p (a ++ b)) r =
      (gather (l.gives p a) r).bind fun r' => gather (l.gives p b) r' := by
  rw [gives_append, gather_append]

theorem gather_comment (start : Nat) (rest : List Source) (r : TypeList) :
    gather (l.gives p (.comment start :: rest)) r =
      gather (l.gives p rest) (l.annotate start true r) := by
  have hcons : l.gives p (.comment start :: rest) =
      (l.namedAnnotation? start).toList.map some ++ l.gives p rest := rfl
  rw [hcons, annotate]
  cases l.namedAnnotation? start <;> rfl

theorem assigned_eq_gather (start : Nat) (e : Expr) (r : TypeList) :
    l.assigned p start true r e = gather (l.given p (.value start e)) r := by
  rw [given]
  fun_induction Expr.assignedTo? l.var e with
  | case1 span target value htarget =>
    rw [assigned, if_pos htarget]
    change _ = gather [(l.annotation? start).or (l.ask value (p.deeper span.start))] r
    cases l.annotation? start with
    | some new => rfl
    | none => cases l.ask value (p.deeper span.start) <;> rfl
  | case2 span target value htarget ih => rw [assigned, if_neg htarget, ih]
  | case3 e he =>
    rw [assigned]
    · rfl
    · exact he

theorem initialized_eq_gather {initial : List Expr} (h : ∀ e ∈ initial, e.span.stop ≤ p.offset)
    (r : TypeList) :
    l.initialized p true initial r =
      gather (l.gives p (initial.map fun e => .value e.span.start e)) r := by
  rw [initialized]
  induction initial generalizing r with
  | nil => rfl
  | cons e rest ih =>
    have hrest := ih fun e he => h e (List.mem_cons_of_mem _ he)
    rw [List.foldlM_cons, if_pos (h e List.mem_cons_self), assigned_eq_gather, List.map_cons, gives,
      List.flatMap_cons, gather_append]
    exact congrArg _ (funext hrest)

/-! ### Passing a node -/

/-- The walk passes a node by adding what its sources give.  A statement that is not compound does
so where it may not have run. -/
def Gathers (l : Lookup) (p : Point) : Node → Prop
  | .stmt s => ∀ conditional r, s.isCompound = true ∨ conditional = true →
      l.walkStmt s p conditional r = (gather (l.gives p s.sources) r).map goOn
  | .body b => ∀ r,
      l.walk b.statements p true r = (gather (l.gives p (sources b.statements)) r).map goOn
  | .case b => ∀ r, l.walk b.body.statements p true r =
      (gather (l.gives p (sources b.body.statements)) r).map goOn
  | .clause c => ∀ r, l.walk c.body.statements p true r =
      (gather (l.gives p (sources c.body.statements)) r).map goOn
  | _ => True

/-- A node ends before the position, and the walk passes it by adding what its sources give. -/
structure Gathered (l : Lookup) (p : Point) (n : Node) : Prop where
  start : n.span.start < p.offset
  stop : n.span.stop < p.offset
  gathers : Gathers l p n

theorem Gathered.not_within {n : Node} (h : Gathered l p n) : ¬ p.within n.span = true :=
  Bool.eq_false_iff.1 (Span.holds_eq_false h.stop)

/-- What is in a passed range may not have run. -/
theorem Gathered.mayNotRun {n : Node} (h : Gathered l p n) (conditional : Bool) :
    mayNotRun p conditional n.span = true := by
  rw [Lookup.mayNotRun, Bool.eq_false_iff.2 h.not_within, Bool.not_false, Bool.or_true]

/-- Nothing that was passed has ended the walk. -/
theorem bind_goOn (o : Option TypeList) (next : TypeList → Option Walked) :
    ((o.map goOn).bind fun w => if w.inClosure = true then some w else next w.types) =
      o.bind next := by
  cases o <;> rfl

theorem walk_of_gathered {ss : List Stmt} (h : ∀ s ∈ ss, Gathered l p (.stmt s)) (r : TypeList) :
    l.walk ss p true r = (gather (l.gives p (sources ss)) r).map goOn := by
  induction ss generalizing r with
  | nil => rfl
  | cons s rest ih =>
    have hs := h s List.mem_cons_self
    have ih := ih fun s hs => h s (List.mem_cons_of_mem _ hs)
    have hstart : ¬ p.offset ≤ s.span.start := Nat.not_le.2 hs.start
    have hwithin : ¬ p.within s.span = true := hs.not_within
    -- the comment in front of the statement comes first, then the statement, then the rest
    rw [walk_cons, if_neg hstart, if_neg hwithin, Option.bind_some, behindClosures,
      hs.gathers true _ (.inr rfl), bind_goOn, sources, gather_comment, gather_gives_append,
      Option.map_bind]
    exact congrArg _ (funext ih)

theorem behindBranches_of_gathered {branches : List (Branch Expr Stmt)}
    (h : ∀ b ∈ branches, Gathered l p (.body b.body)) (r : TypeList) :
    l.behindBranches branches p r = (gather (l.gives p (branchSources branches)) r).map goOn := by
  induction branches generalizing r with
  | nil => rfl
  | cons b rest ih =>
    have hb := h b List.mem_cons_self
    have ih := ih fun b hb => h b (List.mem_cons_of_mem _ hb)
    have hstart : b.body.span.start < p.offset := hb.start
    have hwalk : l.walk b.body.statements p true r =
        (gather (l.gives p (sources b.body.statements)) r).map goOn := hb.gathers r
    rw [behindBranches, if_pos hstart, hwalk, branchSources, gather_gives_append, Option.map_bind]
    exact (bind_goOn _ _).trans (congrArg _ (funext ih))

theorem walkCases_of_gathered {cases : List (Branch Expr Stmt)}
    (h : ∀ b ∈ cases, Gathered l p (.case b)) (conditional : Bool) (r : TypeList) :
    l.walkCases cases p conditional r =
      (gather (l.gives p (branchSources cases)) r).map goOn := by
  induction cases generalizing r with
  | nil => rfl
  | cons b rest ih =>
    have hb := h b List.mem_cons_self
    have ih := ih fun b hb => h b (List.mem_cons_of_mem _ hb)
    have hstart : ¬ p.offset ≤ b.body.span.start := Nat.not_le.2 hb.start
    have hwithin : ¬ p.within b.body.span = true := hb.not_within
    have hwalk : l.walk b.body.statements p true r =
        (gather (l.gives p (sources b.body.statements)) r).map goOn := hb.gathers r
    rw [walkCases, if_neg hstart, if_neg hwithin, hwalk, branchSources, gather_gives_append,
      Option.map_bind]
    exact (bind_goOn _ _).trans (congrArg _ (funext ih))

theorem walkCatches_of_gathered {catches : List (Catch Stmt)}
    (h : ∀ c ∈ catches, Gathered l p (.clause c)) (conditional : Bool) (r : TypeList) :
    l.walkCatches catches p conditional r =
      (gather (l.gives p (catchSources catches)) r).map .ok := by
  induction catches generalizing r with
  | nil => rfl
  | cons c rest ih =>
    have hc := h c List.mem_cons_self
    have ih := ih fun c hc => h c (List.mem_cons_of_mem _ hc)
    have hstart : ¬ p.offset ≤ c.span.start := Nat.not_le.2 hc.start
    have hwithin : ¬ p.within c.span = true := hc.not_within
    have hwalk : l.walk c.body.statements p true r =
        (gather (l.gives p (sources c.body.statements)) r).map goOn := hc.gathers r
    rw [walkCatches, if_neg hstart, if_neg hwithin, hwalk, catchSources, gather_gives_append]
    cases gather (l.gives p (sources c.body.statements)) r with
    | none => rfl
    | some types => exact ih types

theorem walkEnsure_of_gathered {ensure : Option (Body Stmt)}
    (h : ∀ b ∈ ensure, Gathered l p (.body b)) (conditional : Bool) (r : TypeList) :
    l.walkEnsure ensure p conditional r =
      (gather (l.gives p (ensureSources ensure)) r).map goOn := by
  cases ensure with
  | none => rfl
  | some b =>
    have hb := h b rfl
    have hrun : mayNotRun p conditional b.span = true := hb.mayNotRun conditional
    rw [walkEnsure, hrun]
    exact hb.gathers r

theorem inConditions_of_not_within {branches : List (Branch Expr Stmt)}
    (h : ∀ b ∈ branches, ∀ e ∈ b.condition, p.within e.span = false) (failed : List Expr)
    (types : TypeList) : l.inConditions p types failed branches = some none := by
  induction branches generalizing failed with
  | nil => rfl
  | cons b rest ih =>
    have ih := ih fun b hb => h b (List.mem_cons_of_mem _ hb)
    rw [inConditions]
    cases hcondition : b.condition with
    | none => exact ih failed
    | some condition =>
      have hwithin : ¬ p.within condition.span = true :=
        Bool.eq_false_iff.1 (h b List.mem_cons_self condition hcondition)
      exact (if_neg hwithin).trans (ih _)

end Lookup

namespace Lookup

variable {l : Lookup} {p : Point}

/-- The walk passes a statement by adding what its sources give, if it passes its parts so. -/
theorem gathers_stmt {s : Stmt} (hstop : s.span.stop < p.offset)
    (hensure : (Node.stmt s).EnsureInside)
    (hparts : ∀ m ∈ (Node.stmt s).parts, Gathered l p m) : Gathers l p (.stmt s) := by
  -- the body of a loop may not have run, whatever is known of the loop
  have hbody : ∀ b, Node.body b ∈ (Node.stmt s).parts → ∀ conditional r,
      l.walk b.statements p (mayNotRun p conditional b.span) r =
        (gather (l.gives p (sources b.statements)) r).map goOn := by
    intro b hb conditional r
    have hrun : mayNotRun p conditional b.span = true := (hparts _ hb).mayNotRun conditional
    rw [hrun]
    exact (hparts _ hb).gathers r
  intro conditional r hrun
  cases s with
  | expression span e =>
    obtain rfl : conditional = true := hrun.resolve_left Bool.false_ne_true
    have he : e.span.stop < p.offset := (hparts (.expr e) List.mem_cons_self).stop
    rw [walkStmt, if_neg (Nat.lt_asymm he), assigned_eq_gather, Stmt.sources, gives_singleton]
  | ret span value =>
    cases value with
    | none => rfl
    | some e =>
      have he : e.span.stop < p.offset := (hparts (.expr e) List.mem_cons_self).stop
      rw [walkStmt, narrowInside_of_not_within (Span.holds_eq_false he)]
      rfl
  | block b =>
    have hwithin : p.within b.span = false := Span.holds_eq_false hstop
    rw [walkStmt, mayNotRun, hwithin, Bool.not_false, Bool.or_true]
    exact walk_of_gathered (fun s hs => hparts _ (List.mem_map_of_mem hs)) r
  | space span name braced inner =>
    obtain rfl : conditional = true := hrun.resolve_left Bool.false_ne_true
    exact walk_of_gathered (fun s hs => hparts _ (List.mem_map_of_mem hs)) r
  | cond span branches =>
    have hbranches : ∀ b ∈ branches, Gathered l p (.body b.body) := fun b hb =>
      hparts _ (Node.branch_mem hb)
    have hconditions : ∀ b ∈ branches, ∀ e ∈ b.condition, p.within e.span = false :=
      fun b hb e he => Span.holds_eq_false (hparts _ (Node.condition_mem hb he)).stop
    -- no branch and no condition holds the position, so that nothing is narrowed
    have hsearched : ∀ e ∈ (Stmt.cond span branches).searched, e.span.stop < p.offset :=
      fun e he => (hparts (.expr e)
        ((Stmt.cond span branches).searched_sublist.subset (List.mem_map_of_mem he))).stop
    rw [walkStmt, firstCondition?_eq_none hsearched,
      inBranch_of_not_within fun b hb => (hbranches b hb).not_within, Option.bind_eq_bind,
      Option.bind_some, inConditions_of_not_within hconditions]
    exact behindBranches_of_gathered hbranches r
  | eachLoop span subject key target b =>
    have hb : Node.body b ∈ (Node.stmt (.eachLoop span subject key target b)).parts := by
      simp [Node.parts, Node.partsOfStmt]
    have hwithin : ¬ p.within b.span = true := (hparts _ hb).not_within
    rw [walkStmt, if_neg hwithin]
    exact hbody b hb conditional r
  | whileLoop span condition b =>
    have hb : Node.body b ∈ (Node.stmt (.whileLoop span condition b)).parts :=
      List.mem_cons_of_mem _ List.mem_cons_self
    have hwithin : ¬ p.within b.span = true := (hparts _ hb).not_within
    have hcondition : ¬ p.within condition.span = true :=
      (hparts (.expr condition) List.mem_cons_self).not_within
    rw [walkStmt, if_neg hwithin, if_neg hcondition]
    exact hbody b hb conditional r
  | doLoop span b condition => exact hbody b List.mem_cons_self conditional r
  | forLoop span initial conditions steps b =>
    obtain rfl : conditional = true := hrun.resolve_left Bool.false_ne_true
    have hinitial : ∀ e ∈ initial, e.span.stop ≤ p.offset := by
      intro e he
      have hpart : Node.expr e ∈ (Node.stmt (.forLoop span initial conditions steps b)).parts := by
        simp [Node.parts, Node.partsOfStmt, he]
      exact Nat.le_of_lt (hparts _ hpart).stop
    have hb : Node.body b ∈ (Node.stmt (.forLoop span initial conditions steps b)).parts :=
      List.mem_append_right _ List.mem_cons_self
    rw [walkStmt, initialized_eq_gather hinitial, Stmt.sources, gather_gives_append,
      Option.map_bind]
    exact congrArg _ (funext (hbody b hb true))
  | switch span subject cases =>
    exact walkCases_of_gathered
      (fun b hb => hparts _ (List.mem_cons_of_mem _ (List.mem_map_of_mem hb))) conditional r
  | tryCatch span b catches ensureStart ensure =>
    have hb := hparts (.body b) List.mem_cons_self
    have hwithin : ¬ p.within b.span = true := hb.not_within
    have hwalk : l.walk b.statements p true r =
        (gather (l.gives p (sources b.statements)) r).map goOn := hb.gathers r
    have hcatches : ∀ types, l.walkCatches catches p conditional types =
        (gather (l.gives p (catchSources catches)) types).map .ok :=
      walkCatches_of_gathered (fun c hc => hparts _ (Node.catch_mem hc)) conditional
    have hlast : ∀ types, (if ensureStart < p.offset then l.walkEnsure ensure p conditional types
        else some (goOn types)) = (gather (l.gives p (ensureSources ensure)) types).map goOn := by
      intro types
      cases ensure with
      | none => exact ite_self _
      | some last =>
        -- the word `finally` stands in the statement, so the clause is not left out
        have hword : ensureStart < p.offset := Nat.lt_of_le_of_lt (hensure _ rfl) hstop
        rw [if_pos hword]
        exact walkEnsure_of_gathered (fun b hb => hparts _ (Node.ensure_mem hb)) conditional types
    rw [walkStmt, if_neg hwithin, hwalk, Stmt.sources, gather_gives_append, Option.map_bind]
    cases gather (l.gives p (sources b.statements)) r with
    | none => rfl
    | some types =>
      rw [Option.bind_some, Function.comp_apply, gather_gives_append, Option.map_bind]
      change (l.walkCatches catches p conditional types).bind _ = _
      rw [hcatches]
      cases gather (l.gives p (catchSources catches)) types with
      | none => rfl
      | some types => exact hlast types
  | _ => rfl

end Lookup

/-- The walk passes a nested node by adding what its sources give. -/
theorem Nested.gathered {l : Lookup} {p : Point} {n : Node} (h : Nested n)
    (hensure : Throughout Node.EnsureInside n) (hstop : n.span.stop < p.offset) :
    Lookup.Gathered l p n := by
  -- the parts of a node lie in its range, so they end before the position, too
  induction h with
  | intro n haligned _ ih =>
    have hparts : ∀ m ∈ n.parts, Lookup.Gathered l p m := fun m hm =>
      ih m hm (hensure.part hm) (Nat.lt_of_le_of_lt (haligned.inside m hm).2 hstop)
    refine ⟨Nat.lt_of_le_of_lt haligned.proper hstop, hstop, ?_⟩
    cases n with
    | stmt s => exact Lookup.gathers_stmt hstop hensure.here hparts
    | body b => exact Lookup.walk_of_gathered fun s hs => hparts _ (List.mem_map_of_mem hs)
    | case b =>
      exact Lookup.walk_of_gathered fun s hs =>
        hparts _ (List.mem_append_right _ (List.mem_map_of_mem hs))
    | clause c => exact (hparts (.body c.body) List.mem_cons_self).gathers
    | _ => trivial

/-! ### Inner statements -/

/-- The statements in a statement that the walk goes into. -/
def Stmt.inner : Stmt → List Stmt
  | .block b | .eachLoop _ _ _ _ b | .whileLoop _ _ b | .doLoop _ b _ | .forLoop _ _ _ _ b =>
      b.statements
  | .space _ _ _ inner => inner
  | .cond _ branches | .switch _ _ branches => branches.flatMap (·.body.statements)
  | .tryCatch _ b catches _ ensure =>
      b.statements ++ (catches.flatMap (·.body.statements) ++ ensure.toList.flatMap (·.statements))
  | _ => []

/-- A statement is the other one or stands in it. -/
def Stmt.Within (inner outer : Stmt) : Prop :=
  Relation.ReflTransGen (fun s t => t ∈ s.inner) outer inner

theorem mem_sources {ss : List Stmt} {x : Source} {s : Stmt} (hs : s ∈ ss) (hx : x ∈ s.sources) :
    x ∈ sources ss := by
  induction hs with
  | head rest => exact List.mem_cons_of_mem _ (List.mem_append_left _ hx)
  | tail s _ ih => exact List.mem_cons_of_mem _ (List.mem_append_right _ ih)

theorem branchSources_eq (branches : List (Branch Expr Stmt)) :
    branchSources branches = branches.flatMap fun b => sources b.body.statements := by
  induction branches with
  | nil => rfl
  | cons b rest ih => rw [branchSources, ih, List.flatMap_cons]

theorem catchSources_eq (catches : List (Catch Stmt)) :
    catchSources catches = catches.flatMap fun c => sources c.body.statements := by
  induction catches with
  | nil => rfl
  | cons c rest ih => rw [catchSources, ih, List.flatMap_cons]

theorem ensureSources_eq (ensure : Option (Body Stmt)) :
    ensureSources ensure = ensure.toList.flatMap fun b => sources b.statements := by
  cases ensure with
  | none => rfl
  | some b => exact (List.flatMap_singleton _ _).symm

/-- What gives candidates in statements of parts does so in the statements of one of them. -/
theorem mem_flatMap_sources {α : Type} {parts : List α} {statements : α → List Stmt} {s : Stmt}
    {x : Source} (hs : s ∈ parts.flatMap statements) (hx : x ∈ s.sources) :
    x ∈ parts.flatMap fun part => sources (statements part) := by
  obtain ⟨part, hpart, hs⟩ := List.mem_flatMap.1 hs
  exact List.mem_flatMap.2 ⟨part, hpart, mem_sources hs hx⟩

theorem Stmt.sources_subset_of_mem_inner {s t : Stmt} (h : t ∈ s.inner) :
    t.sources ⊆ s.sources := by
  intro x hx
  cases s with
  | block b | space span name braced inner | eachLoop span subject key target b
  | whileLoop span condition b | doLoop span b condition => exact mem_sources h hx
  | forLoop span initial conditions steps b =>
    exact List.mem_append_right _ (mem_sources h hx)
  | cond span branches | switch span subject branches =>
    rw [sources, branchSources_eq]
    exact mem_flatMap_sources h hx
  | tryCatch span b catches ensureStart ensure =>
    rw [sources, catchSources_eq, ensureSources_eq]
    simp only [inner, List.mem_append] at h ⊢
    exact h.imp (mem_sources · hx) (Or.imp (mem_flatMap_sources · hx) (mem_flatMap_sources · hx))
  | _ => cases h

theorem Stmt.sources_subset {s t : Stmt} (h : t.Within s) : t.sources ⊆ s.sources := by
  induction h with
  | refl => exact List.Subset.refl _
  | tail _ ht ih => exact List.Subset.trans (sources_subset_of_mem_inner ht) ih

/-! ### Questions that end -/

namespace Atlas

/-- The look-up of a variable, given a number of nested look-ups for its questions. -/
def lookupIn (a : Atlas) (site : Site) (var : String) (steps : Nat) : Lookup :=
  ⟨a.known, site, var, a.deduceIn site steps⟩

/-- What a source gives is asked for in a circle. -/
def CirclesAt (a : Atlas) (site : Site) (var : String) (p : Point) : Source → Prop
  | .comment _ => False
  | .value start e => (a.lookupIn site var 0).annotation? start = none ∧
      ∃ value offset y, e.assignedTo? var = some (value, offset) ∧
        a.Reaches site value (p.deeper offset) y ∧ a.Circular site y

variable {a : Atlas} {site : Site} {var : String} {p : Point}

theorem given_of_circlesAt {x : Source} (h : a.CirclesAt site var p x) (steps : Nat) :
    none ∈ (a.lookupIn site var steps).given p x := by
  cases x with
  | comment offset => cases h
  | value start e =>
    obtain ⟨htag, value, offset, y, hvalue, hreach, hy⟩ := h
    have hask : a.deduceIn site steps value (p.deeper offset) = none :=
      deduceIn_eq_none_of_circular steps hreach hy
    have htag : (a.lookupIn site var steps).annotation? start = none := htag
    rw [Lookup.given_assigned hvalue, htag]
    exact List.mem_singleton.2 hask.symm

theorem exists_given {x : Source} (h : ¬ a.CirclesAt site var p x) :
    ∃ steps, none ∉ (a.lookupIn site var steps).given p x := by
  cases x with
  | comment offset => exact ⟨0, by simp [Lookup.given]⟩
  | value start e =>
    cases hvalue : e.assignedTo? var with
    | none => exact ⟨0, by simp [Lookup.given, lookupIn, hvalue]⟩
    | some assigned =>
      obtain ⟨value, offset⟩ := assigned
      cases htag : (a.lookupIn site var 0).annotation? start with
      | some new =>
        refine ⟨0, ?_⟩
        rw [Lookup.given_assigned hvalue, htag]
        simp
      | none =>
        have hends : ¬ ∃ y, a.Reaches site value (p.deeper offset) y ∧ a.Circular site y :=
          fun ⟨y, hreach, hy⟩ => h ⟨htag, value, offset, y, hvalue, hreach, hy⟩
        obtain ⟨steps, types, hask⟩ := exists_deduceIn hends
        refine ⟨steps, ?_⟩
        rw [Lookup.given_assigned hvalue]
        simp [lookupIn, hask]

/-- More steps keep what a source gives. -/
theorem given_of_le {steps more : Nat} (hle : steps ≤ more) {x : Source}
    (h : none ∉ (a.lookupIn site var steps).given p x) :
    (a.lookupIn site var more).given p x = (a.lookupIn site var steps).given p x := by
  cases x with
  | comment offset => rfl
  | value start e =>
    have htag : (a.lookupIn site var more).annotation? start =
        (a.lookupIn site var steps).annotation? start := rfl
    cases hvalue : e.assignedTo? var with
    | none => simp [Lookup.given, lookupIn, hvalue]
    | some assigned =>
      obtain ⟨value, offset⟩ := assigned
      rw [Lookup.given_assigned hvalue] at h ⊢
      rw [Lookup.given_assigned hvalue, htag]
      cases hannotated : (a.lookupIn site var steps).annotation? start with
      | some new => rfl
      | none =>
        rw [hannotated, Option.none_or, List.mem_singleton] at h
        obtain ⟨types, hask⟩ := Option.ne_none_iff_exists'.1 (Ne.symm h)
        have hmore : a.deduceIn site more value (p.deeper offset) =
            a.deduceIn site steps value (p.deeper offset) :=
          (deduceIn_of_le hle hask).trans hask.symm
        exact congrArg (fun types => [types]) hmore

/-- The types of an assigned value, if they are known at some number of steps. -/
theorem exists_types {e value : Expr} {start offset enough : Nat}
    (hvalue : e.assignedTo? var = some (value, offset))
    (h : none ∉ (a.lookupIn site var enough).given p (.value start e)) :
    ∃ types, some types ∈ (a.lookupIn site var enough).given p (.value start e) ∧
      ∀ steps ≥ enough, ((a.lookupIn site var steps).annotation? start).or
        (a.deduceIn site steps value (p.deeper offset)) = some types := by
  have hgiven : ∀ steps, (a.lookupIn site var steps).given p (.value start e) =
      [((a.lookupIn site var steps).annotation? start).or
        (a.deduceIn site steps value (p.deeper offset))] :=
    fun _ => Lookup.given_assigned hvalue start
  have hne := h
  rw [hgiven, List.mem_singleton] at hne
  obtain ⟨types, htypes⟩ := Option.ne_none_iff_exists'.1 (Ne.symm hne)
  refine ⟨types, ?_, fun steps hle => ?_⟩
  · rw [hgiven, htypes]
    exact List.mem_singleton_self _
  · have hsame := given_of_le hle h
    rw [hgiven, hgiven, htypes] at hsame
    exact List.head_eq_of_cons_eq hsame

theorem gives_of_le {steps more : Nat} (hle : steps ≤ more) {xs : List Source}
    (h : none ∉ (a.lookupIn site var steps).gives p xs) :
    (a.lookupIn site var more).gives p xs = (a.lookupIn site var steps).gives p xs := by
  refine List.flatMap_congr fun x hx => given_of_le hle fun hnone => h ?_
  exact List.mem_flatMap.2 ⟨x, hx, hnone⟩

/-- Steps that are enough for each of the sources are enough for all. -/
theorem exists_gives {xs : List Source} (h : ∀ x ∈ xs, ¬ a.CirclesAt site var p x) :
    ∃ steps, none ∉ (a.lookupIn site var steps).gives p xs := by
  induction xs with
  | nil => exact ⟨0, List.not_mem_nil⟩
  | cons x xs ih =>
    obtain ⟨first, hfirst⟩ := exists_given (h x List.mem_cons_self)
    obtain ⟨rest, hrest⟩ := ih fun x hx => h x (List.mem_cons_of_mem _ hx)
    -- what either number of steps gives stays with the larger one
    refine ⟨max first rest, fun hnone => ?_⟩
    rcases List.mem_append.1 hnone with hnone | hnone
    · exact hfirst (given_of_le (Nat.le_max_left _ _) hfirst ▸ hnone)
    · have hsame := gives_of_le (Nat.le_max_right first rest) hrest
      exact hrest (hsame ▸ hnone)

end Atlas

section Passed

variable {s : Stmt} {p : Point}

theorem Lookup.walkStmt_of_nested (l : Lookup) (hcompound : s.isCompound = true)
    (hnested : Nested (.stmt s)) (hensure : Throughout Node.EnsureInside (.stmt s))
    (hstop : s.span.stop < p.offset) (conditional : Bool) (r : TypeList) :
    l.walkStmt s p conditional r = (gather (l.gives p s.sources) r).map goOn :=
  (hnested.gathered hensure hstop).gathers conditional r (.inl hcompound)

theorem Atlas.walkStmt_of_circlesAt {a : Atlas} {site : Site} {var : String}
    (hcompound : s.isCompound = true) (hnested : Nested (.stmt s))
    (hensure : Throughout Node.EnsureInside (.stmt s)) (hstop : s.span.stop < p.offset)
    {x : Source} (hx : x ∈ s.sources) (hcircle : a.CirclesAt site var p x) (steps : Nat)
    (conditional : Bool) (r : TypeList) :
    (a.lookupIn site var steps).walkStmt s p conditional r = none := by
  have hnone : none ∈ (a.lookupIn site var steps).gives p s.sources :=
    List.mem_flatMap.2 ⟨x, hx, given_of_circlesAt hcircle steps⟩
  rw [Lookup.walkStmt_of_nested _ hcompound hnested hensure hstop, gather_of_unanswered hnone,
    Option.map_none]

end Passed

/-- A block, conditional, loop over elements or with a condition, `switch` or `try` in front of the
position adds a list of types to the candidates, whatever these are, and the earlier ones stay in
front.  It has the types of every assignment in the statement.  This is so unless types in the
statement are asked for in a circle; then passing the statement does not end. -/
theorem passed_statement_adds (a : Atlas) (site : Site) (var : String) (p : Point) {s : Stmt}
    (hcompound : s.isCompound = true) (hnested : Nested (.stmt s))
    (hensure : Throughout Node.EnsureInside (.stmt s)) (hstop : s.span.stop < p.offset) :
    ((∀ x ∈ s.sources, ¬ a.CirclesAt site var p x) →
      ∃ added enough,
        (∀ steps ≥ enough, ∀ conditional r,
          (a.lookupIn site var steps).walkStmt s p conditional r = some ⟨r.extend added, false⟩ ∧
            r.entries <+: (r.extend added).entries) ∧
        ∀ span assigned target value,
          (Stmt.expression span (.assign assigned true target value)).Within s →
          target.varName? = some var →
          ∃ types : TypeList, types.entries ⊆ added ∧ ∀ steps ≥ enough,
            ((a.lookupIn site var steps).annotation? span.start).or
              (a.deduceIn site steps value (p.deeper assigned.start)) = some types) ∧
    ((∃ x ∈ s.sources, a.CirclesAt site var p x) →
      ∀ steps conditional r, (a.lookupIn site var steps).walkStmt s p conditional r = none) := by
  refine ⟨fun hends => ?_, fun ⟨x, hx, hcircle⟩ => ?_⟩
  · obtain ⟨enough, henough⟩ := Atlas.exists_gives hends
    refine ⟨entriesOf ((a.lookupIn site var enough).gives p s.sources), enough, ?_, ?_⟩
    · intro steps hle conditional r
      rw [Lookup.walkStmt_of_nested _ hcompound hnested hensure hstop,
        Atlas.gives_of_le hle henough, gather_of_answered henough]
      exact ⟨rfl, TypeList.prefix_extend _ _⟩
    · intro span assigned target value hwithin htarget
      have hx : Source.value span.start (.assign assigned true target value) ∈ s.sources :=
        Stmt.sources_subset hwithin List.mem_cons_self
      have hvalue : (Expr.assign assigned true target value).assignedTo? var =
          some (value, assigned.start) := by
        rw [Expr.assignedTo?, htarget, if_pos (beq_self_eq_true _)]
      have hanswered : none ∉ (a.lookupIn site var enough).given p
          (.value span.start (.assign assigned true target value)) :=
        fun hnone => henough (List.mem_flatMap.2 ⟨_, hx, hnone⟩)
      obtain ⟨types, hgiven, htypes⟩ := Atlas.exists_types hvalue hanswered
      exact ⟨types, entries_subset_entriesOf (List.mem_flatMap.2 ⟨_, hx, hgiven⟩), htypes⟩
  · exact Atlas.walkStmt_of_circlesAt hcompound hnested hensure hstop hx hcircle

/-- An assignment in a branch, in front of a `catch` that binds the variable. -/
def guardedAssignment : Stmt :=
  .tryCatch ⟨6, 66⟩
    ⟨⟨10, 50⟩, [.cond ⟨12, 48⟩
      [⟨some (.binary ⟨16, 31⟩ .instanceOf (.var ⟨16, 18⟩ "$v") (.name ⟨"B", ⟨30, 31⟩⟩)),
        ⟨⟨33, 48⟩, [.block ⟨⟨33, 48⟩, [.expression ⟨35, 46⟩
          (.assign ⟨35, 45⟩ true (.var ⟨35, 37⟩ "$v")
            (.new ⟨40, 45⟩ (.name ⟨"A", ⟨44, 45⟩⟩) []))]⟩]⟩⟩]]⟩
    [⟨⟨51, 66⟩, .name ⟨"E", ⟨58, 59⟩⟩, some "$v", ⟨⟨64, 66⟩, []⟩⟩] 0 none

/-- The place behind the assignment. -/
def guardedSite : Site :=
  Atlas.siteAt ⟨Tables.empty, 10⟩
    ⟨"a.php", "<?php try { if ($v instanceof B) { $v = new A; } } catch (E $v) {} $v;".toList,
      [.openTag ⟨0, 5⟩, guardedAssignment, .expression ⟨67, 70⟩ (.var ⟨67, 69⟩ "$v")], [], []⟩ 68

/-- The assigned value is of its class, whatever the types of variables are. -/
theorem guardedAssignment_value (vars : Variables) :
    Atlas.answerWith ⟨Tables.empty, 10⟩ guardedSite vars (.new ⟨40, 45⟩ (.name ⟨"A", ⟨44, 45⟩⟩) [])
      ⟨35, 1⟩ = some ⟨[⟨"A", "\\A"⟩]⟩ := by
  have hclass : Known.classReference? (Atlas.known ⟨Tables.empty, 10⟩) guardedSite 35
      (.name ⟨"A", ⟨44, 45⟩⟩) = some ⟨[⟨"A", "\\A"⟩]⟩ := by decide +kernel
  rw [Atlas.answerWith, if_neg (by decide), Atlas.deduceWith, hclass]

/-- The `try` adds the assigned class, and neither the test nor the `catch` reaches behind it. -/
theorem guardedAssignment_adds : ∃ added enough, ⟨"A", "\\A"⟩ ∈ added ∧
    ∀ steps ≥ enough, ∀ conditional r,
      (Atlas.lookupIn ⟨Tables.empty, 10⟩ guardedSite "$v" steps).walkStmt guardedAssignment ⟨68, 0⟩
        conditional r = some ⟨r.extend added, false⟩ := by
  have haligned : holdsDown Node.Aligned 10 (.stmt guardedAssignment) = true := by decide
  have hinside : holdsDown Node.EnsureInside 10 (.stmt guardedAssignment) = true := by decide
  have hsources : guardedAssignment.sources = [.comment 12, .comment 33, .comment 35, .value 35
      (.assign ⟨35, 45⟩ true (.var ⟨35, 37⟩ "$v") (.new ⟨40, 45⟩ (.name ⟨"A", ⟨44, 45⟩⟩) []))] := by
    cbv
  have hends : ∀ x ∈ guardedAssignment.sources,
      ¬ Atlas.CirclesAt ⟨Tables.empty, 10⟩ guardedSite "$v" ⟨68, 0⟩ x := by
    intro x hx hcircle
    rw [hsources] at hx
    simp only [List.mem_cons, List.not_mem_nil, or_false] at hx
    rcases hx with rfl | rfl | rfl | rfl
    iterate 3 exact hcircle
    obtain ⟨-, value, offset, y, hvalue, ⟨z, hz, -⟩, -⟩ := hcircle
    cases hvalue
    cases (guardedAssignment_value _).symm.trans hz
  obtain ⟨added, enough, hadds, hassigned⟩ :=
    (passed_statement_adds ⟨Tables.empty, 10⟩ guardedSite "$v" ⟨68, 0⟩ rfl
      (throughout_of_holdsDown haligned) (throughout_of_holdsDown hinside) (by decide)).1 hends
  refine ⟨added, enough, ?_, fun steps hle conditional r => (hadds steps hle conditional r).1⟩
  have hwithin : Stmt.Within (.expression ⟨35, 46⟩ (.assign ⟨35, 45⟩ true (.var ⟨35, 37⟩ "$v")
      (.new ⟨40, 45⟩ (.name ⟨"A", ⟨44, 45⟩⟩) []))) guardedAssignment :=
    .head List.mem_cons_self (.head List.mem_cons_self (.single List.mem_cons_self))
  obtain ⟨types, hsubset, htypes⟩ := hassigned _ _ _ _ hwithin rfl
  have htag : (Atlas.lookupIn ⟨Tables.empty, 10⟩ guardedSite "$v" enough).annotation? 35 =
      none := by
    -- no question is asked for an annotation, so the number of steps does not matter
    change (Atlas.lookupIn ⟨Tables.empty, 10⟩ guardedSite "$v" 0).annotation? 35 = none
    decide +kernel
  have hvalue := htypes enough (Nat.le_refl _)
  rw [htag, Option.none_or] at hvalue
  obtain rfl := Option.some.inj ((guardedAssignment_value _).symm.trans hvalue)
  exact hsubset List.mem_cons_self

/-- An assignment behind a test of a variable against itself. -/
def circularBranch : Stmt :=
  .cond ⟨6, 40⟩
    [⟨some (.binary ⟨10, 26⟩ .instanceOf (.var ⟨10, 12⟩ "$x") (.var ⟨24, 26⟩ "$x")),
      ⟨⟨28, 40⟩, [.block ⟨⟨28, 40⟩, [.expression ⟨30, 38⟩
        (.assign ⟨30, 37⟩ true (.var ⟨30, 32⟩ "$v") (.var ⟨35, 37⟩ "$x"))]⟩]⟩⟩]

/-- A file with that branch, and the variable behind it. -/
def circularDocument : Document :=
  ⟨"a.php", "<?php if ($x instanceof $x) { $v = $x; } $v;".toList,
    [.openTag ⟨0, 5⟩, circularBranch, .expression ⟨41, 44⟩ (.var ⟨41, 43⟩ "$v")], [], []⟩

/-- The place behind the branch. -/
def circularSite : Site := Atlas.siteAt ⟨Tables.empty, 10⟩ circularDocument 42

/-- In the branch, the look-up of the tested variable consults the variable. -/
theorem circularBranch_circles :
    Atlas.CirclesAt ⟨Tables.empty, 10⟩ circularSite "$v" ⟨42, 0⟩
      (.value 30 (.assign ⟨30, 37⟩ true (.var ⟨30, 32⟩ "$v") (.var ⟨35, 37⟩ "$x"))) := by
  have hself : Atlas.Consults ⟨Tables.empty, 10⟩ circularSite ⟨"$x", ⟨30, 1⟩⟩ ⟨"$x", ⟨30, 1⟩⟩ := by
    unfold Atlas.Consults
    cbv
  have hstart : Atlas.DependsOn ⟨Tables.empty, 10⟩ circularSite (.var ⟨35, 37⟩ "$x") ⟨30, 1⟩
      ⟨"$x", ⟨30, 1⟩⟩ := by
    decide +kernel
  have htag : (Atlas.lookupIn ⟨Tables.empty, 10⟩ circularSite "$v" 0).annotation? 30 =
      none := by
    decide +kernel
  exact ⟨htag, _, _, _, rfl, ⟨_, hstart, .refl⟩, .single hself⟩

/-- So not every passed statement adds a list of types. -/
theorem not_forall_passed_statement_adds :
    ¬ ∀ (a : Atlas) (doc : Document) (var : String) (offset : Nat), ∀ s ∈ doc.statements,
      s.isCompound = true → Nested (.stmt s) → Throughout Node.EnsureInside (.stmt s) →
      s.span.stop < offset → ∃ added steps, ∀ conditional r,
        (a.lookupIn (a.siteAt doc offset) var steps).walkStmt s ⟨offset, 0⟩ conditional r =
          some ⟨r.extend added, false⟩ := by
  intro h
  have hnested : Nested (.stmt circularBranch) :=
    throughout_of_holdsDown (by decide : holdsDown Node.Aligned 8 (.stmt circularBranch) = true)
  have hensure : Throughout Node.EnsureInside (.stmt circularBranch) :=
    throughout_of_holdsDown (by decide : holdsDown _ 8 (.stmt circularBranch) = true)
  obtain ⟨added, steps, hadds⟩ := h ⟨Tables.empty, 10⟩ circularDocument "$v" 42 circularBranch
    (List.mem_cons_of_mem _ List.mem_cons_self) rfl hnested hensure (by decide)
  have hsource : Source.value 30 (.assign ⟨30, 37⟩ true (.var ⟨30, 32⟩ "$v")
      (.var ⟨35, 37⟩ "$x")) ∈ circularBranch.sources :=
    Stmt.sources_subset (.head List.mem_cons_self (.single List.mem_cons_self)) List.mem_cons_self
  have hnone := Atlas.walkStmt_of_circlesAt rfl hnested hensure (by decide) hsource
    circularBranch_circles steps false TypeList.empty
  cases hnone.symm.trans (hadds false TypeList.empty)

end PhpAtlas
