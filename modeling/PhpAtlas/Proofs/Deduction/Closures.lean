import PhpAtlas.Proofs.Deduction.Search
import PhpAtlas.Proofs.Deduction.Termination

/-!
# Closures are scopes of their own

In the body of a closure, a variable that is neither a parameter nor captured has the candidates
that the body gives it on its own, whatever the candidates outside are.  If the body does not say
anything about the variable, these are none.

The closure has to stand where the search comes to it: one in the second condition of an `if` is not
found, and sees the candidates outside.  And a condition in the body does say something about a
variable that it tests.

## Main definitions

* `Expr.tests` — what a condition says may concern the variable.
* `Node.Unbound` — a node gives the variable no value, and is no closure around the position.
* `Node.Quiet` — nor is the variable tested by a condition in it.
* `Lookup.Unmoved` — a node leaves all candidates as they are.

## Main results

* `Lookup.unmoved_of_quiet` — a node that is quiet throughout leaves candidates as they are.
* `Lookup.types_of_closure` — in the body of a closure, the candidates are those of the body alone.
* `Atlas.closure_isolated` — a variable that the body is quiet about has no candidates in it.
* `Atlas.not_forall_closure_isolated` — a closure that is not found.
-/

namespace PhpAtlas

/-! ### Bodies that are quiet about a variable -/

/-- Whether what a condition says may concern a variable. -/
def Expr.tests (var : String) : Expr → Bool
  | .paren _ inner => inner.tests var
  | .unary _ .not operand => operand.tests var
  | .binary _ op left right =>
      match op.connective with
      | .instanceTest => left.varName? == some var
      | .equality _ => comparesNull var left right
      | .conjunction | .disjunction => left.tests var || right.tests var
      | .other => false
  | .var _ other => other == var
  | .call _ (.function (.name _)) (slot :: _) => slot.value?.bind Expr.varName? == some var
  | _ => false

namespace Node

/-- Whether a node gives a variable a value: an assignment, a loop over elements or a `catch`
clause. -/
def binds (var : String) : Node → Bool
  | expr (.assign _ true target _) => target.varName? == some var
  | stmt (.eachLoop _ _ key target _) =>
      target.varName? == some var || key.bind Expr.varName? == some var
  | clause c => c.binding == some var
  | _ => false

/-- The conditions on which parts of a node depend. -/
def conditions : Node → List Expr
  | stmt (.cond _ branches) => branches.filterMap (·.condition)
  | stmt (.whileLoop _ condition _) => [condition]
  | expr (.ternary _ condition _ _) => [condition]
  | expr (.binary _ op left _) =>
      match op.connective with
      | .conjunction | .disjunction => [left]
      | _ => []
  | _ => []

/-- The range in which a closure or an arrow function is a scope of its own. -/
def ownScope? : Node → Option Span
  | expr (.closure _ _ _ _ b) => some b.span
  | expr (.arrow _ _ _ arrow e) => some ⟨arrow, e.span.stop⟩
  | _ => none

/-- A node gives the variable no value, and is no closure around the position. -/
structure Unbound (var : String) (p : Point) (n : Node) : Prop where
  unbound : n.binds var = false
  outside : ∀ r ∈ n.ownScope?, p.within r = false

/-- Nor is the variable tested by a condition on which the position depends. -/
structure Quiet (var : String) (p : Point) (n : Node) : Prop extends Unbound var p n where
  untested : p.within n.span = true → ∀ c ∈ n.conditions, c.tests var = false

instance (var : String) (p : Point) : DecidablePred (Unbound var p) := fun n =>
  decidable_of_iff (n.binds var = false ∧ ∀ r ∈ n.ownScope?, p.within r = false)
    ⟨fun h => ⟨h.1, h.2⟩, fun h => ⟨h.unbound, h.outside⟩⟩

instance (var : String) (p : Point) : DecidablePred (Quiet var p) := fun n =>
  decidable_of_iff (n.Unbound var p ∧
    (p.within n.span = true → ∀ c ∈ n.conditions, c.tests var = false))
    ⟨fun h => ⟨h.1, h.2⟩, fun h => ⟨h.toUnbound, h.untested⟩⟩

end Node

namespace Lookup

variable {l : Lookup} {p : Point}

/-- A condition that does not test the variable says nothing about it, and asks for nothing. -/
theorem narrowing_of_untested (e : Expr) (h : e.tests l.var = false) (truth : Bool) :
    l.narrowing p e truth = some .any := by
  induction e, truth using narrowing.induct with
  | case1 span inner truth ih => simpa only [narrowing] using ih h
  | case2 span operand truth ih => simpa only [narrowing] using ih h
  | case3 span op left right truth hop =>
    simp only [Expr.tests, hop] at h
    simp only [narrowing, hop, instanceNarrowing, h, Bool.and_false, Bool.false_eq_true, if_false]
  | case4 span op left right truth positive hop =>
    simp only [Expr.tests, hop] at h
    simp only [narrowing, hop, equalityNarrowing, h, Bool.false_eq_true, if_false]
  | case5 span op left right truth hop ihl ihr =>
    simp only [Expr.tests, hop, Bool.or_eq_false_iff] at h
    simp only [narrowing, hop, ihl h.1, ihr h.2]
    cases truth <;> rfl
  | case6 span op left right truth hop ihl ihr =>
    simp only [Expr.tests, hop, Bool.or_eq_false_iff] at h
    simp only [narrowing, hop, ihl h.1, ihr h.2]
    cases truth <;> rfl
  | case7 span op left right truth hop => simp only [narrowing, hop]
  | case8 span name truth =>
    simp only [Expr.tests] at h
    simp only [narrowing, h, Bool.false_eq_true, if_false]
  | case9 span r slot tail truth =>
    simp only [Expr.tests] at h
    simp only [narrowing, h, Bool.false_eq_true, if_false]
  | case10 e truth h1 h2 h3 h4 h5 =>
    rw [narrowing] <;> assumption

theorem assume_of_untested {e : Expr} (h : e.tests l.var = false) (truth : Bool)
    (types : TypeList) : l.assume p e truth types = some types := by
  rw [assume, narrowing_of_untested e h]
  rfl

theorem assumeFailed_of_untested {failed : List Expr} (h : ∀ e ∈ failed, e.tests l.var = false)
    (types : TypeList) : l.assumeFailed p failed types = some types := by
  rw [assumeFailed]
  induction failed with
  | nil => rfl
  | cons e rest ih =>
    rw [List.foldlM_cons, assume_of_untested (h e List.mem_cons_self)]
    exact ih fun e he => h e (List.mem_cons_of_mem _ he)

theorem assumeBranch_of_untested {failed : List Expr} {own : Option Expr}
    (hfailed : ∀ e ∈ failed, e.tests l.var = false) (hown : ∀ e ∈ own, e.tests l.var = false)
    (types : TypeList) : l.assumeBranch p failed own types = some types := by
  rw [assumeBranch, assumeFailed_of_untested hfailed]
  cases own with
  | none => rfl
  | some e => exact assume_of_untested (hown e rfl) true types

/-! ### Expressions -/

/-- A node leaves the candidates as they are, whatever they are, and asks for nothing. -/
def Unmoved (l : Lookup) (p : Point) : Node → Prop
  | .expr e => ∀ types, l.closureIn e p types = some .outside ∧
      l.narrowInside p e types = some types ∧
      ∀ start conditional, l.assigned p start conditional types e = some types
  | .stmt s => l.namedAnnotation? s.span.start = none ∧
      (∀ types, l.closureInStmt s p types = some .outside) ∧
      ∀ conditional types, l.walkStmt s p conditional types = some (goOn types)
  | .body b => ∀ conditional types,
      l.walk b.statements p conditional types = some (goOn types)
  | .case b => ∀ conditional types,
      l.walk b.body.statements p conditional types = some (goOn types)
  | .clause c => (c.binding == some l.var) = false ∧ ∀ conditional types,
      l.walk c.body.statements p conditional types = some (goOn types)
  | _ => True

theorem narrowArms_of_unmoved {arms : List (Arm Expr)}
    (h : ∀ a ∈ arms, Unmoved l p (.expr a.value)) (types : TypeList) :
    l.narrowArms p arms types = some types := by
  induction arms with
  | nil => rfl
  | cons a rest ih =>
    rw [narrowArms, (h a List.mem_cons_self types).2.1]
    exact ih fun a ha => h a (List.mem_cons_of_mem _ ha)

theorem narrowSlots_of_unmoved {slots : List (Slot Expr)}
    (h : ∀ e ∈ slots.flatMap Slot.exprs, Unmoved l p (.expr e)) (types : TypeList) :
    l.narrowSlots p slots types = some types := by
  induction slots with
  | nil => rfl
  | cons slot rest ih =>
    rw [List.flatMap_cons, List.forall_mem_append] at h
    obtain ⟨hslot, hrest⟩ := h
    cases slot with
    | missing => exact ih hrest
    | value e | spread e | named _ e | pair _ e =>
      rw [narrowSlots, (hslot e (by simp [Slot.exprs]) types).2.1]
      exact ih hrest

/-- An expression leaves the candidates as they are if its parts do. -/
theorem narrowInside_of_unmoved {e : Expr} (hquiet : (Node.expr e).Quiet l.var p)
    (hparts : ∀ m ∈ (Node.expr e).parts, Unmoved l p m) (types : TypeList) :
    l.narrowInside p e types = some types := by
  have hexpr : ∀ e', Node.expr e' ∈ (Node.expr e).parts → ∀ types,
      l.narrowInside p e' types = some types := fun e' he' types => (hparts _ he' types).2.1
  by_cases hwithin : p.within e.span = true
  swap
  · exact narrowInside_of_not_within (Bool.eq_false_iff.2 hwithin) types
  have huntested := hquiet.untested hwithin
  cases e with
  | paren span e | unary span _ e | property span _ e _ =>
    rw [narrowInside]
    exact (if_pos hwithin).trans (hexpr e List.mem_cons_self types)
  | assign span _ target value =>
    rw [narrowInside]
    exact (if_pos hwithin).trans (hexpr value (List.mem_cons_of_mem _ List.mem_cons_self) types)
  | ternary span condition yes no =>
    have hcondition : condition.tests l.var = false := huntested condition List.mem_cons_self
    have hyes : ∀ e ∈ yes, ∀ types, l.narrowInside p e types = some types :=
      fun e he => hexpr e (Node.yes_mem he)
    have hno : ∀ types, l.narrowInside p no types = some types := hexpr no Node.no_mem
    have hwithin : p.within span = true := hwithin
    rw [narrowInside, if_pos hwithin, hexpr condition List.mem_cons_self,
      assume_of_untested hcondition]
    split
    · rfl
    · cases yes with
      | none =>
        rw [narrowYes]
        exact hno types
      | some yes =>
        simp only [narrowYes, assume_of_untested hcondition, Option.bind_eq_bind, Option.bind_some,
          hyes yes rfl, hno]
        split <;> rfl
  | binary span op left right =>
    have hleft := hexpr left List.mem_cons_self
    have hright := hexpr right (List.mem_cons_of_mem _ List.mem_cons_self)
    have hwithin : p.within span = true := hwithin
    rw [narrowInside, if_pos hwithin]
    cases hop : op.connective with
    | conjunction | disjunction =>
      have huntested : left.tests l.var = false :=
        huntested left (by simp [Node.conditions, hop])
      simp only [assume_of_untested huntested, Option.bind_eq_bind, Option.bind_some, hleft, hright,
        ite_self]
    | _ => simp only [hleft, hright, Option.bind_eq_bind, Option.bind_some]
  | select span subject arms =>
    have harms : ∀ a ∈ arms, Unmoved l p (.expr a.value) := fun a ha => hparts _ (Node.arm_mem ha)
    rw [narrowInside]
    exact (if_pos hwithin).trans (narrowArms_of_unmoved harms types)
  | call span callee slots =>
    have hslots : ∀ types, l.narrowSlots p slots types = some types :=
      narrowSlots_of_unmoved fun e he => hparts (.expr e) (Node.slot_mem he)
    cases callee with
    | function callee | method _ callee _ | static callee _ =>
      have hwithin : p.within span = true := hwithin
      rw [narrowInside, if_pos hwithin, hexpr callee List.mem_cons_self]
      exact hslots types
  | _ => simp only [narrowInside]

theorem closureIn_of_unmoved {e : Expr} (hquiet : (Node.expr e).Quiet l.var p)
    (hparts : ∀ m ∈ (Node.expr e).parts, Unmoved l p m) (types : TypeList) :
    l.closureIn e p types = some .outside := by
  cases hfunction : e.isFunction with
  | true =>
    cases e with
    | closure span _ _ _ body =>
      have hbody : p.within body.span = false := hquiet.outside _ rfl
      rw [closureIn, hbody, Bool.and_false]
      rfl
    | arrow span _ _ arrow body =>
      have hbody : p.within ⟨arrow, body.span.stop⟩ = false := hquiet.outside _ rfl
      rw [closureIn, hbody, Bool.and_false]
      rfl
    | _ => cases hfunction
  | false =>
    have hsearched : ∀ e' ∈ e.searched, l.closureIn e' p types = some .outside := fun e' he' =>
      (hparts (.expr e') (e.searched_sublist.subset (List.mem_map_of_mem he')) types).1
    rw [closureIn_eq_closureInAll hfunction, closureInAll_of_outside hsearched, ite_self]

theorem assigned_of_unmoved {e : Expr} (hquiet : (Node.expr e).Quiet l.var p)
    (hparts : ∀ m ∈ (Node.expr e).parts, Unmoved l p m) (types : TypeList) (start : Nat)
    (conditional : Bool) : l.assigned p start conditional types e = some types := by
  cases e with
  | assign span plain target value =>
    cases plain with
    | false => simp only [assigned]
    | true =>
      have htarget : (target.varName? == some l.var) = false := hquiet.unbound
      rw [assigned, htarget]
      exact (hparts (.expr value) (List.mem_cons_of_mem _ List.mem_cons_self) types).2.2 _ _
  | _ => simp only [assigned]

/-! ### Statements -/

theorem walk_of_unmoved {ss : List Stmt} (h : ∀ s ∈ ss, Unmoved l p (.stmt s))
    (conditional : Bool) (types : TypeList) :
    l.walk ss p conditional types = some (goOn types) := by
  induction ss with
  | nil => rfl
  | cons s rest ih =>
    obtain ⟨hunannotated, hclosure, hwalk⟩ := h s List.mem_cons_self
    have hannotate : l.annotate s.span.start conditional types = types := by
      rw [annotate, hunannotated]
    -- no closure answers, and the statement hands on what it was given
    rw [walk_cons, hannotate, hclosure, ite_self, Option.bind_some, behindClosures, hwalk,
      Option.bind_some, goOn, if_neg Bool.false_ne_true,
      ih fun s hs => h s (List.mem_cons_of_mem _ hs)]
    exact ite_self _

section Branches

variable {span : Span} {branches : List (Branch Expr Stmt)}

theorem inBranch_of_unmoved (hcovers : ∀ b ∈ branches, span.Covers b.body.span)
    (huntested : p.within span = true → ∀ b ∈ branches, ∀ e ∈ b.condition, e.tests l.var = false)
    (hbodies : ∀ b ∈ branches, Unmoved l p (.body b.body)) (failed : List Expr)
    (hfailed : p.within span = true → ∀ e ∈ failed, e.tests l.var = false) (conditional : Bool)
    (types : TypeList) :
    l.inBranch failed branches p conditional types = some none ∨
      l.inBranch failed branches p conditional types = some (some (goOn types)) := by
  induction branches generalizing failed with
  | nil => exact .inl rfl
  | cons b rest ih =>
    rw [inBranch]
    by_cases hwithin : p.within b.body.span = true
    · -- the position lies in the `if`, so none of its conditions tests the variable
      have hspan : p.within span = true := (hcovers b List.mem_cons_self).holds hwithin
      rw [if_pos hwithin, assumeBranch_of_untested (hfailed hspan)
        (huntested hspan b List.mem_cons_self), Option.bind_eq_bind, Option.bind_some,
        hbodies b List.mem_cons_self conditional types]
      exact .inr rfl
    · rw [if_neg hwithin]
      refine ih (fun b hb => hcovers b (List.mem_cons_of_mem _ hb))
        (fun hspan b hb => huntested hspan b (List.mem_cons_of_mem _ hb))
        (fun b hb => hbodies b (List.mem_cons_of_mem _ hb)) _ fun hspan e he => ?_
      rcases List.mem_append.1 he with he | he
      · exact hfailed hspan e he
      · exact huntested hspan b List.mem_cons_self e (Option.mem_toList.1 he)

theorem inConditions_of_unmoved
    (hcovers : ∀ b ∈ branches, ∀ e ∈ b.condition, span.Covers e.span)
    (huntested : p.within span = true → ∀ b ∈ branches, ∀ e ∈ b.condition, e.tests l.var = false)
    (hconditions : ∀ b ∈ branches, ∀ e ∈ b.condition, Unmoved l p (.expr e)) (failed : List Expr)
    (hfailed : p.within span = true → ∀ e ∈ failed, e.tests l.var = false) (types : TypeList) :
    l.inConditions p types failed branches = some none ∨
      l.inConditions p types failed branches = some (some types) := by
  induction branches generalizing failed with
  | nil => exact .inl rfl
  | cons b rest ih =>
    have ih := ih (fun b hb => hcovers b (List.mem_cons_of_mem _ hb))
      (fun hspan b hb => huntested hspan b (List.mem_cons_of_mem _ hb))
      (fun b hb => hconditions b (List.mem_cons_of_mem _ hb))
    rw [inConditions]
    cases hcondition : b.condition with
    | none => exact ih failed hfailed
    | some e =>
      dsimp only
      by_cases hwithin : p.within e.span = true
      · have hspan : p.within span = true :=
          (hcovers b List.mem_cons_self e hcondition).holds hwithin
        rw [if_pos hwithin, assumeFailed_of_untested (hfailed hspan), Option.bind_eq_bind,
          Option.bind_some, (hconditions b List.mem_cons_self e hcondition types).2.1]
        exact .inr rfl
      · rw [if_neg hwithin]
        refine ih _ fun hspan e' he' => ?_
        rcases List.mem_append.1 he' with he' | he'
        · exact hfailed hspan e' he'
        · rw [List.mem_singleton.1 he']
          exact huntested hspan b List.mem_cons_self e hcondition

theorem behindBranches_of_unmoved (hbodies : ∀ b ∈ branches, Unmoved l p (.body b.body))
    (types : TypeList) : l.behindBranches branches p types = some (goOn types) := by
  induction branches with
  | nil => rfl
  | cons b rest ih =>
    have ih := ih fun b hb => hbodies b (List.mem_cons_of_mem _ hb)
    rw [behindBranches, hbodies b List.mem_cons_self]
    split
    · exact ih
    · exact ih

/-- An `if` leaves the candidates as they are if its branches do, and its conditions as far as the
position lies in the `if`. -/
theorem walkStmt_cond_of_unmoved (hn : Nested (.stmt (.cond span branches)))
    (hquiet : (Node.stmt (.cond span branches)).Quiet l.var p)
    (hparts : ∀ m ∈ (Node.stmt (.cond span branches)).parts, Unmoved l p m) (conditional : Bool)
    (types : TypeList) :
    l.walkStmt (.cond span branches) p conditional types = some (goOn types) := by
  have huntested : p.within span = true →
      ∀ b ∈ branches, ∀ e ∈ b.condition, e.tests l.var = false := fun hspan b hb e he =>
    hquiet.untested hspan e (List.mem_filterMap.2 ⟨b, hb, he⟩)
  have hbodies : ∀ b ∈ branches, Unmoved l p (.body b.body) :=
    fun b hb => hparts _ (Node.branch_mem hb)
  rw [walkStmt]
  cases hfirst : firstCondition? p branches with
  | some e =>
    obtain ⟨b, hb, he⟩ := mem_of_firstCondition? hfirst
    dsimp only
    rw [(hparts _ (Node.condition_mem hb he) types).2.1]
    rfl
  | none =>
    dsimp only
    rcases inBranch_of_unmoved (fun b hb => hn.inside (Node.branch_mem hb)) huntested hbodies []
      (fun _ e he => nomatch he) conditional types with h | h
    · rw [h, Option.bind_eq_bind, Option.bind_some]
      rcases inConditions_of_unmoved (fun b hb e he => hn.inside (Node.condition_mem hb he))
        huntested (fun b hb e he => hparts _ (Node.condition_mem hb he)) []
        (fun _ e he => nomatch he) types with h | h
      · rw [h, Option.bind_eq_bind, Option.bind_some]
        exact behindBranches_of_unmoved hbodies types
      · rw [h]
        rfl
    · rw [h]
      rfl

end Branches

theorem walkCases_of_unmoved {cases : List (Branch Expr Stmt)}
    (h : ∀ b ∈ cases, Unmoved l p (.case b)) (conditional : Bool) (types : TypeList) :
    l.walkCases cases p conditional types = some (goOn types) := by
  induction cases with
  | nil => rfl
  | cons b rest ih =>
    have hb := h b List.mem_cons_self
    have ih := ih fun b hb => h b (List.mem_cons_of_mem _ hb)
    rw [walkCases, hb, hb, Option.bind_eq_bind, Option.bind_some]
    split
    · rfl
    · split
      · rfl
      · exact ih

theorem walkCatches_of_unmoved {catches : List (Catch Stmt)}
    (h : ∀ c ∈ catches, Unmoved l p (.clause c)) (conditional : Bool) (types : TypeList) :
    l.walkCatches catches p conditional types = some (.ok types) ∨
      l.walkCatches catches p conditional types = some (.error (goOn types)) := by
  induction catches with
  | nil => exact .inl rfl
  | cons c rest ih =>
    obtain ⟨hbinding, hc⟩ := h c List.mem_cons_self
    have ih := ih fun c hc => h c (List.mem_cons_of_mem _ hc)
    rw [walkCatches, hbinding, hc, Option.bind_eq_bind, Option.bind_some]
    split
    · exact .inr rfl
    · split
      · exact .inr (congrArg (Option.map Except.error) (hc conditional types))
      · exact ih

theorem initialized_of_unmoved {initial : List Expr}
    (h : ∀ e ∈ initial, Unmoved l p (.expr e)) (conditional : Bool) (types : TypeList) :
    l.initialized p conditional initial types = some types := by
  rw [initialized]
  induction initial with
  | nil => rfl
  | cons e rest ih =>
    rw [List.foldlM_cons, (h e List.mem_cons_self types).2.2, ite_self]
    exact ih fun e he => h e (List.mem_cons_of_mem _ he)

/-- A statement leaves the candidates as they are if its parts do. -/
theorem walkStmt_of_unmoved {s : Stmt} (hn : Nested (.stmt s))
    (hquiet : (Node.stmt s).Quiet l.var p) (hparts : ∀ m ∈ (Node.stmt s).parts, Unmoved l p m)
    (conditional : Bool) (types : TypeList) :
    l.walkStmt s p conditional types = some (goOn types) := by
  have hbody : ∀ b, Node.body b ∈ (Node.stmt s).parts → ∀ conditional types,
      l.walk b.statements p conditional types = some (goOn types) := fun b hb => hparts (.body b) hb
  cases s with
  | expression span e =>
    obtain ⟨-, hnarrow, hassigned⟩ := hparts (.expr e) List.mem_cons_self types
    rw [walkStmt, hnarrow, hassigned]
    exact ite_self _
  | ret _ value =>
    cases value with
    | none => rfl
    | some e =>
      obtain ⟨-, hnarrow, -⟩ := hparts (.expr e) List.mem_cons_self types
      rw [walkStmt, hnarrow]
      rfl
  | block b =>
    exact walk_of_unmoved (fun s hs => hparts (.stmt s) (List.mem_map_of_mem hs)) _ types
  | space _ _ _ inner =>
    exact walk_of_unmoved (fun s hs => hparts (.stmt s) (List.mem_map_of_mem hs)) _ types
  | cond span branches => exact walkStmt_cond_of_unmoved hn hquiet hparts conditional types
  | eachLoop span subject key target b =>
    have hbinds : (target.varName? == some l.var || key.bind Expr.varName? == some l.var) = false :=
      hquiet.unbound
    rw [Bool.or_eq_false_iff] at hbinds
    have henter : l.enterLoop p span subject key target types = some types := by
      rw [enterLoop, hbinds.1, hbinds.2]
      rfl
    rw [walkStmt, henter]
    split <;> exact hbody b (by simp [Node.parts, Node.partsOfStmt]) _ types
  | whileLoop span condition b =>
    have hmem : Node.body b ∈ (Node.stmt (.whileLoop span condition b)).parts :=
      List.mem_cons_of_mem _ List.mem_cons_self
    obtain ⟨-, hnarrow, -⟩ := hparts (.expr condition) List.mem_cons_self types
    rw [walkStmt, hnarrow]
    split
    · rename_i hwithin
      have hspan : p.within span = true := (hn.inside hmem).holds hwithin
      rw [assume_of_untested (hquiet.untested hspan condition List.mem_cons_self)]
      exact hbody b hmem _ types
    · split <;> exact hbody b hmem _ types
  | doLoop span b condition => exact hbody b List.mem_cons_self _ types
  | forLoop span initial conditions steps b =>
    have hinitial : ∀ e ∈ initial, Unmoved l p (.expr e) := fun e he =>
      hparts _ (by simp [Node.parts, Node.partsOfStmt, he])
    rw [walkStmt, initialized_of_unmoved hinitial]
    exact hbody b (by simp [Node.parts, Node.partsOfStmt]) _ types
  | switch span subject cases =>
    exact walkCases_of_unmoved (fun b hb =>
      hparts (.case b) (List.mem_cons_of_mem _ (List.mem_map_of_mem hb))) conditional types
  | tryCatch span b catches ensureStart ensure =>
    have hcatches : ∀ c ∈ catches, Unmoved l p (.clause c) :=
      fun c hc => hparts _ (Node.catch_mem hc)
    have hensure : l.walkEnsure ensure p conditional types = some (goOn types) := by
      cases ensure with
      | none => rfl
      | some last => exact hbody last (Node.ensure_mem rfl) _ types
    rw [walkStmt, hbody b List.mem_cons_self, hbody b List.mem_cons_self]
    split
    · rfl
    · rw [Option.bind_eq_bind, Option.bind_some, goOn, if_neg Bool.false_ne_true]
      rcases walkCatches_of_unmoved hcatches conditional types with h | h
      · rw [h, Option.bind_eq_bind, Option.bind_some]
        dsimp only
        rw [hensure]
        exact ite_self _
      · rw [h]
        rfl
  | _ => rfl

/-- A node that is quiet throughout leaves the candidates as they are, if no annotation in its range
names the variable. -/
theorem unmoved_of_quiet {r : Span} {n : Node} (h : Throughout (Node.Quiet l.var p) n)
    (hn : Inside r n)
    (hunannotated : ∀ offset, r.holds offset = true → l.namedAnnotation? offset = none) :
    Unmoved l p n := by
  induction h with
  | intro n hquiet _ ih =>
    have hparts : ∀ m ∈ n.parts, Unmoved l p m := fun m hm => ih m hm (hn.part hm)
    cases n with
    | expr e =>
      exact fun types => ⟨closureIn_of_unmoved hquiet hparts types,
        narrowInside_of_unmoved hquiet hparts types, assigned_of_unmoved hquiet hparts types⟩
    | stmt s =>
      refine ⟨hunannotated _ hn.holds_start, fun types => ?_,
        walkStmt_of_unmoved hn.nested hquiet hparts⟩
      rw [closureInStmt_eq]
      exact closureInAll_of_outside fun e he =>
        (hparts (.expr e) (s.searched_sublist.subset (List.mem_map_of_mem he)) types).1
    | body b => exact walk_of_unmoved fun s hs => hparts _ (List.mem_map_of_mem hs)
    | case b =>
      exact walk_of_unmoved fun s hs => hparts _ (List.mem_append_right _ (List.mem_map_of_mem hs))
    | clause c => exact ⟨hquiet.unbound, hparts (.body c.body) List.mem_cons_self⟩
    | _ => trivial

theorem inScope_of_quiet {body : Body Stmt} (h : Throughout (Node.Quiet l.var p) (.body body))
    (hbody : Nested (.body body)) (hp : body.span.holds p.offset = true)
    (hunannotated : ∀ offset, body.span.holds offset = true → l.namedAnnotation? offset = none)
    (types : TypeList) :
    l.inScope p body.span.start body.statements types = some types := by
  have hwalk : l.walk body.statements p false types = some (goOn types) :=
    unmoved_of_quiet h ⟨hbody, Span.covers_refl⟩ hunannotated false types
  have hoverride : l.override p body.span.start types = types := by
    rw [override, hunannotated p.offset hp]
    split
    · rfl
    · exact ite_self _
  rw [inScope, hwalk, Option.bind_eq_bind, Option.bind_some, goOn, if_neg Bool.false_ne_true,
    hoverride]
  rfl

theorem namedAnnotation?_of_no_comment {offset : Nat}
    (h : inlineComment? l.site.doc.text offset = none) : l.namedAnnotation? offset = none := by
  rw [namedAnnotation?, h]
  rfl

/-! ### Closures -/

/-- A closure without a parameter or a capture of the variable starts without candidates. -/
theorem captured_eq_empty (start : Nat) {parameters : List (Parameter Expr)}
    {captures : List Capture} (hparameters : ∀ q ∈ parameters, q.name ≠ l.var)
    (hcaptures : ∀ c ∈ captures, c.name ≠ l.var) (types : TypeList) :
    l.captured start parameters captures types = (TypeList.empty, false) := by
  have hparameter : l.parameterTypes? start parameters = none := by
    rw [parameterTypes?, Option.map_eq_none_iff, List.find?_eq_none]
    intro symbol hsymbol
    obtain ⟨q, hq, rfl⟩ := List.mem_map.1 hsymbol
    exact fun hname => hparameters q hq (beq_iff_eq.1 hname)
  have hcapture : captures.find? (·.name == l.var) = none :=
    List.find?_eq_none.2 fun c hc hname => hcaptures c hc (beq_iff_eq.1 hname)
  rw [captured, hparameter, hcapture]

/-- In the body of a closure that the search comes to, a variable that is neither a parameter nor
captured has the candidates that the body alone gives it. -/
theorem types_of_closure (hfile : NestedStmts l.site.doc.statements) {span : Span}
    {parameters : List (Parameter Expr)} {captures : List Capture} {returns : Option ReturnHint}
    {body : Body Stmt}
    (h : Searched l.site.doc.statements l.var
      (.expr (.closure span parameters captures returns body)))
    (hparameters : ∀ q ∈ parameters, q.name ≠ l.var) (hcaptures : ∀ c ∈ captures, c.name ≠ l.var)
    (hp : body.span.Encloses p.offset) {types : TypeList} (htypes : l.types p = some types) :
    l.inScope p body.span.start body.statements TypeList.empty = some types := by
  have hcovers : span.Covers body.span :=
    (h.nested hfile).inside (m := .body body) (List.mem_append_right _ List.mem_cons_self)
  have hspan : span.Encloses p.offset := hcovers.encloses hp
  -- it is enough that the closure decides, as the search comes to it
  refine h.types_eq hfile hspan ?_ htypes
  intro types inner hinner
  have hboth : (p.within span && p.within body.span) = true :=
    Bool.and_eq_true_iff.2 ⟨hspan.holds, hp.holds⟩
  -- nothing is taken from outside: the body is walked without candidates
  rw [closureIn, if_pos hboth, captured_eq_empty span.start hparameters hcaptures] at hinner
  simp only [Option.bind_eq_bind, Option.bind_eq_some_iff] at hinner
  obtain ⟨w, hw, hinner⟩ := hinner
  cases hinner
  refine ⟨_, rfl, ?_⟩
  rw [inScope, hw]
  rfl

end Lookup

namespace Atlas

/-- In the body of a closure that the search comes to, a variable that is neither a parameter nor
captured has the candidates that the body alone gives it.  If nothing in the body gives it a value
and no condition around the position tests it, it has none, unless its look-up does not end. -/
theorem closure_isolated (a : Atlas) (site : Site) (hfile : NestedStmts site.doc.statements)
    (var : String) (span : Span) (parameters : List (Parameter Expr)) (captures : List Capture)
    (returns : Option ReturnHint) (body : Body Stmt)
    (hclosure : Searched site.doc.statements var
      (.expr (.closure span parameters captures returns body)))
    (hparameters : ∀ q ∈ parameters, q.name ≠ var) (hcaptures : ∀ c ∈ captures, c.name ≠ var)
    (p : Point) (hp : body.span.Encloses p.offset) :
    (∀ steps types, a.variableIn site (steps + 1) var p = some types →
      Lookup.inScope ⟨a.known, site, var, a.answerWith site (a.variableIn site steps)⟩ p
        body.span.start body.statements TypeList.empty = some types) ∧
    (Throughout (Node.Quiet var p) (.body body) →
      (∀ offset, body.span.holds offset = true →
        (Lookup.silent a.known site var).namedAnnotation? offset = none) →
      (a.Grounded site ⟨var, p⟩ ∧
        ∃ enough, ∀ steps ≥ enough, a.variableIn site steps var p = some TypeList.empty) ∨
      (¬ a.Grounded site ⟨var, p⟩ ∧ ∀ steps, a.variableIn site steps var p = none)) := by
  have hbodyOnly : ∀ steps types, a.variableIn site (steps + 1) var p = some types →
      Lookup.inScope ⟨a.known, site, var, a.answerWith site (a.variableIn site steps)⟩ p
        body.span.start body.statements TypeList.empty = some types :=
    fun steps types htypes =>
      Lookup.types_of_closure hfile hclosure hparameters hcaptures hp htypes
  refine ⟨hbodyOnly, fun hquiet hunannotated => ?_⟩
  by_cases hgrounded : a.Grounded site ⟨var, p⟩
  · refine .inl ⟨hgrounded, ?_⟩
    obtain ⟨steps, types, htypes⟩ := exists_variableIn hgrounded
    refine ⟨steps, fun more hle => ?_⟩
    -- with one step more, the answer is that of the body alone, which has none to give
    have hmore : a.variableIn site (more + 1) var p = some types :=
      variableIn_of_le (Nat.le_succ_of_le hle) htypes
    have hbody : Nested (.body body) := (hclosure.nested hfile).part
      (List.mem_append_right _ List.mem_cons_self)
    have hempty := Lookup.inScope_of_quiet
      (l := ⟨a.known, site, var, a.answerWith site (a.variableIn site more)⟩) hquiet hbody hp.holds
      hunannotated TypeList.empty
    rw [hbodyOnly more types hmore] at hempty
    rw [variableIn_of_le hle htypes]
    exact hempty
  · -- a circle that the look-up leads to keeps it from ending
    refine .inr ⟨hgrounded, fun steps => ?_⟩
    simp only [Grounded, not_forall, not_not] at hgrounded
    obtain ⟨y, hxy, hy⟩ := hgrounded
    exact variableIn_eq_none_of_circular steps hxy hy

/-- Nothing is declared. -/
def blankAtlas : Atlas := ⟨Tables.empty, 10⟩

/-- The body of the closure in the next document. -/
def readingBody : Body Stmt := ⟨⟨31, 38⟩, [.expression ⟨33, 36⟩ (.var ⟨33, 35⟩ "$a")]⟩

/-- A closure that reads a variable behind an assignment to it. -/
def readingDocument : Document :=
  ⟨"a.php", "<?php $a = 1; $f = function () { $a; };".toList, [
    .expression ⟨6, 13⟩ (.assign ⟨6, 12⟩ true (.var ⟨6, 8⟩ "$a") (.literal ⟨11, 12⟩ .integer)),
    .expression ⟨14, 39⟩ (.assign ⟨14, 38⟩ true (.var ⟨14, 16⟩ "$f")
      (.closure ⟨19, 38⟩ [] [] none readingBody))], [], []⟩

/-- What is assigned outside does not reach the closure. -/
theorem closure_isolated_assigned :
    readingBody.span.Encloses 34 ∧ ∃ enough, ∀ steps ≥ enough,
      blankAtlas.variableIn (blankAtlas.siteAt readingDocument 34) steps "$a" ⟨34, 0⟩ =
        some TypeList.empty := by
  have hclosure : Searched readingDocument.statements "$a"
      (.expr (.closure ⟨19, 38⟩ [] [] none readingBody)) :=
    .part (.part (.statement .file (List.mem_cons_of_mem _ List.mem_cons_self) rfl)
      (.value List.mem_cons_self)) (.operand (List.mem_cons_of_mem _ List.mem_cons_self))
  have hquiet : holdsDown (Node.Quiet "$a" ⟨34, 0⟩) 8 (.body readingBody) = true := by
    decide +kernel
  have hcomments : ∀ offset ∈ List.range 39, inlineComment? readingDocument.text offset = none := by
    decide +kernel
  have hisolated := (closure_isolated blankAtlas (blankAtlas.siteAt readingDocument 34)
    (nestedStmts_of_holdsDown 8 (by decide +kernel) (by decide +kernel)) "$a" _ _ _ _ readingBody
    hclosure nofun nofun ⟨34, 0⟩ (by decide)).2 (throughout_of_holdsDown hquiet)
    fun offset hoffset => Lookup.namedAnnotation?_of_no_comment
      (hcomments offset (List.mem_range.2 (Nat.lt_succ_of_le (Span.holds_iff.1 hoffset).2)))
  refine ⟨by decide, ?_⟩
  rcases hisolated with ⟨-, hempty⟩ | ⟨-, hendless⟩
  · exact hempty
  · have hone : blankAtlas.variableIn (blankAtlas.siteAt readingDocument 34) 1 "$a" ⟨34, 0⟩ =
        some TypeList.empty := by
      cbv
    rw [hendless] at hone
    cases hone

/-- The body of the closure in the next document. -/
def skippedBody : Body Stmt := ⟨⟨54, 60⟩, [.expression ⟨56, 58⟩ (.literal ⟨56, 57⟩ .integer)]⟩

/-- A closure in the second condition of an `if`, behind an assignment to a variable that it does
not mention. -/
def skippedDocument : Document :=
  ⟨"a.php", "<?php $a = new A(); if (f()) {} elseif (g(function () { 1; })) {}".toList, [
    .openTag ⟨0, 5⟩,
    .expression ⟨6, 19⟩ (.assign ⟨6, 18⟩ true (.var ⟨6, 8⟩ "$a")
      (.new ⟨11, 18⟩ (.name ⟨"A", ⟨15, 16⟩⟩) [])),
    .cond ⟨20, 65⟩ [
      ⟨some (.call ⟨24, 27⟩ (.function (.name ⟨"f", ⟨24, 25⟩⟩)) []),
        ⟨⟨29, 31⟩, [.block ⟨⟨29, 31⟩, []⟩]⟩⟩,
      ⟨some (.call ⟨40, 61⟩ (.function (.name ⟨"g", ⟨40, 41⟩⟩))
          [.value (.closure ⟨42, 60⟩ [] [] none skippedBody)]),
        ⟨⟨63, 65⟩, [.block ⟨⟨63, 65⟩, []⟩]⟩⟩]], [], []⟩

/-- A closure is not a scope of its own wherever it is written: the search looks for closures in the
first condition of an `if` only, so one in the second condition sees what is assigned outside,
though its body is quiet about the variable. -/
theorem not_forall_closure_isolated :
    ¬ ∀ (a : Atlas) (doc : Document) (offset : Nat) (var : String) (s : Stmt) (span : Span)
      (parameters : List (Parameter Expr)) (captures : List Capture)
      (returns : Option ReturnHint) (body : Body Stmt), NestedStmts doc.statements →
      s ∈ doc.statements → Relation.ReflTransGen (fun n m : Node => m ∈ n.parts) (.stmt s)
        (.expr (.closure span parameters captures returns body)) →
      (∀ q ∈ parameters, q.name ≠ var) → (∀ c ∈ captures, c.name ≠ var) →
      body.span.start < offset → offset < body.span.stop →
      Throughout (Node.Quiet var ⟨offset, 0⟩) (.body body) →
      (∀ o, body.span.holds o = true →
        (Lookup.silent a.known (a.siteAt doc offset) var).namedAnnotation? o = none) →
      ∃ steps, a.variableIn (a.siteAt doc offset) steps var ⟨offset, 0⟩ = some TypeList.empty := by
  intro h
  have hquiet : holdsDown (Node.Quiet "$a" ⟨56, 0⟩) 8 (.body skippedBody) = true := by
    decide +kernel
  have hcomments : ∀ offset ∈ List.range 65, inlineComment? skippedDocument.text offset = none := by
    decide +kernel
  -- the closure is an argument in the condition of the second branch
  obtain ⟨steps, hsteps⟩ := h blankAtlas skippedDocument 56 "$a" _ ⟨42, 60⟩ [] [] none skippedBody
    (nestedStmts_of_holdsDown 8 (by decide +kernel) (by decide +kernel))
    (List.mem_cons_of_mem _ (List.mem_cons_of_mem _ List.mem_cons_self))
    (.head (Node.condition_mem (List.mem_cons_of_mem _ List.mem_cons_self) rfl)
      (.single (List.mem_cons_of_mem _ List.mem_cons_self))) nofun nofun
    (by decide) (by decide) (throughout_of_holdsDown hquiet)
    fun offset hoffset => Lookup.namedAnnotation?_of_no_comment
      (hcomments offset (List.mem_range.2 (Nat.lt_of_le_of_lt (Span.holds_iff.1 hoffset).2
        (by decide))))
  have hscope : Lookup.scopeAt ⟨56, 0⟩ 0 skippedDocument.statements skippedDocument.statements =
      .statements 0 skippedDocument.statements := by
    cbv
  have hone : blankAtlas.variableIn (blankAtlas.siteAt skippedDocument 56) 1 "$a" ⟨56, 0⟩ =
      some (TypeList.single ⟨"A", "\\A"⟩) := by
    have hdoc : (blankAtlas.siteAt skippedDocument 56).doc = skippedDocument := rfl
    rw [variableIn, variableWith, Lookup.types, hdoc, hscope]
    decide +kernel
  cases steps with
  | zero => cases hsteps
  | succ steps =>
    rw [variableIn_of_le (x := ⟨"$a", ⟨56, 0⟩⟩) (Nat.le_add_left 1 steps) hone] at hsteps
    cases hsteps

end Atlas
end PhpAtlas
