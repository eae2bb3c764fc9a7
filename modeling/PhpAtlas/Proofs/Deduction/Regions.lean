import PhpAtlas.Proofs.Deduction.Search
import PhpAtlas.Proofs.Deduction.Symbols
import PhpAtlas.Proofs.Source.Parts

/-!
# Look-ups that agree in a region

The look-up of a variable walks the tree, and asks for the types of expressions that it finds
there.  Such a question is asked at the position itself, if the walk has found it in a node, or at
the start of a node.  So two look-ups that get the same answers for the nodes of a region come to
the same result on them.

## Main definitions

* `Region` — nodes and offsets that the walk of a node does not leave.
* `Region.inside`, `Region.naming` — the nodes in a range, and those with no other variables.
* `Lookup.Agree` — two look-ups that get the same answers in a region.

## Main results

* `Lookup.narrowInside_congr`, `Lookup.walk_congr` — look-ups that agree come to the same result on
  conditions and on statements.
* `Lookup.sameOn_of_agree` — and on every node of the region.
* `Lookup.types_congr` — they find the same candidates in a scope of the region.
* `Atlas.variableWith_eq_of_vars` — the candidates of a variable depend on the types of the
  variables of the document.
-/

namespace PhpAtlas

/-- Nodes and offsets that are not left: the parts of a node belong to it, and the offsets in the
range of a node. -/
structure Region where
  /-- The nodes of the region. -/
  In : Node → Prop
  /-- The offsets of the region. -/
  At : Nat → Prop
  part : ∀ {n m : Node}, In n → m ∈ n.parts → In m
  start : ∀ {n : Node}, In n → At n.span.start
  within : ∀ {n : Node} {offset : Nat}, In n → n.span.holds offset = true → At offset

namespace Region

/-- The nested nodes in a range. -/
def inside (r : Span) : Region where
  In := Inside r
  At offset := r.holds offset = true
  part := Inside.part
  start := Inside.holds_start
  within h := h.covers.holds

/-- The nodes whose variables are among some names, anywhere. -/
def naming (names : List String) : Region where
  In n := n.vars ⊆ names
  At _ := True
  part h hm := fun _ hv => h (Node.vars_subset_of_mem_parts hm hv)
  start _ := trivial
  within _ _ := trivial

end Region

namespace Lookup

/-- What a look-up knows without the tree of its document and without answers. -/
def bare (l : Lookup) : Lookup := ⟨l.known, l.site.bare, l.var, fun _ _ => none⟩

/-- Two look-ups get the same answers in a region, and differ in nothing else but the trees of their
documents. -/
structure Agree (r : Region) (l l' : Lookup) : Prop where
  bare : l'.bare = l.bare
  ask : ∀ e p, r.In (.expr e) → r.At p.offset → l'.ask e p = l.ask e p

variable {r : Region} {l l' : Lookup} {p : Point}

/-! ### What needs no answers -/

namespace Agree

/-- What can be computed from the bare look-up is the same. -/
theorem congr {α : Type} (h : Agree r l l') (f : Lookup → α) (hf : ∀ l, f l.bare = f l) :
    f l' = f l := by
  rw [← hf l', h.bare, hf l]

theorem var_eq (h : Agree r l l') : l'.var = l.var := h.congr Lookup.var fun _ => rfl

theorem annotation?_eq (h : Agree r l l') : l'.annotation? = l.annotation? :=
  h.congr annotation? fun _ => rfl

theorem annotate_eq (h : Agree r l l') : l'.annotate = l.annotate :=
  h.congr annotate fun _ => rfl

theorem override_eq (h : Agree r l l') : l'.override = l.override :=
  h.congr Lookup.override fun _ => rfl

theorem parameterTypes?_eq (h : Agree r l l') : l'.parameterTypes? = l.parameterTypes? :=
  h.congr parameterTypes? fun _ => rfl

theorem captured_eq (h : Agree r l l') : l'.captured = l.captured :=
  h.congr captured fun _ => rfl

theorem classReference?_eq (h : Agree r l l') :
    l'.known.classReference? l'.site = l.known.classReference? l.site := by
  have hknown : l'.known = l.known := h.congr Lookup.known fun _ => rfl
  rw [hknown, Site.classReference?_congr (congrArg Lookup.site h.bare)]

theorem resolveHint_eq (h : Agree r l l') (offset : Nat) :
    l'.known.resolveHint (l'.site.contextAt offset) l'.site.cls =
      l.known.resolveHint (l.site.contextAt offset) l.site.cls :=
  h.congr (fun l => l.known.resolveHint (l.site.contextAt offset) l.site.cls) fun _ => rfl

end Agree

/-! ### Conditions -/

theorem narrowing_congr (h : Agree r l l') (hp : r.At p.offset) (e : Expr)
    (he : r.In (.expr e)) (truth : Bool) : l'.narrowing p e truth = l.narrowing p e truth := by
  have hright : ∀ {span : Span} {op : BinaryOp} {left right : Expr},
      r.In (.expr (.binary span op left right)) → r.In (.expr right) :=
    fun he => r.part he (List.mem_cons_of_mem _ List.mem_cons_self)
  induction e, truth using narrowing.induct with
  | case1 span inner truth ih | case2 span operand truth ih =>
    simpa only [narrowing] using ih (r.part he List.mem_cons_self)
  | case3 span op left right truth hop =>
    simp only [narrowing, hop, instanceNarrowing, classTypes, h.classReference?_eq, h.var_eq,
      h.ask right p (hright he) hp]
  | case4 span op left right truth positive hop =>
    simp only [narrowing, hop, equalityNarrowing, h.var_eq]
  | case5 span op left right truth hop ihl ihr | case6 span op left right truth hop ihl ihr =>
    simp only [narrowing, hop, ihl (r.part he List.mem_cons_self), ihr (hright he)]
  | case7 span op left right truth hop => simp only [narrowing, hop]
  | case8 span name truth => simp only [narrowing, h.var_eq]
  | case9 span r slot tail truth => simp only [narrowing, h.var_eq]
  | case10 e truth h1 h2 h3 h4 h5 =>
    rw [narrowing, narrowing] <;> assumption

theorem assume_congr (h : Agree r l l') (hp : r.At p.offset) (e : Expr) (he : r.In (.expr e)) :
    l'.assume p e = l.assume p e := by
  funext truth types
  rw [assume, assume, narrowing_congr h hp e he]

mutual

/-- Inside an expression that holds the position, the position is in the region. -/
theorem narrowInside_congr (h : Agree r l l') (e : Expr) (he : r.In (.expr e)) :
    l'.narrowInside p e = l.narrowInside p e := by
  have hp : p.within e.span = true → r.At p.offset := r.within he
  funext types
  cases e with
  | paren span e | unary span _ e =>
    have he' : r.In (.expr e) := r.part he List.mem_cons_self
    simp only [narrowInside, narrowInside_congr h e he']
  | assign span _ target value =>
    have hvalue : r.In (.expr value) :=
      r.part he (List.mem_cons_of_mem _ List.mem_cons_self)
    simp only [narrowInside, narrowInside_congr h value hvalue]
  | property span _ e selector =>
    have he' : r.In (.expr e) := r.part he List.mem_cons_self
    simp only [narrowInside, narrowInside_congr h e he']
  | ternary span condition yes no =>
    have hcondition : r.In (.expr condition) := r.part he List.mem_cons_self
    have hyes : ∀ e ∈ yes, r.In (.expr e) := fun e hmem => r.part he (Node.yes_mem hmem)
    have hno : r.In (.expr no) := r.part he Node.no_mem
    simp only [narrowInside]
    by_cases hspan : p.within span = true
    · simp only [hspan, if_true, assume_congr h (hp hspan) condition hcondition,
        narrowInside_congr h condition hcondition, narrowInside_congr h no hno,
        narrowYes_congr h (hp hspan) condition hcondition yes hyes]
    · rw [if_neg hspan, if_neg hspan]
  | binary span op left right =>
    have hleft : r.In (.expr left) := r.part he List.mem_cons_self
    have hright : r.In (.expr right) :=
      r.part he (List.mem_cons_of_mem _ List.mem_cons_self)
    simp only [narrowInside]
    by_cases hspan : p.within span = true
    · simp only [hspan, if_true, assume_congr h (hp hspan) left hleft,
        narrowInside_congr h left hleft, narrowInside_congr h right hright]
    · rw [if_neg hspan, if_neg hspan]
  | select span subject arms =>
    have harms : ∀ a ∈ arms, r.In (.expr a.value) := fun a ha => r.part he (Node.arm_mem ha)
    simp only [narrowInside, narrowArms_congr h arms harms]
  | call span callee slots =>
    have hslots : ∀ s ∈ slots, ∀ e ∈ s.exprs, r.In (.expr e) := fun s hs e hmem =>
      r.part he (Node.slot_mem (List.mem_flatMap.2 ⟨s, hs, hmem⟩))
    cases callee with
    | function callee | method _ callee _ | static callee _ =>
      have hcallee : r.In (.expr callee) := r.part he List.mem_cons_self
      simp only [narrowInside, narrowInside_congr h callee hcallee,
        narrowSlots_congr h slots hslots]
  | _ => simp only [narrowInside]
termination_by structural e

theorem narrowYes_congr (h : Agree r l l') (hp : r.At p.offset) (condition : Expr)
    (hcondition : r.In (.expr condition)) (yes : Option Expr)
    (hyes : ∀ e ∈ yes, r.In (.expr e)) :
    l'.narrowYes p condition yes = l.narrowYes p condition yes := by
  funext types
  cases yes with
  | none => simp only [narrowYes]
  | some yes =>
    simp only [narrowYes, assume_congr h hp condition hcondition,
      narrowInside_congr h yes (hyes yes rfl)]
termination_by structural yes

theorem narrowArms_congr (h : Agree r l l') (arms : List (Arm Expr))
    (harms : ∀ a ∈ arms, r.In (.expr a.value)) :
    l'.narrowArms p arms = l.narrowArms p arms := by
  funext types
  match arms with
  | [] => simp only [narrowArms]
  | ⟨conditions, value⟩ :: rest =>
    have hvalue : r.In (.expr value) := harms ⟨conditions, value⟩ List.mem_cons_self
    simp only [narrowArms, narrowInside_congr h value hvalue,
      narrowArms_congr h rest fun a ha => harms a (List.mem_cons_of_mem _ ha)]
termination_by structural arms

theorem narrowSlots_congr (h : Agree r l l') (slots : List (Slot Expr))
    (hslots : ∀ s ∈ slots, ∀ e ∈ s.exprs, r.In (.expr e)) :
    l'.narrowSlots p slots = l.narrowSlots p slots := by
  funext types
  match slots with
  | [] => simp only [narrowSlots]
  | .missing :: rest =>
    simp only [narrowSlots,
      narrowSlots_congr h rest fun s hs => hslots s (List.mem_cons_of_mem _ hs)]
  | .value e :: rest | .pair _ e :: rest | .spread e :: rest | .named _ e :: rest =>
    have he : r.In (.expr e) := hslots _ List.mem_cons_self e (by simp [Slot.exprs])
    simp only [narrowSlots, narrowInside_congr h e he,
      narrowSlots_congr h rest fun s hs => hslots s (List.mem_cons_of_mem _ hs)]
termination_by structural slots

end

theorem assumeFailed_congr (h : Agree r l l') (hp : r.At p.offset) (failed : List Expr)
    (hfailed : ∀ e ∈ failed, r.In (.expr e)) :
    l'.assumeFailed p failed = l.assumeFailed p failed := by
  funext types
  rw [assumeFailed, assumeFailed]
  induction failed generalizing types with
  | nil => rfl
  | cons e rest ih =>
    simp only [List.foldlM_cons, assume_congr h hp e (hfailed e List.mem_cons_self)]
    refine congrArg _ (funext fun types => ?_)
    exact ih (fun e he => hfailed e (List.mem_cons_of_mem _ he)) types

theorem assumeBranch_congr (h : Agree r l l') (hp : r.At p.offset) (failed : List Expr)
    (hfailed : ∀ e ∈ failed, r.In (.expr e)) (own : Option Expr)
    (hown : ∀ e ∈ own, r.In (.expr e)) :
    l'.assumeBranch p failed own = l.assumeBranch p failed own := by
  funext types
  cases own with
  | none => simp only [assumeBranch, assumeFailed_congr h hp failed hfailed]
  | some condition =>
    simp only [assumeBranch, assumeFailed_congr h hp failed hfailed,
      assume_congr h hp condition (hown condition rfl)]

theorem inConditions_congr (h : Agree r l l') (branches : List (Branch Expr Stmt))
    (hbranches : ∀ b ∈ branches, ∀ e ∈ b.condition, r.In (.expr e)) (failed : List Expr)
    (hfailed : ∀ e ∈ failed, r.In (.expr e)) (types : TypeList) :
    l'.inConditions p types failed branches = l.inConditions p types failed branches := by
  induction branches generalizing failed with
  | nil => simp only [inConditions]
  | cons b rest ih =>
    have ih := ih fun b hb => hbranches b (List.mem_cons_of_mem _ hb)
    simp only [inConditions]
    cases hcondition : b.condition with
    | none => exact ih failed hfailed
    | some condition =>
      have hin := hbranches b List.mem_cons_self condition hcondition
      by_cases hp : p.within condition.span = true
      · simp only [hp, if_true, assumeFailed_congr h (r.within hin hp) failed hfailed,
          narrowInside_congr h condition hin]
      · simp only [if_neg hp]
        refine ih (failed ++ [condition]) fun e he => ?_
        rcases List.mem_append.1 he with he | he
        · exact hfailed e he
        · rwa [List.mem_singleton.1 he]

/-! ### Assignments and loops -/

/-- The value of an assignment is asked for at the start of the assignment. -/
theorem assigned_congr (h : Agree r l l') (start : Nat) (conditional : Bool) (types : TypeList)
    (e : Expr) (he : r.In (.expr e)) :
    l'.assigned p start conditional types e = l.assigned p start conditional types e := by
  cases e with
  | assign span plain target value =>
    cases plain with
    | false => simp only [assigned]
    | true =>
      have hvalue : r.In (.expr value) :=
        r.part he (List.mem_cons_of_mem _ List.mem_cons_self)
      have hask : l'.ask value (p.deeper span.start) = l.ask value (p.deeper span.start) :=
        h.ask value (p.deeper span.start) hvalue (r.start he)
      simp only [assigned, h.var_eq, h.annotation?_eq, hask,
        assigned_congr h start conditional types value hvalue]
  | _ => simp only [assigned]
termination_by structural e

theorem initialized_congr (h : Agree r l l') (conditional : Bool) (initial : List Expr)
    (hinitial : ∀ e ∈ initial, r.In (.expr e)) (types : TypeList) :
    l'.initialized p conditional initial types = l.initialized p conditional initial types := by
  rw [initialized, initialized]
  induction initial generalizing types with
  | nil => rfl
  | cons e rest ih =>
    have hassigned := assigned_congr (p := p) h e.span.start conditional types e
      (hinitial e List.mem_cons_self)
    simp only [List.foldlM_cons, hassigned]
    refine congrArg _ (funext fun types => ?_)
    exact ih (fun e he => hinitial e (List.mem_cons_of_mem _ he)) types

/-- The subject of a loop is asked for at the start of the loop. -/
theorem enterLoop_congr (h : Agree r l l') {span : Span} (hspan : r.At span.start)
    (subject : Expr) (hsubject : r.In (.expr subject)) (key : Option Expr) (target : Expr) :
    l'.enterLoop p span subject key target = l.enterLoop p span subject key target := by
  funext types
  have hask : l'.ask subject (p.deeper span.start) = l.ask subject (p.deeper span.start) :=
    h.ask subject (p.deeper span.start) hsubject hspan
  simp only [enterLoop, h.var_eq, h.annotation?_eq, hask]

/-! ### Walks -/

/-- Two look-ups come to the same result on a node. -/
def SameOn (l l' : Lookup) : Node → Prop
  | .expr e => l'.closureIn e = l.closureIn e
  | .stmt s => l'.closureInStmt s = l.closureInStmt s ∧ l'.walkStmt s = l.walkStmt s
  | .body b => l'.walk b.statements = l.walk b.statements
  | .case b => l'.walk b.body.statements = l.walk b.body.statements
  | .clause c => l'.walk c.body.statements = l.walk c.body.statements
  | _ => True

theorem closureInAll_congr {es : List Expr} (h : ∀ e ∈ es, l'.closureIn e = l.closureIn e) :
    l'.closureInAll es = l.closureInAll es := by
  funext p types
  induction es with
  | nil => simp only [closureInAll]
  | cons e rest ih =>
    simp only [closureInAll, h e List.mem_cons_self,
      ih fun e he => h e (List.mem_cons_of_mem _ he)]

/-- The look-ups come to the same result on an expression if they do on its parts. -/
theorem closureIn_congr (h : Agree r l l') (e : Expr) (he : r.In (.expr e))
    (hparts : ∀ m ∈ (Node.expr e).parts, SameOn l l' m) : l'.closureIn e = l.closureIn e := by
  funext p types
  cases hfunction : e.isFunction with
  | true =>
    cases e with
    | closure span parameters captures returns body =>
      have hbody : l'.walk body.statements = l.walk body.statements :=
        hparts (.body body) (List.mem_append_right _ List.mem_cons_self)
      simp only [closureIn, h.captured_eq, h.override_eq, hbody]
    | arrow span parameters returns arrow body =>
      have hmem : Node.expr body ∈ (Node.expr (.arrow span parameters returns arrow body)).parts :=
        List.mem_append_right _ List.mem_cons_self
      have hbody : l'.closureIn body = l.closureIn body := hparts _ hmem
      simp only [closureIn, h.parameterTypes?_eq, hbody, narrowInside_congr h body (r.part he hmem)]
    | _ => cases hfunction
  | false =>
    have hsearched : l'.closureInAll e.searched = l.closureInAll e.searched :=
      closureInAll_congr fun e' he' =>
        hparts (.expr e') (e.searched_sublist.subset (List.mem_map_of_mem he'))
    rw [closureIn_eq_closureInAll hfunction, closureIn_eq_closureInAll hfunction, hsearched]

theorem walk_congr (h : Agree r l l') {ss : List Stmt} (hss : ∀ s ∈ ss, SameOn l l' (.stmt s)) :
    l'.walk ss = l.walk ss := by
  induction ss with
  | nil =>
    funext p conditional types
    simp only [walk]
  | cons s rest ih =>
    obtain ⟨hclosure, hstmt⟩ := hss s List.mem_cons_self
    have hrest := ih fun s hs => hss s (List.mem_cons_of_mem _ hs)
    funext p conditional types
    simp only [walk, h.annotate_eq, hclosure, hstmt, hrest]

theorem inBranch_congr (h : Agree r l l') {branches : List (Branch Expr Stmt)}
    (hconditions : ∀ b ∈ branches, ∀ e ∈ b.condition, r.In (.expr e))
    (hbranches : ∀ b ∈ branches, r.In (.body b.body) ∧ SameOn l l' (.body b.body))
    (failed : List Expr) (hfailed : ∀ e ∈ failed, r.In (.expr e)) :
    l'.inBranch failed branches = l.inBranch failed branches := by
  induction branches generalizing failed with
  | nil =>
    funext p conditional types
    simp only [inBranch]
  | cons b rest ih =>
    obtain ⟨hin, hbody⟩ := hbranches b List.mem_cons_self
    have hbody : l'.walk b.body.statements = l.walk b.body.statements := hbody
    have hown := hconditions b List.mem_cons_self
    have hnext : ∀ e ∈ failed ++ b.condition.toList, r.In (.expr e) := by
      intro e he
      rcases List.mem_append.1 he with he | he
      · exact hfailed e he
      · exact hown e (Option.mem_toList.1 he)
    have ih := ih (fun b hb => hconditions b (List.mem_cons_of_mem _ hb))
      (fun b hb => hbranches b (List.mem_cons_of_mem _ hb)) _ hnext
    funext p conditional types
    simp only [inBranch]
    by_cases hp : p.within b.body.span = true
    · rw [if_pos hp, if_pos hp,
        assumeBranch_congr h (r.within (n := .body b.body) hin hp) failed hfailed _ hown, hbody]
    · rw [if_neg hp, if_neg hp, ih]

theorem behindBranches_congr {branches : List (Branch Expr Stmt)}
    (hbranches : ∀ b ∈ branches, SameOn l l' (.body b.body)) :
    l'.behindBranches branches = l.behindBranches branches := by
  induction branches with
  | nil =>
    funext p types
    simp only [behindBranches]
  | cons b rest ih =>
    have hbody : l'.walk b.body.statements = l.walk b.body.statements :=
      hbranches b List.mem_cons_self
    have ih := ih fun b hb => hbranches b (List.mem_cons_of_mem _ hb)
    funext p types
    simp only [behindBranches, hbody, ih]

theorem walkCases_congr {cases : List (Branch Expr Stmt)}
    (hcases : ∀ b ∈ cases, SameOn l l' (.case b)) : l'.walkCases cases = l.walkCases cases := by
  induction cases with
  | nil =>
    funext p conditional types
    simp only [walkCases]
  | cons b rest ih =>
    have hbody : l'.walk b.body.statements = l.walk b.body.statements :=
      hcases b List.mem_cons_self
    have ih := ih fun b hb => hcases b (List.mem_cons_of_mem _ hb)
    funext p conditional types
    simp only [walkCases, hbody, ih]

theorem walkCatches_congr (h : Agree r l l') {catches : List (Catch Stmt)}
    (hcatches : ∀ c ∈ catches, SameOn l l' (.clause c)) :
    l'.walkCatches catches = l.walkCatches catches := by
  induction catches with
  | nil =>
    funext p conditional types
    simp only [walkCatches]
  | cons c rest ih =>
    have hbody : l'.walk c.body.statements = l.walk c.body.statements :=
      hcatches c List.mem_cons_self
    have ih := ih fun c hc => hcatches c (List.mem_cons_of_mem _ hc)
    funext p conditional types
    simp only [walkCatches, h.var_eq, h.resolveHint_eq, hbody, ih]

theorem walkEnsure_congr {ensure : Option (Body Stmt)}
    (hensure : ∀ b ∈ ensure, SameOn l l' (.body b)) :
    l'.walkEnsure ensure = l.walkEnsure ensure := by
  funext p conditional types
  cases ensure with
  | none => simp only [walkEnsure]
  | some b =>
    have hbody : l'.walk b.statements = l.walk b.statements := hensure b rfl
    simp only [walkEnsure, hbody]

/-- The look-ups come to the same result behind a statement if they do on its parts. -/
theorem walkStmt_congr (h : Agree r l l') (s : Stmt) (hs : r.In (.stmt s))
    (hparts : ∀ m ∈ (Node.stmt s).parts, SameOn l l' m) : l'.walkStmt s = l.walkStmt s := by
  have hbody : ∀ b, Node.body b ∈ (Node.stmt s).parts →
      l'.walk b.statements = l.walk b.statements := fun b hb => hparts (.body b) hb
  funext p conditional types
  cases s with
  | expression span e =>
    have he : r.In (.expr e) := r.part hs List.mem_cons_self
    simp only [walkStmt, narrowInside_congr h e he,
      assigned_congr h span.start conditional types e he]
  | ret _ value =>
    cases value with
    | none => simp only [walkStmt]
    | some e =>
      have he : r.In (.expr e) := r.part hs List.mem_cons_self
      simp only [walkStmt, narrowInside_congr h e he]
  | block b =>
    have hinner := walk_congr h fun s hs => hparts (.stmt s) (List.mem_map_of_mem hs)
    simp only [walkStmt, hinner]
  | space _ _ _ inner =>
    have hinner := walk_congr h fun s hs => hparts (.stmt s) (List.mem_map_of_mem hs)
    simp only [walkStmt, hinner]
  | cond span branches =>
    have hconditions : ∀ b ∈ branches, ∀ e ∈ b.condition, r.In (.expr e) :=
      fun b hb e he => r.part hs (Node.condition_mem hb he)
    have hbranches : ∀ b ∈ branches, r.In (.body b.body) ∧ SameOn l l' (.body b.body) :=
      fun b hb => ⟨r.part hs (Node.branch_mem hb), hparts _ (Node.branch_mem hb)⟩
    simp only [walkStmt]
    cases hfirst : firstCondition? p branches with
    | some condition =>
      obtain ⟨b, hb, hcondition⟩ := mem_of_firstCondition? hfirst
      simp only [narrowInside_congr h condition (hconditions b hb condition hcondition)]
    | none =>
      have hnone : ∀ e ∈ ([] : List Expr), r.In (.expr e) := List.forall_mem_nil _
      simp only [inBranch_congr h hconditions hbranches [] hnone,
        inConditions_congr h branches hconditions [] hnone,
        behindBranches_congr fun b hb => (hbranches b hb).2]
  | eachLoop span subject key target b =>
    have hinner := hbody b (by simp [Node.parts, Node.partsOfStmt])
    have hsubject : r.In (.expr subject) := r.part hs List.mem_cons_self
    have hspan : r.At span.start := r.start hs
    simp only [walkStmt, enterLoop_congr h hspan subject hsubject, hinner]
  | whileLoop span condition b =>
    have hmem : Node.body b ∈ (Node.stmt (.whileLoop span condition b)).parts :=
      List.mem_cons_of_mem _ List.mem_cons_self
    have hcondition : r.In (.expr condition) := r.part hs List.mem_cons_self
    have hin : r.In (.body b) := r.part hs hmem
    simp only [walkStmt, hbody b hmem, narrowInside_congr h condition hcondition]
    by_cases hp : p.within b.span = true
    · rw [if_pos hp, if_pos hp, assume_congr h (r.within hin hp) condition hcondition]
    · rw [if_neg hp, if_neg hp]
  | doLoop span b condition => simp only [walkStmt, hbody b List.mem_cons_self]
  | forLoop span initial conditions steps b =>
    have hinitial : ∀ e ∈ initial, r.In (.expr e) := fun e he =>
      r.part hs (by simp [Node.parts, Node.partsOfStmt, he])
    have hinner := hbody b (by simp [Node.parts, Node.partsOfStmt])
    simp only [walkStmt, initialized_congr h conditional initial hinitial, hinner]
  | switch span subject cases =>
    have hcases := walkCases_congr fun b hb =>
      hparts (.case b) (List.mem_cons_of_mem _ (List.mem_map_of_mem hb))
    simp only [walkStmt, hcases]
  | tryCatch span b catches ensureStart ensure =>
    have hinner := hbody b List.mem_cons_self
    have hcatches := walkCatches_congr h fun c hc => hparts (.clause c) (Node.catch_mem hc)
    have hensure : l'.walkEnsure ensure = l.walkEnsure ensure :=
      walkEnsure_congr fun b hb => hparts (.body b) (Node.ensure_mem hb)
    simp only [walkStmt, hinner, hcatches, hensure]
  | _ => simp only [walkStmt]

theorem closureInStmt_congr (s : Stmt) (hparts : ∀ m ∈ (Node.stmt s).parts, SameOn l l' m) :
    l'.closureInStmt s = l.closureInStmt s := by
  have hsearched : l'.closureInAll s.searched = l.closureInAll s.searched :=
    closureInAll_congr fun e he =>
      hparts (.expr e) (s.searched_sublist.subset (List.mem_map_of_mem he))
  funext p types
  rw [closureInStmt_eq, closureInStmt_eq, hsearched]

/-- Look-ups that agree in a region come to the same result on every node in it. -/
theorem sameOn_of_agree (h : Agree r l l') {n : Node} (hn : r.In n) : SameOn l l' n := by
  induction n using Node.parts_induction with
  | h n ih =>
    have hparts : ∀ m ∈ n.parts, SameOn l l' m := fun m hm => ih m hm (r.part hn hm)
    cases n with
    | expr e => exact closureIn_congr h e hn hparts
    | stmt s => exact ⟨closureInStmt_congr s hparts, walkStmt_congr h s hn hparts⟩
    | body b => exact walk_congr h fun s hs => hparts (.stmt s) (List.mem_map_of_mem hs)
    | case b =>
      exact walk_congr h fun s hs =>
        hparts (.stmt s) (List.mem_append_right _ (List.mem_map_of_mem hs))
    | clause c => exact hparts (.body c.body) List.mem_cons_self
    | member m | routine d | name r => exact trivial

/-! ### Scopes -/

/-- The scope belongs to the region. -/
def Enclosing.In (r : Region) : Enclosing → Prop
  | .statements _ inner => ∀ s ∈ inner, r.In (.stmt s)
  | .routine _ body => r.In (.body body)
  | .nowhere => True

theorem routine?_in {n : Node} (hn : r.In n) {d : FunctionDecl Expr Stmt}
    (hparts : n.parts = Node.partsOfRoutine d) : ∀ scope ∈ routine? p d, scope.In r := by
  intro scope hscope
  unfold routine? at hscope
  split at hscope
  · rename_i body hbody
    split at hscope
    · obtain rfl := Option.some.inj hscope
      refine r.part hn ?_
      simp [hparts, Node.partsOfRoutine, hbody]
    · cases hscope
  · cases hscope

theorem methodAt?_in {m : Member Expr Stmt} (hm : r.In (.member m)) :
    ∀ scope ∈ methodAt? p m, scope.In r := by
  cases m with
  | method d => exact routine?_in hm rfl
  | _ => exact fun _ hscope => nomatch hscope

theorem Enclosing.In.getD {scope? : Option Enclosing} (h : ∀ scope ∈ scope?, scope.In r) :
    (scope?.getD .nowhere).In r := by
  cases scope? with
  | none => exact trivial
  | some scope => exact h scope rfl

/-- The scope around a position in statements of the region belongs to it. -/
theorem scopeAt_in (start : Nat) (all ss : List Stmt) (hall : ∀ s ∈ all, r.In (.stmt s))
    (hss : ∀ s ∈ ss, r.In (.stmt s)) : (scopeAt p start all ss).In r := by
  fun_induction scopeAt p start all ss with
  | case1 start all => exact hall
  | case2 start all span name braced inner rest hp ih =>
    have hinner : ∀ s ∈ inner, r.In (.stmt s) := fun s hs =>
      r.part (hss _ List.mem_cons_self) (List.mem_map_of_mem hs)
    exact ih hinner hinner
  | case4 start all d rest hp =>
    exact .getD (routine?_in (hss _ List.mem_cons_self) rfl)
  | case6 start all d rest hp =>
    refine .getD fun scope hscope => ?_
    obtain ⟨m, hm, hscope⟩ := List.exists_of_findSome?_eq_some hscope
    exact methodAt?_in (r.part (hss _ List.mem_cons_self) (List.mem_map_of_mem hm)) scope hscope
  | case8 => exact hall
  | case3 _ _ _ _ _ _ _ _ ih | case5 _ _ _ _ _ ih | case7 _ _ _ _ _ ih
  | case9 _ _ _ _ _ _ _ _ ih => exact ih hall fun s hs => hss s (List.mem_cons_of_mem _ hs)

/-- Look-ups that agree in a region find the same candidates in a scope that belongs to it. -/
theorem types_congr (h : Agree r l l')
    (hscope : scopeAt p 0 l'.site.doc.statements l'.site.doc.statements =
      scopeAt p 0 l.site.doc.statements l.site.doc.statements)
    (hin : (scopeAt p 0 l.site.doc.statements l.site.doc.statements).In r) :
    l'.types p = l.types p := by
  rw [types, types, hscope]
  cases hfound : scopeAt p 0 l.site.doc.statements l.site.doc.statements with
  | statements start inner =>
    rw [hfound] at hin
    have hwalk := walk_congr h fun s hs => sameOn_of_agree h (hin s hs)
    simp only [inScope, hwalk, h.override_eq]
  | routine d body =>
    rw [hfound] at hin
    have hwalk : l'.walk body.statements = l.walk body.statements :=
      sameOn_of_agree (n := .body body) h hin
    simp only [inScope, hwalk, h.override_eq, h.parameterTypes?_eq]
  | nowhere => rfl

end Lookup

/-- The candidates of a variable depend on the types of the variables of the document. -/
theorem Atlas.variableWith_eq_of_vars {a : Atlas} {site : Site}
    {lookup lookup' : String → Point → Option TypeList}
    (h : ∀ v ∈ site.doc.vars, ∀ p, lookup' v p = lookup v p) (var : String) (p : Point) :
    a.variableWith site lookup' var p = a.variableWith site lookup var p := by
  have hagree : Lookup.Agree (Region.naming site.doc.vars)
      ⟨a.known, site, var, a.answerWith site lookup⟩
      ⟨a.known, site, var, a.answerWith site lookup'⟩ := by
    refine ⟨rfl, fun e q he _ => ?_⟩
    exact answerWith_congr (.refl a) rfl e fun v hv => h v (he hv) q
  have hdoc : ∀ s ∈ site.doc.statements, (Region.naming site.doc.vars).In (.stmt s) := by
    intro s hs v hv
    rw [Document.vars, stmtVars_eq]
    exact List.mem_flatMap.2 ⟨s, hs, hv⟩
  exact Lookup.types_congr hagree rfl (Lookup.scopeAt_in 0 _ _ hdoc hdoc)

end PhpAtlas
