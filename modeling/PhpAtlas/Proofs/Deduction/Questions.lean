import PhpAtlas.Proofs.Deduction.Steady

/-!
# The questions of a look-up

The walk of a scope is steady: where it stops, which branch it enters and which closure answers are
settled by positions, and the candidates are only carried along.  So the look-up of a variable asks
a fixed list of questions, and needs the types of a fixed list of variables at positions.

## Main definitions

* `Occurrence` — a variable at a position.
* `Needs` — the occurrences whose types a result needs.
* `Reads` — a result that needs variables at one position only.

## Main results

* `Lookup.walk_steady` — the walk of statements is steady.
* `Lookup.types_steady` — so is the look-up of a variable.
* `Atlas.deduceWith_reads` — an expression reads variables at its own position.
* `Atlas.variableWith_needs` — a look-up needs occurrences at its own position or deeper.
-/

namespace PhpAtlas

/-- Whether an answer comes from a closure, and then whether by reference. -/
def Inner.flag : Inner → Option Bool
  | .outside => none
  | .inside _ byRef => some byRef

/-- The candidates of a closure. -/
def Inner.types : Inner → TypeList
  | .outside => TypeList.empty
  | .inside types _ => types

/-- How a walk of `catch` clauses ended, if it did. -/
def Walked.ended : Except Walked TypeList → Option Bool
  | .error w => some w.inClosure
  | .ok _ => none

/-- The candidates behind a walk of `catch` clauses. -/
def Walked.last : Except Walked TypeList → Walked
  | .error w => w
  | .ok types => Lookup.goOn types

namespace Lookup

namespace Steady

variable {ι γ δ : Type} {p : Point} {view : γ → δ}

/-- A walk, and what follows unless a closure has answered. -/
theorem andThen {f : String → Answers → ι → Option Walked}
    {g : String → Answers → TypeList → Option Walked}
    {c : String → Answers → ι → Walked → Option Walked} (hf : Steady p Walked.inClosure f)
    (hg : Steady p Walked.inClosure g)
    (hc : ∀ var ask i w, c var ask i w = if w.inClosure then some w else g var ask w.types) :
    Steady p Walked.inClosure fun var ask i => (f var ask i).bind (c var ask i) := by
  refine hf.exit hg id id (fun _ w => w) (fun _ w => w.types) ?_ ?_
  · intro var ask i w hw
    refine ⟨?_, rfl⟩
    rw [hc]
    exact if_pos hw
  · intro var ask i w hw
    rw [hc]
    exact if_neg (ne_true_of_eq_false hw)

/-- The first of two expressions that has a closure around the position. -/
theorem orInner {f g : String → Answers → ι → Option Inner}
    {c : String → Answers → ι → Inner → Option Inner} (hf : Steady p Inner.flag f)
    (hg : Steady p Inner.flag g)
    (hin : ∀ var ask i types byRef, c var ask i (.inside types byRef) = some (.inside types byRef))
    (hout : ∀ var ask i, c var ask i .outside = g var ask i) :
    Steady p Inner.flag fun var ask i => (f var ask i).bind (c var ask i) := by
  refine hf.exit hg Option.isSome id (fun _ inner => inner) (fun i _ => i) ?_ ?_
  · intro var ask i inner hinner
    cases inner with
    | outside => cases hinner
    | inside types byRef => exact ⟨hin var ask i types byRef, rfl⟩
  · intro var ask i inner hinner
    cases inner with
    | outside => exact hout var ask i
    | inside types byRef => cases hinner

theorem outside : Steady p Inner.flag fun _ _ (_ : ι) => some Inner.outside :=
  result (fun _ _ => Inner.outside) (fun _ => none) fun _ _ => rfl

theorem goOn : Steady p Walked.inClosure fun _ _ types => some (Lookup.goOn types) :=
  result (fun _ types => Lookup.goOn types) (fun _ => false) fun _ _ => rfl

/-- A part that leaves candidates behind a statement. -/
theorem mapGoOn {f : String → Answers → ι → Option TypeList} (hf : Steady p blank f) :
    Steady p Walked.inClosure fun var ask i => (f var ask i).map Lookup.goOn :=
  hf.map (fun _ _ => false) fun _ _ _ => rfl

end Steady

variable (known : Known) (site : Site)

/-- Whether a closure takes a variable by reference does not depend on its candidates. -/
theorem captured_snd (l : Lookup) (start : Nat) (parameters : List (Parameter Expr))
    (captures : List Capture) (types types' : TypeList) :
    (l.captured start parameters captures types).2 =
      (l.captured start parameters captures types').2 := by
  unfold captured
  split
  · rfl
  · split <;> rfl

/-- The walk behind the closures of a statement. -/
def behindClosures (l : Lookup) (s : Stmt) (rest : List Stmt) (p : Point) (conditional : Bool)
    (types : TypeList) : Inner → Option Walked
  | .inside found false => some ⟨found, true⟩
  | .inside found true => (l.walk rest p.later true found).map fun w => ⟨w.types, true⟩
  | .outside =>
      (l.walkStmt s p conditional types).bind fun w =>
        if w.inClosure then some w else l.walk rest p conditional w.types

/-- The walk of statements, cut behind the closures of the first one. -/
theorem walk_cons (l : Lookup) (s : Stmt) (rest : List Stmt) (p : Point) (conditional : Bool)
    (types : TypeList) :
    l.walk (s :: rest) p conditional types =
      if p.offset ≤ s.span.start then some (goOn types)
      else
        (if p.within s.span then l.closureInStmt s p (l.annotate s.span.start conditional types)
          else some .outside).bind
          (l.behindClosures s rest p conditional (l.annotate s.span.start conditional types)) := by
  rw [walk]
  split
  · rfl
  · split
    · dsimp only
      cases l.closureInStmt s p (l.annotate s.span.start conditional types) with
      | none => rfl
      | some inner =>
        rcases inner with _ | ⟨types, _ | _⟩
        · rfl
        · rfl
        · exact Option.map_eq_bind.symm
    · rfl

/-- A closure: what it captures is settled before its body is walked. -/
theorem closure_steady {p : Point} {inner : List Stmt} (span : Span)
    (parameters : List (Parameter Expr)) (captures : List Capture) (returns : Option ReturnHint)
    (bodySpan : Span)
    (hinner : Steady p Walked.inClosure fun var ask types =>
      walk ⟨known, site, var, ask⟩ inner p false types) :
    Steady p Inner.flag fun var ask types => closureIn ⟨known, site, var, ask⟩
      (.closure span parameters captures returns ⟨bodySpan, inner⟩) p types := by
  simp only [closureIn]
  refine .ite _ ?_ .outside
  let start := fun var => (silent known site var).captured span.start parameters captures
  have hstart : ∀ var types, (start var types).2 = (start var TypeList.empty).2 :=
    fun var types => captured_snd _ _ _ _ types TypeList.empty
  have hwalk := hinner.reindex fun var types => (start var types).1
  have hin : Steady p Inner.flag fun var ask types =>
      (walk ⟨known, site, var, ask⟩ inner p false (start var types).1).map fun w =>
        .inside (if w.inClosure then w.types
          else (silent known site var).override p bodySpan.start w.types) (start var types).2 :=
    hwalk.map (fun var _ => some (start var TypeList.empty).2)
      fun var types w => congrArg some (hstart var types)
  refine hin.congr fun var ask types => ?_
  exact Option.map_eq_bind.symm

/-- What an arrow function answers, given what the closures of its body do. -/
def inArrow (l : Lookup) (p : Point) (body : Expr) (start : TypeList) : Inner → Option Inner
  | .inside types _ => some (.inside types false)
  | .outside => (l.narrowInside p body start).bind fun types => some (.inside types false)

/-- An arrow function answers whether or not a closure in its body does. -/
theorem arrow_steady {p : Point} {body : Expr} (span : Span)
    (parameters : List (Parameter Expr)) (returns : Option ReturnHint) (arrow : Nat)
    (hbody : Steady p Inner.flag fun var ask types =>
      closureIn ⟨known, site, var, ask⟩ body p types) :
    Steady p Inner.flag fun var ask types => closureIn ⟨known, site, var, ask⟩
      (.arrow span parameters returns arrow body) p types := by
  simp only [closureIn]
  refine .ite _ ?_ .outside
  have hinside : Steady p Inner.flag fun var ask types =>
      (narrowInside ⟨known, site, var, ask⟩ p body types).bind fun types =>
        some (.inside types false) :=
    (narrowInside_steady known site p body).seq
      (.result (fun _ types => Inner.inside types false) (fun _ => some false) fun _ _ => rfl)
  have hanswer : Steady p Inner.flag fun var ask start =>
      (closureIn ⟨known, site, var, ask⟩ body p start).bind
        (inArrow ⟨known, site, var, ask⟩ p body start) := by
    refine hbody.exit hinside Option.isSome (fun _ => some false)
      (fun _ inner => .inside inner.types false) (fun start _ => start) ?_ ?_
    · intro var ask start inner hinner
      cases inner with
      | outside => cases hinner
      | inside types byRef => exact ⟨rfl, rfl⟩
    · intro var ask start inner hinner
      cases inner with
      | outside => rfl
      | inside types byRef => cases hinner
  exact hanswer.reindex fun var types =>
    ((silent known site var).parameterTypes? span.start parameters).getD types

mutual

theorem walk_steady (ss : List Stmt) (p : Point) (conditional : Bool) :
    Steady p Walked.inClosure fun var ask types =>
      walk ⟨known, site, var, ask⟩ ss p conditional types := by
  match ss with
  | [] =>
    simp only [walk]
    exact .goOn
  | s :: rest =>
    have hinner : Steady p Inner.flag fun var ask types =>
        if p.within s.span then closureInStmt ⟨known, site, var, ask⟩ s p types
        else some .outside := .ite _ (closureInStmt_steady s p) .outside
    have hlater : Steady p Walked.inClosure fun var ask types =>
        (walk ⟨known, site, var, ask⟩ rest p.later true types).map
          fun w => (⟨w.types, true⟩ : Walked) :=
      (walk_steady rest p.later true).of_later.map (fun _ _ => true) fun _ _ _ => rfl
    have hnext : Steady p Walked.inClosure fun var ask types =>
        (walkStmt ⟨known, site, var, ask⟩ s p conditional types).bind fun w =>
          if w.inClosure then some w
          else walk ⟨known, site, var, ask⟩ rest p conditional w.types :=
      (walkStmt_steady s p conditional).andThen (walk_steady rest p conditional)
        fun _ _ _ _ => rfl
    have hbody : Steady p Walked.inClosure fun var ask types =>
        (if p.within s.span then closureInStmt ⟨known, site, var, ask⟩ s p types
          else some .outside).bind
          (behindClosures ⟨known, site, var, ask⟩ s rest p conditional types) := by
      refine hinner.bind fun b => ?_
      match b with
      | none =>
        refine (hnext.reindex fun _ x => x.1.1).congr ?_
        rintro var ask ⟨⟨types, inner⟩, hflag⟩
        cases inner with
        | outside => rfl
        | inside => cases hflag
      | some false =>
        refine (Steady.result (fun _ x => ⟨x.1.2.types, true⟩) (fun _ => true)
          fun _ _ => rfl).congr ?_
        rintro var ask ⟨⟨types, inner⟩, hflag⟩
        cases inner with
        | outside => cases hflag
        | inside found byRef =>
          cases hflag
          rfl
      | some true =>
        refine (hlater.reindex fun _ x => x.1.2.types).congr ?_
        rintro var ask ⟨⟨types, inner⟩, hflag⟩
        cases inner with
        | outside => cases hflag
        | inside found byRef =>
          cases hflag
          rfl
    -- the annotation in front of the statement needs no answer
    refine (Steady.ite (p.offset ≤ s.span.start) .goOn (hbody.reindex fun var types =>
      (silent known site var).annotate s.span.start conditional types)).congr ?_
    intro var ask types
    exact walk_cons ⟨known, site, var, ask⟩ s rest p conditional types
termination_by structural ss

theorem walkStmt_steady (s : Stmt) (p : Point) (conditional : Bool) :
    Steady p Walked.inClosure fun var ask types =>
      walkStmt ⟨known, site, var, ask⟩ s p conditional types := by
  match s with
  | .expression span e =>
    simp only [walkStmt]
    exact .ite _ (narrowInside_steady known site p e).mapGoOn
      (assigned_steady known site p span.start conditional e).mapGoOn
  | .ret span (some e) =>
    simp only [walkStmt]
    exact (narrowInside_steady known site p e).mapGoOn
  | .block ⟨span, inner⟩ =>
    simp only [walkStmt]
    exact walk_steady inner p _
  | .space span name braced inner =>
    simp only [walkStmt]
    exact walk_steady inner p conditional
  | .cond span branches =>
    simp only [walkStmt]
    cases firstCondition? p branches with
    | some condition => exact (narrowInside_steady known site p condition).mapGoOn
    | none =>
      have hbehind : Steady p Walked.inClosure fun var ask types =>
          (inConditions ⟨known, site, var, ask⟩ p types [] branches).bind fun found =>
            match found with
            | some types => some (goOn types)
            | none => behindBranches ⟨known, site, var, ask⟩ branches p types := by
        refine (inConditions_steady known site p [] branches).exit
          (behindBranches_steady branches p) Option.isSome (fun _ => false)
          (fun types found => goOn (found.getD types)) (fun types _ => types) ?_ ?_
        · intro var ask types found hfound
          cases found with
          | none => cases hfound
          | some types => exact ⟨rfl, rfl⟩
        · intro var ask types found hfound
          cases found with
          | none => rfl
          | some types => cases hfound
      refine (inBranch_steady [] branches p conditional).exit hbehind Option.isSome
        (·.getD false) (fun types found => found.getD (goOn types)) (fun types _ => types) ?_ ?_
      · intro var ask types found hfound
        cases found with
        | none => cases hfound
        | some w => exact ⟨rfl, rfl⟩
      · intro var ask types found hfound
        cases found with
        | none => rfl
        | some w => cases hfound
  | .eachLoop span subject key target ⟨bodySpan, inner⟩ =>
    simp only [walkStmt]
    have hinner := walk_steady inner p (mayNotRun p conditional bodySpan)
    exact .ite _ ((enterLoop_steady known site p span subject key target).seq hinner) hinner
  | .whileLoop span condition ⟨bodySpan, inner⟩ =>
    simp only [walkStmt]
    have hinner := walk_steady inner p (mayNotRun p conditional bodySpan)
    exact .ite _ ((assume_steady known site p condition true).seq hinner)
      (.ite _ ((narrowInside_steady known site p condition).seq hinner) hinner)
  | .doLoop span ⟨bodySpan, inner⟩ condition =>
    simp only [walkStmt]
    exact walk_steady inner p _
  | .forLoop span initial conditions steps ⟨bodySpan, inner⟩ =>
    simp only [walkStmt]
    exact (initialized_steady known site p conditional initial).seq (walk_steady inner p _)
  | .switch span subject cases =>
    simp only [walkStmt]
    exact walkCases_steady cases p conditional
  | .tryCatch span ⟨bodySpan, inner⟩ catches ensureStart ensure =>
    have hcatches : Steady p Walked.inClosure fun var ask types =>
        (walkCatches ⟨known, site, var, ask⟩ catches p conditional types).bind fun ended =>
          match ended with
          | .error w => some w
          | .ok types =>
              if ensureStart < p.offset then
                walkEnsure ⟨known, site, var, ask⟩ ensure p conditional types
              else some (goOn types) := by
      refine (walkCatches_steady catches p conditional).exit
        (.ite (ensureStart < p.offset) (walkEnsure_steady ensure p conditional) .goOn)
        Option.isSome (·.getD false) (fun _ ended => Walked.last ended)
        (fun types ended => ended.toOption.getD types) ?_ ?_
      · intro var ask types ended hended
        cases ended with
        | error w => exact ⟨rfl, rfl⟩
        | ok types => cases hended
      · intro var ask types ended hended
        cases ended with
        | error w => cases hended
        | ok types => rfl
    simp only [walkStmt]
    exact .ite _ (walk_steady inner p conditional)
      ((walk_steady inner p true).andThen hcatches fun _ _ _ _ => rfl)
  | .ret _ none | .openTag _ | .closeTag _ | .html _ | .echoTag _ _ | .empty _ | .echo _ _
  | .function _ | .classlike _ | .constants _ _ | .use _ _ | .statics _ _ | .global _ _
  | .unset _ _ | .declare _ _ | .label _ | .goto _ | .jump _ _ =>
    simp only [walkStmt]
    exact .goOn
termination_by structural s

theorem inBranch_steady (failed : List Expr) (branches : List (Branch Expr Stmt)) (p : Point)
    (conditional : Bool) :
    Steady p (Option.map Walked.inClosure) fun var ask types =>
      inBranch ⟨known, site, var, ask⟩ failed branches p conditional types := by
  match branches with
  | [] =>
    simp only [inBranch]
    exact .result (fun _ _ => none) (fun _ => none) fun _ _ => rfl
  | ⟨own, ⟨span, inner⟩⟩ :: rest =>
    simp only [inBranch]
    refine .ite _ ?_ (inBranch_steady (failed ++ own.toList) rest p conditional)
    have hwalk := (assumeBranch_steady known site p failed own).seq
      (walk_steady inner p conditional)
    refine (hwalk.map (fun _ => some) fun _ _ w => (rfl : (some w).map _ = _)).congr ?_
    intro var ask types
    cases assumeBranch ⟨known, site, var, ask⟩ p failed own types with
    | none => rfl
    | some types => exact Option.map_eq_bind.symm
termination_by structural branches

theorem behindBranches_steady (branches : List (Branch Expr Stmt)) (p : Point) :
    Steady p Walked.inClosure fun var ask types =>
      behindBranches ⟨known, site, var, ask⟩ branches p types := by
  match branches with
  | [] =>
    simp only [behindBranches]
    exact .goOn
  | ⟨own, ⟨span, inner⟩⟩ :: rest =>
    simp only [behindBranches]
    exact .ite _
      ((walk_steady inner p true).andThen (behindBranches_steady rest p) fun _ _ _ _ => rfl)
      (behindBranches_steady rest p)
termination_by structural branches

theorem walkCases_steady (cases : List (Branch Expr Stmt)) (p : Point) (conditional : Bool) :
    Steady p Walked.inClosure fun var ask types =>
      walkCases ⟨known, site, var, ask⟩ cases p conditional types := by
  match cases with
  | [] =>
    simp only [walkCases]
    exact .goOn
  | ⟨own, ⟨span, inner⟩⟩ :: rest =>
    simp only [walkCases]
    exact .ite _ .goOn <| .ite _ (walk_steady inner p conditional) <|
      (walk_steady inner p true).andThen (walkCases_steady rest p conditional) fun _ _ _ _ => rfl
termination_by structural cases

theorem walkCatches_steady (catches : List (Catch Stmt)) (p : Point) (conditional : Bool) :
    Steady p Walked.ended fun var ask types =>
      walkCatches ⟨known, site, var, ask⟩ catches p conditional types := by
  match catches with
  | [] =>
    simp only [walkCatches]
    exact .result (fun _ types => Except.ok types) (fun _ => none) fun _ _ => rfl
  | ⟨span, hint, binding, ⟨bodySpan, inner⟩⟩ :: rest =>
    simp only [walkCatches]
    refine .ite _ (.result (fun _ types => Except.error (goOn types)) (fun _ => some false)
      fun _ _ => rfl) (.ite _ ?_ ?_)
    · exact ((walk_steady inner p conditional).map (fun _ => some)
        fun _ _ w => (rfl : Walked.ended (.error w) = _)).reindex fun var types =>
          if binding == some var then
            known.resolveHint (site.contextAt p.offset) site.cls hint
          else types
    · refine (walk_steady inner p true).exit (walkCatches_steady rest p conditional) id some
        (fun _ w => .error w) (fun _ w => w.types) ?_ ?_
      · intro var ask types w hw
        exact ⟨if_pos hw, rfl⟩
      · intro var ask types w hw
        exact if_neg (ne_true_of_eq_false hw)
termination_by structural catches

theorem walkEnsure_steady (ensure : Option (Body Stmt)) (p : Point) (conditional : Bool) :
    Steady p Walked.inClosure fun var ask types =>
      walkEnsure ⟨known, site, var, ask⟩ ensure p conditional types := by
  match ensure with
  | none =>
    simp only [walkEnsure]
    exact .goOn
  | some ⟨span, inner⟩ =>
    simp only [walkEnsure]
    exact walk_steady inner p _
termination_by structural ensure

theorem closureInStmt_steady (s : Stmt) (p : Point) :
    Steady p Inner.flag fun var ask types =>
      closureInStmt ⟨known, site, var, ask⟩ s p types := by
  match s with
  | .expression _ e | .ret _ (some e) | .whileLoop _ e _ | .eachLoop _ e _ _ _ | .switch _ e _
  | .cond _ (⟨some e, _⟩ :: _) =>
    simp only [closureInStmt]
    exact closureIn_steady e p
  | .echo _ values =>
    simp only [closureInStmt]
    exact closureInAll_steady values p
  | .cond _ [] | .cond _ (⟨none, _⟩ :: _) | .ret _ none | .openTag _ | .closeTag _ | .html _
  | .echoTag _ _ | .empty _ | .block _ | .doLoop _ _ _ | .forLoop _ _ _ _ _ | .tryCatch _ _ _ _ _
  | .function _ | .classlike _ | .constants _ _ | .use _ _ | .space _ _ _ _ | .statics _ _
  | .global _ _ | .unset _ _ | .declare _ _ | .label _ | .goto _ | .jump _ _ =>
    simp only [closureInStmt]
    exact .outside
termination_by structural s

theorem closureIn_steady (e : Expr) (p : Point) :
    Steady p Inner.flag fun var ask types =>
      closureIn ⟨known, site, var, ask⟩ e p types := by
  cases e with
  | closure span parameters captures returns body =>
    obtain ⟨bodySpan, inner⟩ := body
    exact closure_steady known site span parameters captures returns bodySpan
      (walk_steady inner p false)
  | arrow span parameters returns arrow body =>
    exact arrow_steady known site span parameters returns arrow (closureIn_steady body p)
  | paren _ e | unary _ _ e | trailing _ e | property _ _ e _ | staticProperty _ e _
  | classConstant _ e _ | yieldFrom _ e | throw _ e | clone _ e =>
    simp only [closureIn]
    exact .ite _ (closureIn_steady e p) .outside
  | assign _ _ a b | binary _ _ a b | pipe _ a b =>
    simp only [closureIn]
    exact .ite _ ((closureIn_steady a p).orInner (closureIn_steady b p)
      (fun _ _ _ _ _ => rfl) fun _ _ _ => rfl) .outside
  | ternary _ condition yes no =>
    simp only [closureIn]
    refine .ite _ ((closureIn_steady condition p).orInner ((closureInOption_steady yes p).orInner
      (closureIn_steady no p) ?_ ?_) (fun _ _ _ _ _ => rfl) fun _ _ _ => rfl) .outside
    · exact fun _ _ _ _ _ => rfl
    · exact fun _ _ _ => rfl
  | yield _ key value =>
    simp only [closureIn]
    exact .ite _ ((closureInOption_steady key p).orInner (closureInOption_steady value p)
      (fun _ _ _ _ _ => rfl) fun _ _ _ => rfl) .outside
  | call _ callee slots =>
    cases callee with
    | function e | method _ e _ | static e _ =>
      simp only [closureIn]
      exact .ite _ ((closureIn_steady e p).orInner (closureInSlots_steady slots p)
        (fun _ _ _ _ _ => rfl) fun _ _ _ => rfl) .outside
  | new _ _ slots =>
    simp only [closureIn]
    exact .ite _ (closureInSlots_steady slots p) .outside
  | array _ form slots =>
    cases form with
    | brackets | keyword =>
      simp only [closureIn]
      exact .ite _ (closureInSlots_steady slots p) .outside
    | list =>
      simp only [closureIn]
      exact .outside
  | select _ subject arms =>
    simp only [closureIn]
    exact .ite _ ((closureIn_steady subject p).orInner (closureInArms_steady arms p)
      (fun _ _ _ _ _ => rfl) fun _ _ _ => rfl) .outside
  | _ =>
    simp only [closureIn]
    exact .outside
termination_by structural e

theorem closureInOption_steady (e : Option Expr) (p : Point) :
    Steady p Inner.flag fun var ask types =>
      closureInOption ⟨known, site, var, ask⟩ e p types := by
  match e with
  | none =>
    simp only [closureInOption]
    exact .outside
  | some e =>
    simp only [closureInOption]
    exact closureIn_steady e p
termination_by structural e

theorem closureInAll_steady (values : List Expr) (p : Point) :
    Steady p Inner.flag fun var ask types =>
      closureInAll ⟨known, site, var, ask⟩ values p types := by
  match values with
  | [] =>
    simp only [closureInAll]
    exact .outside
  | e :: rest =>
    simp only [closureInAll]
    exact (closureIn_steady e p).orInner (closureInAll_steady rest p) (fun _ _ _ _ _ => rfl)
      fun _ _ _ => rfl
termination_by structural values

theorem closureInArms_steady (arms : List (Arm Expr)) (p : Point) :
    Steady p Inner.flag fun var ask types =>
      closureInArms ⟨known, site, var, ask⟩ arms p types := by
  match arms with
  | [] =>
    simp only [closureInArms]
    exact .outside
  | ⟨_, e⟩ :: rest =>
    simp only [closureInArms]
    exact (closureIn_steady e p).orInner (closureInArms_steady rest p) (fun _ _ _ _ _ => rfl)
      fun _ _ _ => rfl
termination_by structural arms

theorem closureInSlots_steady (slots : List (Slot Expr)) (p : Point) :
    Steady p Inner.flag fun var ask types =>
      closureInSlots ⟨known, site, var, ask⟩ slots p types := by
  match slots with
  | [] =>
    simp only [closureInSlots]
    exact .outside
  | .missing :: rest =>
    simp only [closureInSlots]
    exact closureInSlots_steady rest p
  | .value e :: rest | .spread e :: rest | .named _ e :: rest =>
    simp only [closureInSlots]
    exact (closureIn_steady e p).orInner (closureInSlots_steady rest p) (fun _ _ _ _ _ => rfl)
      fun _ _ _ => rfl
  | .pair k e :: rest =>
    simp only [closureInSlots]
    refine (closureIn_steady k p).orInner ((closureIn_steady e p).orInner
      (closureInSlots_steady rest p) ?_ ?_) (fun _ _ _ _ _ => rfl) fun _ _ _ => rfl
    · exact fun _ _ _ _ _ => rfl
    · exact fun _ _ _ => rfl
termination_by structural slots

end

/-! ### The look-up of a variable -/

theorem inScope_steady (p : Point) (start : Nat) (inner : List Stmt) :
    Steady p blank fun var ask types => inScope ⟨known, site, var, ask⟩ p start inner types := by
  refine ((walk_steady known site inner p false).map_blank fun var _ w =>
    if w.inClosure then w.types else (silent known site var).override p start w.types).congr ?_
  intro var ask types
  exact Option.map_eq_bind.symm

theorem types_steady (p : Point) :
    Steady p blank fun var ask (_ : Unit) => Lookup.types ⟨known, site, var, ask⟩ p := by
  simp only [Lookup.types]
  cases scopeAt p 0 site.doc.statements site.doc.statements with
  | statements start inner =>
    exact (inScope_steady known site p start inner).reindex fun _ _ => TypeList.empty
  | routine decl body =>
    exact (inScope_steady known site p body.span.start body.statements).reindex fun var _ =>
      ((silent known site var).parameterTypes? decl.span.start decl.parameters).getD
        TypeList.empty
  | nowhere => exact .candidates fun _ _ => TypeList.empty

end Lookup

/-! ### The variables of an expression -/

/-- Types of variables at positions. -/
abbrev Variables := String → Point → Option TypeList

/-- A variable at a position. -/
structure Occurrence where
  var : String
  point : Point
  deriving DecidableEq, Repr

/-- A result that needs the types of the occurrences `ys`, and nothing else. -/
structure Needs {α : Type} (f : Variables → Option α) (ys : List Occurrence) : Prop where
  isSome_iff : ∀ lookup, (f lookup).isSome ↔ ∀ y ∈ ys, (lookup y.var y.point).isSome
  eq_of_same : ∀ {lookup lookup'}, (∀ y ∈ ys, lookup y.var y.point = lookup' y.var y.point) →
    f lookup = f lookup'

/-- A result that needs the types of variables at `p`, and nothing else. -/
def Reads {α : Type} (p : Point) (f : Variables → Option α) : Prop :=
  ∃ ys, Needs f ys ∧ ∀ y ∈ ys, y.point = p

namespace Reads

variable {α β γ : Type} {p : Point} {f : Variables → Option α} {g : Variables → Option β}

/-- A result that needs no variable. -/
theorem settled (x : α) : Reads p fun _ => some x :=
  ⟨[], ⟨fun lookup => by simp, fun _ => rfl⟩, by simp⟩

theorem ofVar (v : String) : Reads p fun lookup => lookup v p :=
  ⟨[⟨v, p⟩], ⟨fun lookup => by simp, fun h => h _ (List.mem_singleton_self _)⟩, by simp⟩

theorem map (hf : Reads p f) (k : α → β) : Reads p fun lookup => (f lookup).map k := by
  obtain ⟨ys, hf, hp⟩ := hf
  refine ⟨ys, ⟨fun lookup => ?_, fun h => ?_⟩, hp⟩
  · rw [Option.isSome_map, hf.isSome_iff]
  · rw [hf.eq_of_same h]

/-- Two results, which are combined. -/
theorem both (hf : Reads p f) (hg : Reads p g) (k : α → β → γ) :
    Reads p fun lookup => do return k (← f lookup) (← g lookup) := by
  obtain ⟨ys, hf, hp⟩ := hf
  obtain ⟨zs, hg, hp'⟩ := hg
  refine ⟨ys ++ zs, ⟨fun lookup => ?_, fun h => ?_⟩, List.forall_mem_append.2 ⟨hp, hp'⟩⟩
  · rw [List.forall_mem_append, ← hf.isSome_iff lookup, ← hg.isSome_iff lookup]
    cases f lookup with
    | none => simp
    | some x => cases g lookup <;> simp
  · obtain ⟨h, h'⟩ := List.forall_mem_append.1 h
    rw [hf.eq_of_same h, hg.eq_of_same h']

end Reads

namespace Atlas

variable (a : Atlas) (site : Site) (p : Point)

/-- The types of a class reference, which needs variables only if it names no class. -/
theorem classReference_reads {cls : Expr} (k : TypeList → TypeList)
    (h : Reads p fun lookup => a.deduceWith site lookup p cls) :
    Reads p fun lookup => do
      let owners ←
        match a.known.classReference? site p.offset cls with
        | some types => some types
        | none => a.deduceWith site lookup p cls
      return k owners := by
  cases a.known.classReference? site p.offset cls with
  | some types => exact .settled _
  | none =>
    simp only [bind_pure_comp]
    exact h.map k

mutual

theorem deduceWith_reads (e : Expr) : Reads p fun lookup => a.deduceWith site lookup p e := by
  cases e with
  | paren _ e | clone _ e =>
    simp only [deduceWith]
    exact deduceWith_reads e
  | var span name =>
    simp only [deduceWith]
    split
    · exact .settled _
    · exact .ofVar name
  | assign _ plain _ value =>
    cases plain with
    | true =>
      simp only [deduceWith]
      exact deduceWith_reads value
    | false =>
      simp only [deduceWith]
      exact .settled _
  | ternary _ condition yes no =>
    match yes with
    | none =>
      simp only [deduceWith, deduceYes]
      exact ((deduceWith_reads condition).map _).both (deduceWith_reads no) TypeList.append
    | some yes =>
      simp only [deduceWith, deduceYes, bind_map_left, pure_bind]
      exact (deduceWith_reads yes).both (deduceWith_reads no) TypeList.append
  | select _ _ arms =>
    simp only [deduceWith]
    exact deduceArms_reads arms
  | binary _ op left right =>
    cases op with
    | coalesce =>
      simp only [deduceWith]
      exact (deduceWith_reads left).both (deduceWith_reads right)
        fun types => types.withoutNull.append
    | _ =>
      simp only [deduceWith]
      exact .settled _
  | new _ cls _ =>
    simp only [deduceWith]
    cases a.known.classReference? site p.offset cls with
    | some types => exact .settled _
    | none => exact deduceWith_reads cls
  | call _ callee _ =>
    match callee with
    | .method _ object (.named _) =>
      simp only [deduceWith, bind_pure_comp]
      exact (deduceWith_reads object).map _
    | .static cls (.named r) =>
      simp only [deduceWith]
      exact classReference_reads a site p _ (deduceWith_reads cls)
    | .method _ _ (.computed _) | .static _ (.computed _) =>
      simp only [deduceWith]
      exact .settled _
    | .function e =>
      cases e <;> (simp only [deduceWith]; exact .settled _)
  | property _ _ object selector =>
    cases selector with
    | named r =>
      simp only [deduceWith, bind_pure_comp]
      exact (deduceWith_reads object).map _
    | computed e =>
      simp only [deduceWith]
      exact .settled _
  | staticProperty _ cls property =>
    cases property with
    | var _ name =>
      simp only [deduceWith]
      exact classReference_reads a site p _ (deduceWith_reads cls)
    | _ =>
      simp only [deduceWith]
      exact .settled _
  | classConstant _ cls selector =>
    cases selector with
    | named r =>
      simp only [deduceWith]
      split
      · exact .settled _
      · exact classReference_reads a site p _ (deduceWith_reads cls)
    | computed e =>
      simp only [deduceWith]
      exact .settled _
  | constant r =>
    simp only [deduceWith]
    split <;> exact .settled _
  | _ =>
    simp only [deduceWith]
    exact .settled _
termination_by structural e

theorem deduceArms_reads (arms : List (Arm Expr)) :
    Reads p fun lookup => a.deduceArms site lookup p arms := by
  match arms with
  | [] =>
    simp only [deduceArms]
    exact .settled _
  | ⟨_, value⟩ :: rest =>
    simp only [deduceArms]
    exact (deduceWith_reads value).both (deduceArms_reads rest) TypeList.append
termination_by structural arms

end

/-- An answer needs variables at its own position, which is not too deep. -/
theorem answerWith_needs (e : Expr) :
    ∃ ys, Needs (fun lookup => a.answerWith site lookup e p) ys ∧
      ∀ y ∈ ys, y.point = p ∧ p.depth ≤ a.maxDepth := by
  simp only [answerWith]
  by_cases hdepth : a.maxDepth < p.depth
  · simp only [hdepth, if_true]
    exact ⟨[], ⟨fun lookup => by simp, fun _ => rfl⟩, by simp⟩
  · simp only [hdepth, if_false]
    obtain ⟨ys, hys, hp⟩ := deduceWith_reads a site p e
    exact ⟨ys, hys, fun y hy => ⟨hp y hy, Nat.not_lt.1 hdepth⟩⟩

/-- The look-up of a variable needs finitely many occurrences, each of them at its position or
deeper, and none too deep. -/
theorem variableWith_needs (var : String) :
    ∃ ys, Needs (fun lookup => a.variableWith site lookup var p) ys ∧
      ∀ y ∈ ys, (y.point = p ∨ p.depth < y.point.depth) ∧ y.point.depth ≤ a.maxDepth := by
  obtain ⟨qs, form, hqs⟩ := Lookup.types_steady a.known site p
  choose needs hneeds hpoint using fun e q => answerWith_needs a site q e
  refine ⟨(qs.filter (·.var = var)).flatMap fun x => needs x.expr x.point, ⟨?_, ?_⟩, ?_⟩
  · intro lookup
    refine (hqs.isSome_iff var _ ()).trans ?_
    simp only [Lookup.Answered, (hneeds _ _).isSome_iff, List.mem_flatMap, List.mem_filter,
      decide_eq_true_eq]
    constructor
    · rintro h y ⟨x, ⟨hx, hvar⟩, hy⟩
      exact h x hx hvar y hy
    · intro h x hx hvar y hy
      exact h y ⟨x, ⟨hx, hvar⟩, hy⟩
  · intro lookup lookup' hsame
    refine hqs.eq_of_same () fun x hx hvar => (hneeds x.expr x.point).eq_of_same fun y hy => ?_
    exact hsame y (List.mem_flatMap.2 ⟨x, List.mem_filter.2 ⟨hx, decide_eq_true hvar⟩, hy⟩)
  · intro y hy
    obtain ⟨x, hx, hy⟩ := List.mem_flatMap.1 hy
    obtain ⟨hyp, hdepth⟩ := hpoint _ _ y hy
    rw [hyp]
    exact ⟨hqs.near x (List.mem_of_mem_filter hx), hdepth⟩

end Atlas
end PhpAtlas
