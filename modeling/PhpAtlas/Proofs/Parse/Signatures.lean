import PhpAtlas.Proofs.Parse.Readers
import PhpAtlas.Source.Parse.Signature

/-!
# Reading signatures in order

What the readers of signatures and of blocks yield stands in a row, if this holds of the readers of
expressions and of statements that they get.

## Main definitions

* `Grammar.InOrder` — the readers of a grammar read nodes in order.

## Main results

* `Reader.ends_statements` — what each statement keeps, all of them keep.
* `Reader.reads_statements`, `Reader.reads_block` — statements, also in braces.
* `Reader.reads_accessors` — accessors in braces.
* `Reader.reads_parameters` — the default values of parameters.
-/

namespace PhpAtlas

open Parse (State Failure)

namespace Reader

/-! ### Types and modifiers -/

theorem passes_atomicHint : Passes atomicHint := by
  refine reads_next.passes.bind fun t => ?_
  split
  · split <;> exact .pure _
  · exact .pure _
  · exact .pure _
  · exact .pure _
  · exact .throw _

theorem looks_ampersandContinues : Looks ampersandContinues := by
  refine (looks_kindAt _).bind fun kind => ?_
  split <;> exact .pure _

theorem passes_hint : Passes hint := by
  refine .repeatFrom (fun pair => ?_) _
  obtain ⟨frames, done⟩ := pair
  dsimp only
  split
  · exact .pure _
  · exact .fail _
  · refine (passes_eatMark _).bind fun _ => ?_
    split
    · exact .pure _
    · refine (passes_eatMark _).bind fun _ => ?_
      split
      · exact .pure _
      · exact passes_atomicHint.bind fun _ => .pure _
  · refine (passes_eatMark _).bind fun _ => ?_
    split
    · exact .pure _
    · refine (looks_atMark _).passes.bind fun _ => ?_
      refine looks_ampersandContinues.passes.bind fun _ => ?_
      split
      · exact reads_next.passes.bind fun _ => .pure _
      · split
        · exact .pure _
        · exact (reads_expectMark _).passes.bind fun _ => .pure _

theorem passes_hint? : Passes hint? := by
  refine (looks_kindAt _).passes.bind fun kind => ?_
  cases kind with
  | none => exact .pure _
  | some kind =>
    dsimp only
    split
    · exact Reads.map passes_hint
    · exact .pure _

theorem passes_returnHint : Passes returnHint := by
  refine (reads_eat _).passes.bind fun colon => ?_
  cases colon with
  | none => exact .pure _
  | some colon => exact passes_hint.bind fun _ => .pure _

theorem looks_modifier? : Looks modifier? := by
  refine (looks_kindAt _).bind fun kind => ?_
  split
  all_goals first | exact .pure _ | exact (looks_wordAt _).bind fun _ => .pure _

theorem looks_setFollows : Looks setFollows :=
  (looks_isAt _ _).bind fun _ => (looks_wordAt _).bind fun _ => (looks_isAt _ _).bind fun _ =>
    .pure _

theorem passes_modifiers : Passes modifiers := by
  refine .repeatFrom (fun ms => looks_modifier?.passes.bind fun m => ?_) _
  cases m with
  | none => exact .pure _
  | some m =>
    refine looks_setFollows.passes.bind fun _ => ?_
    have hnext := reads_next.passes
    split
    · exact hnext.bind fun _ => hnext.bind fun _ => hnext.bind fun _ => hnext.bind fun _ => .pure _
    · exact hnext.bind fun _ => .pure _

end Reader

/-- The readers of a grammar read an expression and a statement in order. -/
structure Grammar.InOrder (g : Grammar) : Prop where
  expr : ∀ level, Reader.Reads (g.expr level) fun e => [.expr e]
  stmt : Reader.Reads g.stmt fun s => [.stmt s]

namespace Reader

variable {g : Grammar} (hg : g.InOrder) {s : State} {start : Nat} {t : Node}

include hg

/-! ### Blocks -/

omit hg in
/-- Statements are read as long as none of them stops.  A statement that fails leaves a complaint,
and its tokens are passed over. -/
theorem ends_statements {I : List Stmt → State → Prop} {stop : TokenKind → Bool}
    (hordered : ∀ ss s, I ss s → s.Ordered)
    (hread : ∀ ss s, I ss s → Ends g.stmt s fun stmt s' => I (ss ++ [stmt]) s')
    (hskip : ∀ ss s s', I ss s → s.Leads s' → s'.failures ≠ [] → I ss s') (h : I [] s) :
    Ends (statements g stop) s fun ss s' => I ss s' ∧ s'.Stops stop := by
  refine Ends.repeatFrom hordered (fun ss s hss => ?_) h
  have hs := At.start (hordered ss s hss)
  refine At.kind ?_
  cases htokens : s.tokens with
  | nil =>
    refine hs.pure ⟨hss, fun t ht => ?_⟩
    rw [htokens] at ht
    exact absurd ht (Option.not_mem_none t)
  | cons t ts =>
    dsimp only [List.head?_cons, Option.map_some]
    split
    case isTrue hstop =>
      refine hs.pure ⟨hss, fun u hu => ?_⟩
      rw [htokens, List.head?_cons, Option.mem_some] at hu
      rwa [← hu]
    case isFalse =>
      refine looks_get.see fun before => ?_
      -- both ways out of the attempt return from the step
      refine .bind (P := fun e s' => ∃ ss', e = .error (.inl ss') ∧ I ss' s')
        (.tryCatch ?_ fun e s' hleads => ?_) ?_
      · refine .bind (hread ss s hss) fun stmt s' hleads hss => ?_
        exact .pure hleads.ordered ⟨ss ++ [stmt], rfl, hss⟩
      · refine .bind (ends_note hleads.ordered e) fun _ s₁ hnoted hne => ?_
        refine looks_get.see fun after => ?_
        split
        · refine .bind (reads_next s₁ hnoted.ordered) fun _ s₂ hnext _ => ?_
          have hleads := (hleads.trans hnoted).trans hnext
          exact .pure hleads.ordered ⟨ss, rfl, hskip ss s s₂ hss hleads (mt hnext.failures hne)⟩
        · have hleads := hleads.trans hnoted
          exact .pure hleads.ordered ⟨ss, rfl, hskip ss s s₁ hss hleads hne⟩
      · rintro e s' hleads ⟨ss', rfl, hss⟩
        exact .pure hleads.ordered hss

theorem ends_statements_row (hs : s.Ordered) (stop : TokenKind → Bool) :
    Ends (statements g stop) s fun ss s' =>
      Row s.offset (ss.map .stmt) s'.last ∧ s'.Stops stop := by
  refine (ends_statements (I := fun ss s' => At s.offset (ss.map .stmt) s') (fun _ _ h => h.ordered)
    (fun ss s' h => ?_) (fun _ _ _ h hleads _ => h.lead hleads) (At.start hs)).mono
    fun _ _ _ h => ⟨h.1.row, h.2⟩
  refine (hg.stmt s' h.ordered).mono fun stmt s'' hleads hrow => ?_
  have h := h.append hleads hrow
  rwa [List.map_append]

theorem reads_statements (stop : TokenKind → Bool) :
    Reads (statements g stop) fun ss => ss.map .stmt :=
  fun _ hs => (ends_statements_row hg hs stop).mono fun _ _ _ h => h.1

/-- Statements stand between the braces around them. -/
theorem ends_block (hs : s.Ordered) :
    Ends (block g) s fun b s' => ∃ opening closing : Token,
      b.span = opening.span.through closing.span ∧
        Row s.offset (opening.node :: (b.statements.map .stmt ++ [closing.node])) s'.last := by
  refine (At.start hs).read (reads_expectMark _) fun opening _ h => ?_
  refine h.read (reads_statements hg _) fun ss _ h => ?_
  refine h.read (reads_expectMark _) fun closing _ h => ?_
  exact h.pure ⟨opening, closing, rfl, h.row⟩

theorem reads_block : Reads (block g) fun b => [.body b] := by
  intro s hs
  refine (ends_block hg hs).mono fun b s' _ hb => ?_
  obtain ⟨opening, closing, hspan, hrow⟩ := hb
  exact hrow.wrapThrough hspan (middle_sublist _) rfl

/-! ### Accessors and parameters -/

theorem reads_accessorBody : Reads (accessorBody g) fun b => b.toList.map .body := by
  intro s hs
  refine (At.start hs).skip (passes_eatMark _) fun bare _ h => ?_
  cases bare with
  | true => exact h.pure Row.nil
  | false =>
    refine h.skip (passes_eatMark _) fun isArrow _ h => ?_
    cases isArrow with
    | true =>
      refine h.read (hg.expr _) fun value _ h => ?_
      refine h.terminator fun s' h => h.pure ?_
      -- the statement and the body around it have one range
      have hstart := (h.row.inside _ List.mem_cons_self).1
      have hret : Row value.span.start [.stmt (.ret ⟨value.span.start, s'.last⟩ (some value))]
          s'.last := h.row.fromFirst.wrap (List.cons_ne_nil _ _) rfl (.refl _) rfl
      exact (hret.wrap (List.cons_ne_nil _ _) rfl (.refl _) rfl).mono hstart (Nat.le_refl _)
    | false => exact h.read (reads_block hg) fun b _ h => h.pure h.row

theorem reads_assigned : Reads (assigned g) fun value => value.toList.map .expr := by
  intro s hs
  refine (At.start hs).skip (passes_eatMark _) fun found s' h => ?_
  cases found with
  | false => exact h.pure Row.nil
  | true => exact h.read (hg.expr _) fun value _ h => h.pure h.row

theorem reads_plainParameter :
    Reads (plainParameter g) fun p => (defaults p.toList).map .expr := by
  intro s hs
  refine At.offset ?_
  refine (At.start hs).skip passes_skipAttributes fun _ _ h => ?_
  refine h.skip passes_modifiers fun ms _ h => ?_
  refine h.skip passes_hint? fun hint _ h => ?_
  refine h.skip (passes_eatMark _) fun byRef _ h => ?_
  refine h.skip (passes_eatMark _) fun variadic _ h => ?_
  refine h.skip (reads_eat _).passes fun name _ h => ?_
  cases name with
  | none =>
    refine (looks_missing _).see fun e => ?_
    exact h.skip (passes_note e) fun _ _ h => h.pure Row.nil
  | some name =>
    refine h.read (reads_assigned hg) fun value _ h => At.lastStop (h.pure ?_)
    simpa [defaults] using h.row

omit hg in
theorem defaults_filterMap (ps : List (Option (Parameter Expr))) :
    (ps.flatMap fun p => (defaults p.toList).map Node.expr) =
      (defaults (ps.filterMap id)).map .expr := by
  induction ps with
  | nil => rfl
  | cons p ps ih =>
    rw [List.flatMap_cons, ih]
    cases p <;> simp [defaults]

omit hg in
theorem reads_parametersWith {parameter : Reader (Option (Parameter Expr))}
    (h : Reads parameter fun p => (defaults p.toList).map .expr) :
    Reads (parametersWith parameter) fun ps => (defaults ps).map .expr := by
  intro s hs
  refine (At.start hs).skip (reads_expectMark _).passes fun _ _ hat => ?_
  refine hat.read (h.commaList _) fun ps _ hat => ?_
  refine hat.skip (passes_wantMark _) fun _ _ hat => hat.pure ?_
  have hrow := hat.row
  rwa [List.nil_append, defaults_filterMap] at hrow

theorem reads_accessorParameters :
    Reads (accessorParameters g) fun ps => (defaults ps).map .expr := by
  intro s hs
  refine (looks_atMark _).see fun found => ?_
  cases found with
  | false => exact .pure hs Row.nil
  | true => exact reads_parametersWith (reads_plainParameter hg) s hs

theorem reads_accessor : Reads (accessor g) fun d => [.routine d] := by
  intro s hs
  refine At.offset ?_
  refine (At.start hs).skip passes_skipAttributes fun _ _ h => ?_
  refine h.skip passes_modifiers fun ms _ h => ?_
  refine h.skip (passes_eatMark _) fun _ _ h => ?_
  refine h.read reads_memberName fun name _ h => ?_
  refine h.read (reads_accessorParameters hg) fun ps _ h => ?_
  refine h.read (reads_accessorBody hg) fun body _ h => ?_
  exact At.lastStop (h.pure (h.row.wrap (List.cons_ne_nil _ _) rfl (.refl _) rfl))

omit hg in
/-- Elements that are nodes, up to a brace or the end. -/
theorem reads_untilBrace {α : Type} {item : Reader α} {node : α → Node}
    (h : Reads item fun a => [node a]) :
    Reads (repeatFrom [] fun (as : List α) => do
      if (← atMark "\x7d") || (← atEnd) then return .inr as else return .inl (as ++ [← item]))
      fun as => as.map node := by
  refine .repeatFrom rfl fun i as s hat => ?_
  refine (looks_atMark _).see fun _ => looks_atEnd.see fun _ => ?_
  split
  · exact hat.pure hat
  · refine hat.read h fun a _ hat => hat.pure ?_
    rwa [Sum.elim_inl, List.map_append]

theorem reads_accessors : Reads (accessors g) fun ds => ds.map .routine := by
  intro s hs
  refine (At.start hs).skip (reads_expectMark _).passes fun _ _ h => ?_
  refine h.read (reads_untilBrace (reads_accessor hg)) fun ds _ h => ?_
  exact h.skip (reads_expectMark _).passes fun _ _ h => h.pure h.row

theorem reads_parameter : Reads (parameter g) fun p => (defaults p.toList).map .expr := by
  intro s hs
  refine (At.start hs).read (reads_plainParameter hg) fun p s' h => ?_
  cases p with
  | none => exact h.pure Row.nil
  | some p =>
    refine (looks_atMark _).see fun hooked => ?_
    cases hooked with
    | false => exact h.pure h.row
    | true => exact h.skip (reads_accessors hg).passes fun _ _ h => h.pure h.row

theorem reads_parameters : Reads (parameters g) fun ps => (defaults ps).map .expr :=
  reads_parametersWith (reads_parameter hg)

end Reader
end PhpAtlas
