import PhpAtlas.Proofs.Parse.Members
import PhpAtlas.Source.Parse.Expression

/-!
# Reading expressions in order

An expression is an operand and the operators behind it.  Each operator takes what has been read so
far as its first operand, so the row has one expression throughout.

## Main definitions

* `Reader.Grown` — the row behind one operator.

## Main results

* `Reader.reads_arguments`, `Reader.reads_elements` — arguments and elements of arrays.
* `Reader.reads_operand` — what stands before the first infix operator.
* `Reader.ends_extend`, `Reader.ends_extendAll` — the operators behind an expression.
* `Reader.reads_expression` — a whole expression.
-/

namespace PhpAtlas

open Parse (State Failure)

theorem Callee.exprs_ne_nil (callee : Callee Expr) : callee.exprs ≠ [] := by
  cases callee with
  | function e => exact List.cons_ne_nil _ _
  | method nullSafe e s => exact List.cons_ne_nil _ _
  | static e s => exact List.cons_ne_nil _ _

namespace Reader

variable {g : Grammar} (hg : g.InOrder) {s : State} {i start : Nat} {t : Node} {e : Expr}

include hg

/-! ### Argument and element lists -/

omit hg in
theorem looks_atParameterName : Looks atParameterName := by
  refine (looks_kindAt _).bind fun kind => ?_
  cases kind with
  | none => exact .pure _
  | some kind => exact (looks_isAt _ _).bind fun _ => .pure _

theorem reads_argument : Reads (argument g) fun a => a.exprs.map .expr := by
  intro s hs
  refine (At.start hs).skip (passes_eatMark _) fun isSpread _ h => ?_
  cases isSpread with
  | true => exact h.read (hg.expr _) fun e _ h => h.pure h.row
  | false =>
    refine looks_atParameterName.see fun isNamed => ?_
    cases isNamed with
    | false => exact h.read (hg.expr _) fun e _ h => h.pure h.row
    | true =>
      refine h.skip reads_memberName.passes fun name _ h => ?_
      refine h.skip (reads_expectMark _).passes fun _ _ h => ?_
      exact h.read (hg.expr _) fun e _ h => h.pure h.row

omit hg in
/-- The expressions of all elements of a list. -/
theorem Reads.exprs {α : Type} {x : Reader (List α)} {exprs : α → List Expr}
    (h : Reads x fun as => as.flatMap fun a => (exprs a).map .expr) :
    Reads x fun as => (as.flatMap exprs).map .expr := by
  simpa only [List.map_flatMap] using h

theorem reads_arguments :
    Reads (arguments g) fun slots => (slots.flatMap Slot.exprs).map .expr := by
  intro s hs
  refine (At.start hs).skip (reads_expectMark _).passes fun _ _ h => ?_
  refine h.read ((reads_argument hg).commaList _).exprs fun slots _ h => ?_
  exact h.skip (reads_expectMark _).passes fun _ _ h => h.pure h.row

theorem reads_argumentsIfAny :
    Reads (argumentsIfAny g) fun slots => (slots.flatMap Slot.exprs).map .expr := by
  intro s hs
  refine (looks_atMark _).see fun found => ?_
  cases found with
  | false => exact .pure hs Row.nil
  | true => exact reads_arguments hg s hs

omit hg in
theorem looks_atDots : Looks atDots :=
  (looks_atMark _).bind fun _ => (looks_isAt _ _).bind fun _ => (looks_isAt _ _).bind fun _ =>
    .pure _

theorem reads_element : Reads (element g) fun a => a.exprs.map .expr := by
  intro s hs
  refine (looks_atMark _).see fun isMissing => ?_
  cases isMissing with
  | true => exact .pure hs Row.nil
  | false =>
    refine (At.start hs).skip (passes_eatMark _) fun isSpread _ h => ?_
    cases isSpread with
    | true => exact h.read (hg.expr _) fun e _ h => h.pure h.row
    | false =>
      refine h.read (hg.expr _) fun first _ h => ?_
      refine h.skip (passes_eatMark _) fun isPair _ h => ?_
      cases isPair with
      | false => exact h.pure h.row
      | true => exact h.read (hg.expr _) fun value _ h => h.pure h.row

theorem reads_elements (closing : String) :
    Reads (elements g closing) fun slots => (slots.flatMap Slot.exprs).map .expr := by
  intro s hs
  refine (At.start hs).read ((reads_element hg).commaList _).exprs fun slots _ h => ?_
  exact h.skip (reads_expectMark _).passes fun _ _ h => h.pure h.row

/-! ### Strings with interpolation -/

theorem reads_embedded : Reads (embedded g) fun e => e.toList.map .expr := by
  intro s hs
  refine (At.start hs).read reads_next fun t _ h => ?_
  split
  · refine h.read (hg.expr _) fun e _ h => ?_
    refine h.read (reads_expect _) fun closing _ h => ?_
    split
    · exact h.pure (h.row.wrapThrough rfl (middle_sublist _) rfl)
    · exact h.pure (h.row.sublist (middle_sublist _))
  · have h : At s.offset [.expr (.var t.span t.text)] _ := At.exchange h rfl rfl rfl
    refine h.skip (passes_eatMark _) fun isIndex _ h => ?_
    cases isIndex with
    | true =>
      refine h.skip (passes_eatMark _) fun _ _ h => ?_
      refine h.read reads_next fun i _ h => ?_
      extract_lets index
      have hindex : (Node.expr index).span = i.span ∧ (Node.expr index).parts = [] := by
        simp only [index]
        split <;> exact ⟨rfl, rfl⟩
      have h := h.exchange hindex.1 hindex.2 rfl
      refine h.read (reads_expectMark _) fun closing _ h => h.pure ?_
      exact h.row.wrapThrough rfl (List.sublist_append_left _ _) rfl
    | false =>
      refine (looks_atMark _).see fun nullSafe => (looks_atMark _).see fun plain => ?_
      split
      · refine h.skip reads_next.passes fun _ _ h => ?_
        refine h.read reads_memberName fun name _ h => h.pure ?_
        exact h.row.wrapThrough rfl (List.sublist_append_left _ _) rfl
      · exact h.pure h.row
  · exact h.pure Row.nil

theorem reads_templateParts : Reads (templateParts g) fun es => es.map .expr := by
  refine .repeatFrom rfl fun i es s h => ?_
  refine (looks_isAt _ _).see fun _ => looks_atEnd.see fun _ => ?_
  split
  · exact h.pure h
  · refine h.read (reads_embedded hg) fun e _ h => ?_
    cases e with
    | none => exact h.pure (by simpa using h)
    | some e => exact h.pure (by simpa using h)

theorem ends_template {opening : Token} (h : At i [opening.node] s) :
    Ends (template g opening) s fun e s' => Row i [.expr e] s'.last := by
  refine h.read (reads_templateParts hg) fun es _ h => ?_
  refine h.read (reads_expect _) fun closing _ h => h.pure ?_
  exact h.row.wrapThrough rfl (middle_sublist _) rfl

/-! ### Operands -/

theorem reads_armConditions : Reads (armConditions g) fun es => es.map .expr := by
  intro s hs
  have h := At.start hs
  refine (looks_atReserved _).see fun _ => (looks_isAt _ _).see fun _ =>
    (looks_isAt _ _).see fun _ => ?_
  dsimp only
  split
  · refine h.skip reads_next.passes fun _ _ h => ?_
    exact h.skip (passes_eatMark _) fun _ _ h => h.pure Row.nil
  · exact ((hg.expr _).commaList _).nodes s hs

theorem reads_arm : Reads (arm g) fun a => a.exprs.map .expr := by
  intro s hs
  refine (At.start hs).read (reads_armConditions hg) fun conditions _ h => ?_
  refine h.skip (reads_expectMark _).passes fun _ _ h => ?_
  refine h.read (hg.expr _) fun value _ h => h.pure ?_
  simpa [Arm.exprs] using h.row

theorem ends_select (h : At start [t] s) :
    Ends (select g start) s fun e s' => Row start [.expr e] s'.last := by
  refine h.skip (reads_expectMark _).passes fun _ _ h => ?_
  refine h.read (hg.expr _) fun subject _ h => ?_
  refine h.skip (reads_expectMark _).passes fun _ _ h => ?_
  refine h.skip (reads_expectMark _).passes fun _ _ h => ?_
  refine h.read ((reads_arm hg).commaList _).exprs fun arms _ h => ?_
  refine h.read (reads_expectMark _) fun closing _ h => h.pure ?_
  exact h.row.wrapTo rfl (middle_sublist _) rfl

omit hg in
theorem passes_capture : Passes capture :=
  (passes_eatMark _).bind fun _ => (reads_expect _).passes.bind fun _ => .pure _

omit hg in
theorem passes_captures : Passes captures := by
  refine (passes_eatReserved _).bind fun _ => ?_
  split
  · refine (reads_expectMark _).passes.bind fun _ => ?_
    refine (Reads.commaList _ passes_capture).passes.bind fun _ => ?_
    exact (reads_expectMark _).passes.bind fun _ => .pure _
  · exact .pure _

theorem ends_closure (h : At start [] s) :
    Ends (closure g start) s fun e s' => Row start [.expr e] s'.last := by
  refine h.skip (passes_eatMark _) fun _ _ h => ?_
  refine h.read (reads_parameters hg) fun ps _ h => ?_
  refine h.skip passes_captures fun vars _ h => ?_
  refine h.skip passes_returnHint fun returns _ h => ?_
  refine h.read (reads_block hg) fun body _ h => h.pure ?_
  exact h.row.wrapTo rfl (.refl _) rfl

theorem ends_arrow (h : At start [] s) :
    Ends (arrow g start) s fun e s' => Row start [.expr e] s'.last := by
  refine h.skip (passes_eatMark _) fun _ _ h => ?_
  refine h.read (reads_parameters hg) fun ps _ h => ?_
  refine h.skip passes_returnHint fun returns _ h => ?_
  refine h.skip (reads_expectMark _).passes fun _ _ h => ?_
  refine h.read (hg.expr _) fun body _ h => h.pure ?_
  exact h.row.wrapTo rfl (.refl _) rfl

theorem ends_functionLike (h : At start [] s) :
    Ends (functionLike g start) s fun e s' => Row start [.expr e] s'.last := by
  refine h.skip (passes_eatReserved _) fun _ _ h => ?_
  refine h.skip (passes_eatReserved _) fun isFunction _ h => ?_
  cases isFunction with
  | true => exact ends_closure hg h
  | false => exact h.skip (reads_expect _).passes fun _ _ h => ends_arrow hg h

omit hg in
theorem passes_anonymousModifiers : Passes anonymousModifiers := by
  refine (looks_isAt _ _).passes.bind fun _ => ?_
  split
  · refine (looks_wordAt _).passes.bind fun _ => (looks_isAt _ _).passes.bind fun _ => ?_
    split
    · exact passes_modifiers
    · exact .pure _
  · refine (looks_atReserved _).passes.bind fun _ => ?_
    split
    · exact passes_modifiers
    · exact .pure _

omit hg in
/-- A constant in the place of a class or a function has the same range. -/
theorem At.asName {ns : List Node} (h : At i (ns ++ [.expr e]) s) :
    At i (ns ++ [.expr (asName e)]) s := by
  cases e with
  | constant r => exact h.exchange rfl rfl rfl
  | _ => exact h

theorem ends_instantiation (h : At start [t] s) :
    Ends (instantiation g start) s fun e s' => Row start [.expr e] s'.last := by
  refine h.skip passes_skipAttributes fun _ _ h => ?_
  refine h.skip passes_anonymousModifiers fun ms _ h => ?_
  refine (looks_atReserved _).see fun isClass => ?_
  cases isClass with
  | true =>
    refine At.offset ?_
    refine h.skip reads_next.passes fun _ _ h => ?_
    refine h.read (reads_argumentsIfAny hg) fun slots _ h => ?_
    refine .bind (ends_anonymousClass hg h.ordered) fun decl s' hleads hdecl => ?_
    obtain ⟨hstop, hmembers⟩ := hdecl
    have h := h.append hleads hmembers
    refine h.pure (h.row.wrap (List.cons_ne_nil _ _) ?_ (List.sublist_cons_self _ _) rfl)
    exact congrArg (Span.mk start) hstop
  | false =>
    refine h.read (hg.expr _) fun cls _ h => ?_
    refine h.asName.read (reads_argumentsIfAny hg) fun slots _ h => At.lastStop (h.pure ?_)
    exact h.row.wrapBehind rfl rfl rfl

theorem ends_yielded (h : At start [t] s) :
    Ends (yielded g start) s fun e s' => Row start [.expr e] s'.last := by
  refine (looks_wordAt _).see fun word => ?_
  split
  · refine h.skip reads_next.passes fun _ _ h => ?_
    refine h.read (hg.expr _) fun e _ h => h.pure ?_
    exact h.row.wrapTo rfl (List.sublist_cons_self _ _) rfl
  · refine (looks_kindAt _).see fun kind => ?_
    extract_lets bare
    split
    · exact At.lastStop (h.pure (h.row.wrap (List.cons_ne_nil _ _) rfl (List.nil_sublist _) rfl))
    · refine h.read (hg.expr _) fun e _ h => ?_
      refine h.skip (passes_eatMark _) fun isKey _ h => ?_
      cases isKey with
      | true =>
        refine h.read (hg.expr _) fun value _ h => h.pure ?_
        exact h.row.wrapTo rfl (List.sublist_cons_self _ _) rfl
      | false => exact h.pure (h.row.wrapTo rfl (List.sublist_cons_self _ _) rfl)

theorem ends_bracketed (h : At start [t] s) (word : String) :
    Ends (bracketed g start word) s fun e s' => Row start [.expr e] s'.last := by
  refine h.skip (reads_expectMark _).passes fun _ _ h => ?_
  refine h.read ((hg.expr _).commaList _).nodes fun es _ h => ?_
  refine h.read (reads_expectMark _) fun closing _ h => h.pure ?_
  exact h.row.wrapTo rfl (middle_sublist _) rfl

omit hg in
theorem reads_unexpected : Reads unexpected fun e => [.expr e] := by
  intro s hs
  refine (At.start hs).read reads_next fun t _ h => ?_
  have h : At s.offset ([] ++ [.expr (.missing t.span)]) _ := h.exchange rfl rfl rfl
  exact h.skip (passes_note _) fun _ _ h => h.pure h.row

theorem ends_indirect (h : At start [t] s) :
    Ends (indirect g start) s fun e s' => Row start [.expr e] s'.last := by
  refine h.skip (passes_eatMark _) fun braced _ h => ?_
  cases braced with
  | true =>
    refine h.read (hg.expr _) fun e _ h => ?_
    refine h.read (reads_expectMark _) fun closing _ h => h.pure ?_
    exact h.row.wrapTo rfl (middle_sublist _) rfl
  | false =>
    refine h.read (hg.expr _) fun e _ h => h.pure ?_
    exact h.row.wrapTo rfl (List.sublist_cons_self _ _) rfl

/-- A word in front of its operand. -/
theorem ends_inFront (hs : s.Ordered) (level : Nat) (node : Span → Expr → Expr)
    (hspan : ∀ span e, (Node.expr (node span e)).span = span)
    (hparts : ∀ span e, (Node.expr (node span e)).parts = [.expr e]) :
    Ends (do
      let _ ← next
      let e ← g.expr level
      return some (node ⟨s.offset, e.span.stop⟩ e)) s fun e s' =>
        Row s.offset (e.toList.map .expr) s'.last := by
  refine (At.start hs).read reads_next fun t _ h => ?_
  refine h.read (hg.expr _) fun e _ h => h.pure ?_
  refine h.row.wrapTo (hspan _ _) ?_ rfl
  rw [hparts]
  exact List.sublist_cons_self _ _

theorem ends_arrayKeyword (hs : s.Ordered) (form : ArrayForm) :
    Ends (do
      if ← isAt 1 (.mark "(") then
        let _ ← next
        let _ ← next
        let es ← elements g ")"
        return some (.array ⟨s.offset, ← lastStop⟩ form es)
      else return none) s fun e s' => Row s.offset (e.toList.map .expr) s'.last := by
  refine (looks_isAt _ _).see fun found => ?_
  cases found with
  | false => exact .pure hs Row.nil
  | true =>
    refine (At.start hs).read reads_next fun word _ h => ?_
    refine h.skip reads_next.passes fun _ _ h => ?_
    refine h.read (reads_elements hg _) fun es _ h => At.lastStop (h.pure ?_)
    exact h.row.wrapBehind rfl rfl rfl

theorem ends_exit (hs : s.Ordered) (word : String) :
    Ends (do
      let t ← next
      if ← atMark "(" then some <$> bracketed g s.offset word
      else return some (.construct t.span word [])) s fun e s' =>
        Row s.offset (e.toList.map .expr) s'.last := by
  refine (At.start hs).read reads_next fun t _ h => ?_
  refine (looks_atMark _).see fun found => ?_
  cases found with
  | false => exact h.pure (h.row.exchange rfl rfl rfl)
  | true => exact (ends_bracketed hg h word).map

theorem ends_reservedOperand (hs : s.Ordered) (word : String) :
    Ends (reservedOperand g word s.offset) s fun e s' =>
      Row s.offset (e.toList.map .expr) s'.last := by
  have h := At.start hs
  have hfunction : Ends (some <$> functionLike g s.offset) s fun e s' =>
      Row s.offset (e.toList.map .expr) s'.last := (ends_functionLike hg h).map
  have hinclude : ∀ level word, _ := fun level word =>
    ends_inFront hg hs level (fun span e => .construct span word [e]) (fun _ _ => rfl)
      fun _ _ => rfl
  have hbracketed : ∀ word, Ends (do let _ ← next; some <$> bracketed g s.offset word) s fun e s' =>
      Row s.offset (e.toList.map .expr) s'.last := fun word =>
    ends_behindToken hs fun _ _ h => ends_bracketed hg h word
  unfold reservedOperand
  split
  · -- `new`
    exact ends_behindToken hs fun _ _ h => ends_instantiation hg h
  · -- `clone`
    exact ends_inFront hg hs _ .clone (fun _ _ => rfl) fun _ _ => rfl
  · -- `function` and `fn`
    exact hfunction
  · exact hfunction
  · -- `static`
    refine (looks_isAt _ _).see fun _ => (looks_isAt _ _).see fun _ => ?_
    split
    · exact hfunction
    · refine h.read reads_next fun t _ h => h.pure ?_
      exact h.row.exchange rfl rfl rfl
  · -- `array` and `list`
    exact ends_arrayKeyword hg hs _
  · exact ends_arrayKeyword hg hs _
  · -- `match`
    exact ends_behindToken hs fun _ _ h => ends_select hg h
  · -- `isset`, `empty` and `eval`
    exact hbracketed _
  · exact hbracketed _
  · exact hbracketed _
  · -- `exit` and `die`
    exact ends_exit hg hs _
  · exact ends_exit hg hs _
  · -- the words that include a file, and `print`
    exact hinclude _ _
  · exact hinclude _ _
  · exact hinclude _ _
  · exact hinclude _ _
  · exact hinclude _ _
  · -- `throw`
    exact ends_inFront hg hs _ .throw (fun _ _ => rfl) fun _ _ => rfl
  · -- `yield`
    exact ends_behindToken hs fun _ _ h => ends_yielded hg h
  · -- no other word begins an operand
    exact .pure hs Row.nil

omit hg in
theorem wordOperand_leaf (t : Token) :
    (Node.expr (wordOperand t)).span = t.span ∧ (Node.expr (wordOperand t)).parts = [] := by
  unfold wordOperand
  split
  · exact ⟨rfl, rfl⟩
  · exact ⟨rfl, rfl⟩
  · exact ⟨rfl, rfl⟩
  · exact ⟨rfl, rfl⟩
  · exact ⟨rfl, rfl⟩
  · split <;> exact ⟨rfl, rfl⟩

theorem reads_operand : Reads (operand g) fun e => [.expr e] := by
  intro s hs
  obtain ⟨tokens, last, failures⟩ := s
  refine At.peek ?_
  cases tokens with
  | nil => exact looks_endFailure.see fun _ => .throw hs
  | cons t ts =>
    have h := At.start hs
    have hleaf : ∀ e : Expr, (Node.expr e).span = t.span → (Node.expr e).parts = [] →
        Ends (do let _ ← next; return e) ⟨t :: ts, last, failures⟩ fun e s' =>
          Row t.span.start [.expr e] s'.last := fun e hspan hparts =>
      h.next rfl fun _ h => h.pure (h.row.exchange hspan hparts rfl)
    dsimp only [List.head?_cons]
    split
    · -- variables, numbers and strings
      exact hleaf _ rfl rfl
    · exact hleaf _ rfl rfl
    · exact hleaf _ rfl rfl
    · exact hleaf _ rfl rfl
    · -- strings with interpolation
      exact h.next rfl fun _ h => ends_template hg h
    · -- names
      exact hleaf _ (wordOperand_leaf t).1 (wordOperand_leaf t).2
    · exact hleaf _ rfl rfl
    · exact hleaf _ rfl rfl
    · -- brackets
      refine h.read reads_next fun _ _ h => ?_
      refine h.read (hg.expr _) fun e _ h => ?_
      refine h.read (reads_expectMark _) fun closing _ h => h.pure ?_
      exact h.row.wrapTo rfl (middle_sublist _) rfl
    · -- arrays
      refine h.read reads_next fun _ _ h => ?_
      refine h.read (reads_elements hg _) fun es _ h => At.lastStop (h.pure ?_)
      exact h.row.wrapBehind rfl rfl rfl
    · -- computed variables
      exact h.read reads_next fun _ _ h => ends_indirect hg h
    · -- attributes
      exact h.skip passes_skipAttributes fun _ _ h => ends_functionLike hg h
    · -- reserved words
      refine .bind (ends_reservedOperand hg hs _) fun e s' hleads hrow => ?_
      cases e with
      | some e => exact .pure hleads.ordered hrow
      | none =>
        exact (reads_unexpected s' hleads.ordered).mono fun _ _ _ hrow =>
          hrow.mono hleads.offset (Nat.le_refl _)
    · -- prefix operators, or no operand at all
      split
      · refine h.read reads_next fun _ _ h => ?_
        refine h.read (hg.expr _) fun e _ h => h.pure ?_
        exact h.row.wrapTo rfl (List.sublist_cons_self _ _) rfl
      · exact reads_unexpected _ hs

/-! ### Operators behind an expression -/

/-- One expression stands behind the offset, whether reading goes on or stops. -/
def Grown (i : Nat) (r : Expr ⊕ Expr) (s : State) : Prop :=
  r.elim (fun e => At i [.expr e] s) (fun e => At i [.expr e] s)

theorem ends_called {callee : Callee Expr} (h : At start (callee.exprs.map .expr) s) :
    Ends (called g start callee) s fun e s' => Row start [.expr e] s'.last := by
  have hne : callee.exprs.map Node.expr ≠ [] := by
    rw [ne_eq, List.map_eq_nil_iff]
    exact callee.exprs_ne_nil
  refine looks_atDots.see fun isCallable => ?_
  cases isCallable with
  | true =>
    refine h.skip reads_next.passes fun _ _ h => ?_
    refine h.skip reads_next.passes fun _ _ h => ?_
    refine h.skip reads_next.passes fun _ _ h => At.lastStop (h.pure ?_)
    exact h.row.wrap hne rfl (.refl _) rfl
  | false =>
    refine h.read (reads_arguments hg) fun slots _ h => At.lastStop (h.pure ?_)
    have hparts : (callee.exprs ++ slots.flatMap Slot.exprs).map Node.expr =
        callee.exprs.map .expr ++ (slots.flatMap Slot.exprs).map .expr := List.map_append
    exact h.row.wrap (List.append_ne_nil_of_left_ne_nil hne _) rfl (hparts ▸ .refl _) rfl

theorem reads_selector : Reads (selector g) fun s => s.exprs.map .expr := by
  intro s hs
  have hnamed : Ends (Selector.named <$> memberName) s fun e s' =>
      Row s.offset (e.exprs.map .expr) s'.last :=
    .map ((reads_memberName s hs).mono fun _ _ _ _ => Row.nil)
  obtain ⟨tokens, last, failures⟩ := s
  refine At.peek ?_
  cases tokens with
  | nil => exact hnamed
  | cons t ts =>
    have h := At.start hs
    dsimp only [List.head?_cons]
    split
    · exact h.next rfl fun _ h => h.pure (h.row.exchange rfl rfl rfl)
    · refine h.read reads_next fun _ _ h => ?_
      exact .map (ends_indirect hg h)
    · refine h.skip reads_next.passes fun _ _ h => ?_
      refine h.read (hg.expr _) fun e _ h => ?_
      exact h.skip (reads_expectMark _).passes fun _ _ h => h.pure h.row
    · exact hnamed

theorem ends_memberAccess (level : Nat) (nullSafe : Bool) (h : At e.span.start [.expr e] s) :
    Ends (memberAccess g level e nullSafe) s fun e' s' =>
      Row e.span.start [.expr e'] s'.last := by
  refine h.skip reads_next.passes fun _ _ h => ?_
  refine h.read (reads_selector hg) fun selector _ h => ?_
  refine (looks_atMark _).see fun _ => ?_
  split
  · exact ends_called hg h
  · exact At.lastStop (h.pure (h.row.wrap (List.cons_ne_nil _ _) rfl (.refl _) rfl))

theorem ends_staticAccess (level : Nat) (h : At e.span.start [.expr e] s) :
    Ends (staticAccess g level e) s fun e' s' => Row e.span.start [.expr e'] s'.last := by
  have h : At e.span.start ([] ++ [.expr (asName e)]) s := h.asName
  refine h.skip reads_next.passes fun _ _ h => ?_
  refine h.read (reads_selector hg) fun selector _ h => ?_
  refine (looks_atMark _).see fun _ => ?_
  split
  · exact ends_called hg h
  · refine At.lastStop ?_
    dsimp only
    split
    · exact h.pure (h.row.wrap (List.cons_ne_nil _ _) rfl (.refl _) rfl)
    · exact h.pure (h.row.wrap (List.cons_ne_nil _ _) rfl (.refl _) rfl)
    · exact h.pure (h.row.wrap (List.cons_ne_nil _ _) rfl (.refl _) rfl)

theorem reads_exprUnless (mark : String) :
    Reads (exprUnless g mark) fun e => e.toList.map .expr := by
  intro s hs
  refine (looks_atMark _).see fun found => ?_
  cases found with
  | true => exact .pure hs Row.nil
  | false => exact .map (hg.expr _ s hs)

theorem ends_indexAccess (h : At i [.expr e] s) :
    Ends (indexAccess g e) s fun e' s' => Row i [.expr e'] s'.last := by
  refine h.skip reads_next.passes fun _ _ h => ?_
  refine h.read (reads_exprUnless hg _) fun index _ h => ?_
  refine h.read (reads_expectMark _) fun closing _ h => h.pure ?_
  exact h.row.wrapThrough rfl (List.sublist_append_left _ _) rfl

theorem ends_conditional (h : At i [.expr e] s) :
    Ends (conditional g e) s fun e' s' => Row i [.expr e'] s'.last := by
  refine h.skip reads_next.passes fun _ _ h => ?_
  refine h.read (reads_exprUnless hg _) fun yes _ h => ?_
  refine h.skip (reads_expectMark _).passes fun _ _ h => ?_
  refine h.read (hg.expr _) fun no _ h => h.pure ?_
  exact h.row.wrapThrough rfl (.refl _) rfl

theorem ends_binary (op : BinaryOp) (level : Nat) (h : At i [.expr e] s) :
    Ends (binary g op level e) s fun e' s' => Row i [.expr e'] s'.last := by
  refine h.skip reads_next.passes fun _ _ h => ?_
  refine h.read (hg.expr _) fun right s' h => ?_
  extract_lets operand
  have h : At i ([.expr e] ++ [.expr operand]) s' := by
    simp only [operand]
    split
    · exact h.asName
    · exact h
  exact h.pure (h.row.wrapThrough rfl (.refl _) rfl)

omit hg in
/-- An operator that binds too weakly is left. -/
theorem ends_ifBinds {c : Prop} [Decidable c] {x : Reader (Expr ⊕ Expr)} (h : At i [.expr e] s)
    (hx : Ends x s (Grown i)) : Ends (if c then x else pure (.inr e)) s (Grown i) := by
  split
  · exact hx
  · exact h.pure h

omit hg in
theorem ends_grown {x : Reader Expr} (h : At i [.expr e] s)
    (hx : Ends x s fun e s' => Row i [.expr e] s'.last) : Ends (.inl <$> x) s (Grown i) :=
  .map (hx.mono fun _ _ hleads hrow => h.become hleads hrow)

/-- An operator with an operand on each side. -/
theorem ends_twoSided (h : At i [.expr e] s) (level : Nat) (node : Span → Expr → Expr → Expr)
    (hspan : ∀ span a b, (Node.expr (node span a b)).span = span)
    (hparts : ∀ span a b, (Node.expr (node span a b)).parts = [.expr a, .expr b]) :
    Ends (do
      let _ ← next
      let right ← g.expr level
      return .inl (node (e.span.through right.span) e right)) s (Grown i) := by
  refine h.skip reads_next.passes fun _ _ h => ?_
  refine h.read (hg.expr _) fun right _ h => h.pure (h.become h.ordered.leads ?_)
  refine h.row.wrapThrough (hspan _ _ _) ?_ rfl
  rw [hparts]
  exact .refl _

/-- An operator takes what has been read as its first operand. -/
theorem ends_extend (level : Nat) (h : At i [.expr e] s) :
    Ends (extend g level e) s (Grown i) := by
  have htrailing : Ends (do
      let t ← next
      return .inl (.trailing (e.span.through t.span) e)) s (Grown i) := by
    refine h.read reads_next fun t _ h => h.pure (h.become h.ordered.leads ?_)
    exact h.row.wrapThrough rfl (List.sublist_append_left _ _) rfl
  have hcalled : Ends (called g e.span.start (.function (asName e))) s fun e s' =>
      At i [.expr e] s' := by
    refine h.regrow fun h => ?_
    have h : At e.span.start ([] ++ [.expr (asName e)]) s := h.asName
    exact ends_called hg h
  refine (looks_kindAt _).see fun kind => ?_
  cases kind with
  | none => exact h.pure h
  | some kind =>
    dsimp only
    split
    · exact ends_ifBinds h (ends_twoSided hg h _ (.assign · _) (fun _ _ _ => rfl) fun _ _ _ => rfl)
    split
    · exact ends_ifBinds h (ends_grown h (ends_binary hg _ _ h))
    split
    · exact ends_ifBinds h (ends_grown h (ends_conditional hg h))
    · exact ends_ifBinds h (ends_twoSided hg h _ .pipe (fun _ _ _ => rfl) fun _ _ _ => rfl)
    · exact ends_ifBinds h (.map hcalled)
    · exact ends_ifBinds h (ends_grown h (ends_indexAccess hg h))
    · exact ends_ifBinds h (.map (h.regrow (ends_memberAccess hg level false)))
    · exact ends_ifBinds h (.map (h.regrow (ends_memberAccess hg level true)))
    · exact ends_ifBinds h (.map (h.regrow (ends_staticAccess hg level)))
    · exact ends_ifBinds h htrailing
    · exact ends_ifBinds h htrailing
    · exact h.pure h

theorem ends_extendAll (level : Nat) (h : At i [.expr e] s) :
    Ends (extendAll g level e) s fun e' s' => Row i [.expr e'] s'.last :=
  (Ends.repeatFrom (fun _ _ h => h.ordered) (fun _ _ h => ends_extend hg level h) h).mono
    fun _ _ _ h => h.row

theorem reads_expression (level : Nat) : Reads (expression g level) fun e => [.expr e] := by
  intro s hs
  exact (At.start hs).read (reads_operand hg) fun e _ h => ends_extendAll hg level h

end Reader
end PhpAtlas
