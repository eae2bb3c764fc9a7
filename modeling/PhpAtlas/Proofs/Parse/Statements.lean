import PhpAtlas.Proofs.Parse.Expressions
import PhpAtlas.Scope.Collect

/-!
# Reading statements in order

A statement takes the place of the tokens and the nodes that it is read from.  Only a branch of a
conditional with colons ends where the next token starts; the others end with the last token.

## Main definitions

* `Reader.Stands` — a statement has been read, and behind a namespace without braces stands the next
  namespace or nothing.
* `Reader.Ahead` — the nodes read since an offset stand in a row in front of the next token.

## Main results

* `Reader.ends_statement` — a statement stands where its first token stands.
* `Reader.ends_statement_namespace` — at the word `namespace` a namespace is read.
* `Grammar.inOrder_ofDepth` — the grammar of source files reads nodes in order.
-/

namespace PhpAtlas

open Parse (State Failure)

namespace Reader

/-- A statement has been read since an offset.  A namespace without braces runs to the next one. -/
structure Stands (i : Nat) (stmt : Stmt) (s : State) : Prop where
  row : Row i [.stmt stmt] s.last
  runs : stmt.isOpenSpace = true → s.Stops (· == .reserved "namespace")

/-- The nodes that have been read since an offset stand in a row in front of the next token. -/
structure Ahead (i : Nat) (ns : List Node) (s : State) : Prop where
  ordered : s.Ordered
  base : i ≤ s.offset
  row : Row i ns s.offset

section Places

variable {α β : Type} {s s' : State} {i j : Nat} {ns ms : List Node} {stmt : Stmt}

/-- A statement that is no namespace without braces. -/
theorem Stands.closed (h : Row i [.stmt stmt] s.last) (hclosed : stmt.isOpenSpace = false) :
    Stands i stmt s :=
  ⟨h, fun hopen => absurd hopen (Bool.eq_false_iff.1 hclosed)⟩

theorem Stands.mono (h : Stands i stmt s) (hi : j ≤ i) : Stands j stmt s :=
  ⟨h.row.mono hi (Nat.le_refl _), h.runs⟩

theorem At.ahead (h : At i ns s) (hleads : s.Leads s') (hrow : Row s.offset ms s'.offset) :
    Ahead i (ns ++ ms) s' where
  ordered := hleads.ordered
  base := Nat.le_trans h.base hleads.offset
  row := h.row.append hrow h.base
    (Nat.le_trans h.ordered.last_le_offset hleads.offset) h.ordered.last_le_offset

/-- Behind a token the row ends with the last token again. -/
theorem Ahead.read {x : Reader α} {f : α → Reader β} {Q : β → State → Prop} {P : α → List Node}
    (h : Ahead i ns s) (hx : Reads x P)
    (hnone : ∀ a s', P a = [] → Ahead i ns s' → Ends (f a) s' Q)
    (hsome : ∀ a s', P a ≠ [] → At i ns s' → Ends (f a) s' Q) : Ends (x >>= f) s Q := by
  refine .bind (hx s h.ordered) fun a s' hleads hrow => ?_
  have hbase := Nat.le_trans h.base hleads.offset
  by_cases hnil : P a = []
  · exact hnone a s' hnil ⟨hleads.ordered, hbase, h.row.mono (Nat.le_refl _) hleads.offset⟩
  · have hlast := hrow.lt hnil
    exact hsome a s' hnil ⟨hleads.ordered, hbase, h.row.mono (Nat.le_refl _) (Nat.le_of_lt hlast)⟩

theorem ends_eatReserved (h : Ahead i ns s) (word : String) :
    Ends (eatReserved word) s fun found s' => bif found then At i ns s' else Ahead i ns s' := by
  refine h.read (reads_eat _) (fun t s' hnil h => ?_) fun t s' hne h => ?_
  · cases t with
    | none => exact .pure h.ordered h
    | some t => cases hnil
  · cases t with
    | none => exact absurd rfl hne
    | some t => exact .pure h.ordered h

end Places

variable {g : Grammar} (hg : g.InOrder) {s : State} {i start : Nat} {t : Node} {ns : List Node}

include hg

/-! ### Bodies -/

theorem reads_condition : Reads (condition g) fun e => [.expr e] := by
  intro s hs
  refine (At.start hs).skip (reads_expectMark _).passes fun _ _ h => ?_
  refine h.read (hg.expr _) fun e _ h => ?_
  exact h.skip (reads_expectMark _).passes fun _ _ h => h.pure h.row

theorem reads_colonBody (endWord : String) : Reads (colonBody g endWord) fun b => [.body b] := by
  intro s hs
  refine (At.start hs).read (reads_expectMark _) fun colon _ h => ?_
  refine h.read (reads_statements hg _) fun ss _ h => ?_
  refine h.skip (reads_expect _).passes fun _ _ h => ?_
  refine h.terminator fun s' h => h.pure ?_
  have hstart := (h.row.inside _ List.mem_cons_self).1
  have hbody : Row colon.span.start [.body ⟨⟨colon.span.start, s'.last⟩, ss⟩] s'.last :=
    h.row.fromFirst.wrapBehind rfl rfl rfl
  exact hbody.mono hstart (Nat.le_refl _)

/-- A statement is a body of its own. -/
theorem reads_single : Reads g.stmt fun stmt => [.body ⟨stmt.span, [stmt]⟩] :=
  fun s hs => (hg.stmt s hs).mono fun _ _ _ hrow => hrow.around rfl (.refl _) rfl

theorem reads_loopBody (endWord : String) : Reads (loopBody g endWord) fun b => [.body b] := by
  intro s hs
  refine (looks_atMark _).see fun found => ?_
  cases found with
  | true => exact reads_colonBody hg endWord s hs
  | false => exact (At.start hs).read (reads_single hg) fun stmt _ h => h.pure h.row

/-! ### Conditionals -/

/-- A branch between colons ends where the next token starts. -/
theorem ends_colonBranch (hs : s.Ordered) (c : Option Expr) :
    Ends (colonBranch g c) s fun b s' =>
      b.condition = c ∧ Row s.offset [.body b.body] s'.offset := by
  refine (At.start hs).read (reads_expectMark _) fun colon _ h => ?_
  refine h.read (reads_statements hg _) fun ss s' h => At.offset (h.pure ⟨rfl, ?_⟩)
  have hstart := (h.row.inside _ List.mem_cons_self).1
  have hrow := h.row.mono (Nat.le_refl _) h.ordered.last_le_offset
  have hbody : Row colon.span.start [.body ⟨⟨colon.span.start, s'.offset⟩, ss⟩] s'.offset :=
    hrow.fromFirst.wrapBehind rfl rfl rfl
  exact hbody.mono hstart (Nat.le_refl _)

theorem ends_plainBranch (hs : s.Ordered) (c : Option Expr) :
    Ends (plainBranch g c) s fun b s' =>
      b.condition = c ∧ Row s.offset [.body b.body] s'.last :=
  (At.start hs).read (reads_single hg) fun _ _ h => h.pure ⟨rfl, h.row⟩

/-- The branches stand in a row if each one stands behind its condition. -/
theorem ends_branchesFrom {branch : Option Expr → Reader (Branch Expr Stmt)}
    {C : List Node → State → Prop} (hordered : ∀ ns s, C ns s → s.Ordered)
    (hword : ∀ ns s word, C ns s →
      Ends (eatReserved word) s fun found s' => bif found then At i ns s' else C ns s')
    (hbranch : ∀ ns s c, At i (ns ++ c.toList.map .expr) s →
      Ends (branch c) s fun b s' => C (ns ++ Node.partsOfBranch b) s')
    {first : Branch Expr Stmt} (h : C (ns ++ Node.partsOfBranch first) s) :
    Ends (branchesFrom g branch first) s fun bs s' =>
      C (ns ++ bs.flatMap Node.partsOfBranch) s' := by
  have hadd : ∀ bs s c, At i (ns ++ bs.flatMap Node.partsOfBranch ++ c.toList.map .expr) s →
      Ends (branch c) s fun b s' => C (ns ++ (bs ++ [b]).flatMap Node.partsOfBranch) s' := by
    intro bs s c h
    refine (hbranch _ s c h).mono fun b s' _ hb => ?_
    rwa [List.flatMap_append, List.flatMap_singleton, ← List.append_assoc]
  refine Ends.repeatFrom (I := fun bs s' => C (ns ++ bs.flatMap Node.partsOfBranch) s')
    (fun _ _ => hordered _ _) (fun bs s h => ?_) (by rwa [List.flatMap_singleton])
  refine .bind (hword _ s _ h) fun isElseif s' hleads h => ?_
  cases isElseif with
  | true =>
    refine At.read h (reads_condition hg) fun c _ h => ?_
    exact .bind (hadd bs _ (some c) h) fun _ _ hleads h => .pure hleads.ordered h
  | false =>
    refine .bind (hword _ s' _ h) fun isElse s' hleads h => ?_
    cases isElse with
    | true =>
      have h : At i (ns ++ bs.flatMap Node.partsOfBranch ++ []) s' := by
        rwa [List.append_nil]
      exact .bind (hadd bs s' none h) fun _ _ hleads h => .pure hleads.ordered h
    | false => exact .pure hleads.ordered h

theorem ends_colonBranches {first : Branch Expr Stmt}
    (h : Ahead i (ns ++ Node.partsOfBranch first) s) :
    Ends (branchesFrom g (colonBranch g) first) s fun bs s' =>
      Ahead i (ns ++ bs.flatMap Node.partsOfBranch) s' := by
  refine ends_branchesFrom hg (C := Ahead i) (fun _ _ h => h.ordered)
    (fun _ _ word h => ends_eatReserved h word) (fun ns s c h => ?_) h
  refine (ends_colonBranch hg h.ordered c).mono fun b s' hleads hb => ?_
  obtain ⟨rfl, hrow⟩ := hb
  have h := h.ahead hleads hrow
  rwa [List.append_assoc] at h

theorem ends_plainBranches {first : Branch Expr Stmt}
    (h : At i (ns ++ Node.partsOfBranch first) s) :
    Ends (branchesFrom g (plainBranch g) first) s fun bs s' =>
      At i (ns ++ bs.flatMap Node.partsOfBranch) s' := by
  refine ends_branchesFrom hg (i := i) (C := At i) (fun _ _ h => h.ordered) (fun ns s word h => ?_)
    (fun ns s c h => ?_) h
  · refine (passes_eatReserved word s h.ordered).mono fun found s' hleads _ => ?_
    cases found with
    | true => exact h.lead hleads
    | false => exact h.lead hleads
  · refine (ends_plainBranch hg h.ordered c).mono fun b s' hleads hb => ?_
    obtain ⟨rfl, hrow⟩ := hb
    have h := h.append hleads hrow
    rwa [List.append_assoc] at h

theorem ends_ifStatement (h : At start [t] s) : Ends (ifStatement g start) s (Stands start) := by
  refine h.read (reads_condition hg) fun c _ h => ?_
  refine (looks_atMark _).see fun colons => ?_
  cases colons with
  | true =>
    refine .bind (ends_colonBranch hg h.ordered (some c)) fun first s' hleads hfirst => ?_
    obtain ⟨hcondition, hrow⟩ := hfirst
    have h : Ahead start ([t] ++ Node.partsOfBranch first) s' := by
      have h := h.ahead hleads hrow
      rwa [Node.partsOfBranch, hcondition]
    refine .bind (ends_colonBranches hg h) fun bs _ _ h => ?_
    refine h.read (reads_expect _) (fun _ _ hnil => absurd hnil (List.cons_ne_nil _ _)) ?_
    refine fun _ _ _ h => h.skip passes_terminator fun _ _ h => At.lastStop (h.pure ?_)
    exact .closed (h.row.wrapBehind rfl rfl rfl) rfl
  | false =>
    refine .bind (ends_plainBranch hg h.ordered (some c)) fun first s' hleads hfirst => ?_
    obtain ⟨hcondition, hrow⟩ := hfirst
    have h : At start ([t] ++ Node.partsOfBranch first) s' := by
      have h := h.append hleads hrow
      rwa [Node.partsOfBranch, hcondition]
    refine .bind (ends_plainBranches hg h) fun bs _ _ h => At.lastStop (h.pure ?_)
    exact .closed (h.row.wrapBehind rfl rfl rfl) rfl

/-! ### Loops and cases -/

theorem ends_forStatement (h : At start [t] s) : Ends (forStatement g start) s (Stands start) := by
  have hlist : ∀ stop, Reads (commaList stop (g.expr Level.lowest)) fun es => es.map .expr :=
    fun stop => ((hg.expr _).commaList stop).nodes
  refine h.skip (reads_expectMark _).passes fun _ _ h => ?_
  refine h.read (hlist _) fun initial _ h => ?_
  refine h.skip (reads_expectMark _).passes fun _ _ h => ?_
  refine h.read (hlist _) fun conditions _ h => ?_
  refine h.skip (reads_expectMark _).passes fun _ _ h => ?_
  refine h.read (hlist _) fun steps _ h => ?_
  refine h.skip (reads_expectMark _).passes fun _ _ h => ?_
  refine h.read (reads_loopBody hg _) fun body _ h => At.lastStop (h.pure (.closed ?_ rfl))
  refine h.row.wrap (List.cons_ne_nil _ _) rfl ?_ rfl
  simp [Node.parts, Node.partsOfStmt]

theorem reads_eachTarget :
    Reads (eachTarget g) fun pair => pair.1.toList.map .expr ++ [.expr pair.2] := by
  intro s hs
  refine (At.start hs).read (hg.expr _) fun first _ h => ?_
  refine h.skip (passes_eatMark _) fun isKey _ h => ?_
  cases isKey with
  | true => exact h.read (hg.expr _) fun value _ h => h.pure h.row
  | false => exact h.pure h.row

theorem ends_foreachStatement (h : At start [t] s) :
    Ends (foreachStatement g start) s (Stands start) := by
  refine h.skip (reads_expectMark _).passes fun _ _ h => ?_
  refine h.read (hg.expr _) fun subject _ h => ?_
  refine h.skip (reads_expect _).passes fun _ _ h => ?_
  refine h.read (reads_eachTarget hg) fun pair _ h => ?_
  obtain ⟨key, target⟩ := pair
  refine h.skip (reads_expectMark _).passes fun _ _ h => ?_
  refine h.read (reads_loopBody hg _) fun body _ h => At.lastStop (h.pure (.closed ?_ rfl))
  refine h.row.wrap (List.cons_ne_nil _ _) rfl ?_ rfl
  simp [Node.parts, Node.partsOfStmt]

theorem reads_caseCondition : Reads (caseCondition g) fun c => c.toList.map .expr := by
  intro s hs
  refine (At.start hs).skip (passes_eatReserved _) fun isDefault _ h => ?_
  cases isDefault with
  | true => exact h.pure Row.nil
  | false =>
    refine h.skip (reads_expect _).passes fun _ s' h => ?_
    exact .map ((hg.expr _ s' h.ordered).mono fun _ _ _ hrow => hrow.mono h.base (Nat.le_refl _))

omit hg in
theorem reads_caseSeparator : Reads caseSeparator fun t => [t.node] := by
  intro s hs
  refine (At.start hs).read (reads_eat _) fun colon s' h => ?_
  cases colon with
  | some colon => exact h.pure h.row
  | none =>
    exact (reads_expectMark _ s' h.ordered).mono fun _ _ _ hrow => hrow.mono h.base (Nat.le_refl _)

theorem reads_switchCase : Reads (switchCase g) fun b => [.case b] := by
  intro s hs
  refine At.offset ?_
  refine (At.start hs).read (reads_caseCondition hg) fun c _ h => ?_
  refine h.read reads_caseSeparator fun separator _ h => ?_
  refine h.read (reads_statements hg _) fun ss _ h => At.lastStop (h.pure ?_)
  refine h.row.wrap (by simp) rfl ?_ rfl
  exact (List.sublist_append_left _ _).append (.refl _)

omit hg in
theorem looks_atTerminator : Looks atTerminator :=
  (looks_atMark _).bind fun _ => (looks_isAt _ _).bind fun _ => .pure _

theorem reads_switchCases : Reads (switchCases g) fun bs => bs.map .case := by
  have hcases : Reads (repeatFrom [] fun (bs : List (Branch Expr Stmt)) => do
      if (← atReserved "case") || (← atReserved "default") then
        return .inl (bs ++ [← switchCase g])
      else return .inr bs) fun bs => bs.map .case := by
    refine .repeatFrom rfl fun i bs s h => ?_
    refine (looks_atReserved _).see fun _ => (looks_atReserved _).see fun _ => ?_
    split
    · refine h.read (reads_switchCase hg) fun b _ h => h.pure ?_
      rwa [Sum.elim_inl, List.map_append]
    · exact h.pure h
  intro s hs
  refine looks_atTerminator.see fun found => ?_
  cases found with
  | false => exact hcases s hs
  | true =>
    refine (At.start hs).skip passes_terminator fun _ s' h => ?_
    exact (hcases s' h.ordered).mono fun _ _ _ hrow => hrow.mono h.base (Nat.le_refl _)

theorem reads_switchBody : Reads (switchBody g) fun bs => bs.map .case := by
  intro s hs
  refine (At.start hs).skip (passes_eatMark _) fun colon _ h => ?_
  cases colon with
  | true =>
    refine h.read (reads_switchCases hg) fun bs _ h => ?_
    refine h.skip (reads_expect _).passes fun _ _ h => ?_
    exact h.skip passes_terminator fun _ _ h => h.pure h.row
  | false =>
    refine h.skip (reads_expectMark _).passes fun _ _ h => ?_
    refine h.read (reads_switchCases hg) fun bs _ h => ?_
    exact h.skip (reads_expectMark _).passes fun _ _ h => h.pure h.row

theorem ends_switchStatement (h : At start [t] s) :
    Ends (switchStatement g start) s (Stands start) := by
  refine h.read (reads_condition hg) fun subject _ h => ?_
  refine h.read (reads_switchBody hg) fun bs _ h => At.lastStop (h.pure (.closed ?_ rfl))
  exact h.row.wrapBehind rfl rfl rfl

/-! ### Exceptions -/

theorem ends_catchClause (h : At start [t] s) :
    Ends (catchClause g start) s fun c s' => Row start [.clause c] s'.last := by
  refine h.skip (reads_expectMark _).passes fun _ _ h => ?_
  refine h.skip passes_hint fun _ _ h => ?_
  refine h.skip (reads_eat _).passes fun _ _ h => ?_
  refine h.skip (reads_expectMark _).passes fun _ _ h => ?_
  refine h.read (reads_block hg) fun body _ h => h.pure ?_
  exact h.row.wrapTo rfl (List.sublist_cons_self _ _) rfl

theorem reads_catchClauses : Reads (catchClauses g) fun cs => cs.map .clause := by
  refine .repeatFrom rfl fun i cs s h => ?_
  refine h.read (reads_eat _) fun word _ h => ?_
  cases word with
  | none => exact h.pure (by simpa using h)
  | some word =>
    refine h.replace (P := fun c => [.clause c]) (fun h => ends_catchClause hg h) ?_
    exact fun c _ h => h.pure (by simpa using h)

theorem ends_tryStatement (h : At start [t] s) : Ends (tryStatement g start) s (Stands start) := by
  refine h.read (reads_block hg) fun body _ h => ?_
  refine h.read (reads_catchClauses hg) fun catches _ h => ?_
  refine h.read (reads_eat _) fun word _ h => ?_
  cases word with
  | none =>
    refine At.lastStop (h.pure (.closed ?_ rfl))
    refine h.row.wrap (List.cons_ne_nil _ _) rfl ?_ rfl
    simp [Node.parts, Node.partsOfStmt]
  | some word =>
    refine h.read (reads_block hg) fun ensure s' h => At.lastStop (h.pure (.closed ?_ rfl))
    have hword := h.row.inside word.node (by simp)
    have hproper := h.row.proper word.node (by simp)
    refine h.row.wrapAll (List.cons_ne_nil _ _) rfl ?_ ?_
    · simp only [List.append_assoc]
      exact .cons _ (.cons_cons _ ((List.Sublist.refl _).append (List.sublist_cons_self _ _)))
    · exact List.forall_mem_singleton.2
        ⟨hword.1, Nat.le_of_lt (Nat.lt_of_lt_of_le hproper hword.2)⟩

/-! ### Namespaces and imports -/

omit hg in
theorem passes_importKind : Passes importKind := by
  refine (passes_eatReserved _).bind fun _ => ?_
  split
  · exact .pure _
  · refine (passes_eatReserved _).bind fun _ => ?_
    split <;> exact .pure _

omit hg in
theorem passes_importAlias : Passes importAlias := by
  refine (passes_eatReserved _).bind fun _ => ?_
  split
  · exact reads_declaredName.passes.bind fun _ => .pure _
  · exact .pure _

omit hg in
theorem passes_useItem (kind : Option SymbolKind) (group : Option String) :
    Passes (useItem kind group) := by
  unfold useItem
  extract_lets item
  have hitem : ∀ own, Passes (item own) := fun own =>
    reads_anyName.passes.bind fun _ => passes_importAlias.bind fun _ => .pure _
  split
  · exact passes_importKind.bind hitem
  · exact Passes.bind (.pure _) hitem

omit hg in
theorem ends_useStatement (h : At start [t] s) : Ends (useStatement start) s (Stands start) := by
  refine h.skip passes_importKind fun kind _ h => ?_
  refine (looks_isAt _ _).see fun _ => (looks_isAt _ _).see fun _ => ?_
  dsimp only
  split
  · refine h.skip reads_anyName.passes fun group _ h => ?_
    refine h.skip reads_next.passes fun _ _ h => ?_
    refine h.skip reads_next.passes fun _ _ h => ?_
    refine h.skip (Reads.commaList _ (passes_useItem _ _)).passes fun items _ h => ?_
    refine h.skip (reads_expectMark _).passes fun _ _ h => ?_
    refine h.terminator fun _ h => h.pure (.closed ?_ rfl)
    exact h.row.wrap (List.cons_ne_nil _ _) rfl (List.nil_sublist _) rfl
  · refine h.skip (Reads.commaList1 (passes_useItem _ _)).passes fun items _ h => ?_
    refine h.terminator fun _ h => h.pure (.closed ?_ rfl)
    exact h.row.wrap (List.cons_ne_nil _ _) rfl (List.nil_sublist _) rfl

omit hg in
theorem passes_namespaceName : Passes namespaceName := by
  refine (looks_kindAt _).passes.bind fun kind => ?_
  cases kind with
  | none => exact .pure _
  | some kind =>
    dsimp only
    split
    · exact Reads.map reads_anyName.passes
    · exact .pure _

/-- A namespace is read, and without braces it runs to the next one. -/
theorem ends_namespaceStatement (h : At start [t] s) :
    Ends (namespaceStatement g start) s fun stmt s' =>
      Stands start stmt s' ∧ stmt.namespace?.isSome = true := by
  refine h.skip passes_namespaceName fun name _ h => ?_
  refine (looks_atMark _).see fun braced => ?_
  cases braced with
  | true =>
    refine .bind (ends_block hg h.ordered) fun body s' hleads hbody => ?_
    obtain ⟨opening, closing, hspan, hrow⟩ := hbody
    have hrow : Row start (t :: opening.node :: body.statements.map .stmt ++ [closing.node])
        s'.last := (h.append hleads hrow).row
    refine .pure hleads.ordered ⟨.closed (hrow.wrapTo ?_ ?_ rfl) rfl, rfl⟩
    · exact congrArg (fun span => (⟨start, span.stop⟩ : Span)) hspan
    · exact .cons _ (middle_sublist _)
  | false =>
    refine h.skip passes_terminator fun _ _ h => ?_
    refine .bind (ends_statements_row hg h.ordered _) fun ss s' hleads hss => At.lastStop ?_
    have h := h.append hleads hss.1
    refine h.pure ⟨⟨?_, fun _ => hss.2⟩, rfl⟩
    exact h.row.wrapBehind rfl rfl rfl

/-! ### Other statements -/

theorem reads_staticItem : Reads (staticItem g) fun e => [.expr e] := by
  intro s hs
  refine (At.start hs).read (reads_expect _) fun name _ h => ?_
  have h : At s.offset ([] ++ [.expr (.var name.span name.text)]) _ := h.exchange rfl rfl rfl
  refine h.skip (passes_eatMark _) fun isAssigned _ h => ?_
  cases isAssigned with
  | false => exact h.pure h.row
  | true =>
    refine h.read (hg.expr _) fun value _ h => h.pure ?_
    exact h.row.wrapThrough rfl (.refl _) rfl

theorem ends_declareStatement (h : At start [t] s) :
    Ends (declareStatement g start) s (Stands start) := by
  have hdirective : Passes (do let _ ← memberName; let _ ← expectMark "="; g.expr Level.lowest) :=
    reads_memberName.passes.bind fun _ => (reads_expectMark _).passes.bind fun _ =>
      (hg.expr _).passes
  refine h.skip (reads_expectMark _).passes fun _ _ h => ?_
  refine h.skip (Reads.commaList _ hdirective).passes fun _ _ h => ?_
  refine h.skip (reads_expectMark _).passes fun _ _ h => ?_
  refine looks_atTerminator.see fun ended => ?_
  cases ended with
  | true =>
    refine h.terminator fun _ h => h.pure (.closed ?_ rfl)
    exact h.row.wrap (List.cons_ne_nil _ _) rfl (List.nil_sublist _) rfl
  | false =>
    refine h.read (reads_loopBody hg _) fun body _ h => At.lastStop (h.pure (.closed ?_ rfl))
    exact h.row.wrapBehind rfl rfl rfl

theorem ends_expressionStatement (hs : s.Ordered) :
    Ends (expressionStatement g) s (Stands s.offset) := by
  refine At.offset ?_
  refine (At.start hs).read (hg.expr _) fun e _ h => ?_
  refine h.terminator fun _ h => h.pure (.closed ?_ rfl)
  exact h.row.wrap (List.cons_ne_nil _ _) rfl (.refl _) rfl

/-- The names of constants stand in the statement. -/
theorem ends_constStatement (h : At start [t] s) :
    Ends (constStatement g start) s (Stands start) := by
  refine h.readList (reads_constItem hg) fun item items _ h => ?_
  refine h.terminator fun s' h => h.pure (.closed ?_ rfl)
  refine h.row.wrapAll (List.cons_ne_nil _ _) rfl ((values_sublist (item :: items)).cons _) ?_
  -- only the names of the items are offsets
  intro o ho
  rw [Node.offsets, List.mem_append] at ho
  obtain ho | ho := ho
  · obtain ⟨item', hitem, rfl⟩ := List.mem_map.1 ho
    have hname : Node.name item'.name ∈ [t] ++ (item :: items).flatMap itemNodes :=
      List.mem_append_right _ (List.mem_flatMap.2 ⟨item', hitem, List.mem_cons_self⟩)
    have hinside := h.row.inside _ hname
    have hproper := h.row.proper _ hname
    exact ⟨hinside.1, Nat.le_of_lt (Nat.lt_of_lt_of_le hproper hinside.2)⟩
  · exact absurd ho List.not_mem_nil

omit hg in
theorem looks_atClass : Looks atClass := by
  refine (looks_kindAt _).bind fun kind => ?_
  split
  · exact .pure _
  · exact .pure _
  · exact .pure _
  · exact .pure _
  · exact .pure _
  · refine (looks_wordAt _).bind fun word => ?_
    split
    · exact looks_isAt _ _
    · exact (looks_isAt _ _).bind fun _ => (looks_isAt _ _).bind fun _ =>
        (looks_isAt _ _).bind fun _ => .pure _
    · exact .pure _
  · exact .pure _

omit hg in
theorem looks_atFunction : Looks atFunction := by
  refine (looks_atReserved _).bind fun _ => ?_
  split
  · exact (looks_isAt _ _).bind fun _ => (looks_isAt _ _).bind fun _ =>
      (looks_isAt _ _).bind fun _ => .pure _
  · exact .pure _

theorem ends_classStatement (h : At start [] s) :
    Ends (.classlike <$> classDecl g start) s (Stands start) :=
  .map ((ends_classDecl hg h).mono fun _ _ _ hrow => .closed hrow rfl)

theorem ends_functionStatement (h : At start [] s) :
    Ends (.function <$> functionDecl g start) s (Stands start) :=
  .map ((ends_functionDecl hg h).mono fun _ _ _ hrow => .closed hrow rfl)

theorem ends_attributed (hs : s.Ordered) : Ends (attributed g) s (Stands s.offset) := by
  refine .bind (ends_attributedStart hs) fun start s₁ hattributes hstart => ?_
  subst hstart
  have h := (At.start hs).lead hattributes
  refine looks_atClass.see fun isClass => ?_
  cases isClass with
  | true => exact ends_classStatement hg h
  | false =>
    refine looks_atFunction.see fun isFunction => ?_
    cases isFunction with
    | true => exact ends_functionStatement hg h
    | false =>
      refine h.read (reads_eat _) fun word _ h => ?_
      cases word with
      | some word =>
        -- constants start behind their attributes
        have hstart := (h.row.inside _ List.mem_cons_self).1
        exact (ends_constStatement hg h.fromFirst).mono fun _ _ _ hstands => hstands.mono hstart
      | none =>
        refine .bind (ends_functionLike hg h) fun left _ hleads hrow => ?_
        have h := h.become hleads hrow
        refine .bind (ends_extendAll hg _ h) fun e _ hleads hrow => ?_
        refine (h.become hleads hrow).terminator fun _ h => h.pure (.closed ?_ rfl)
        exact h.row.wrap (List.cons_ne_nil _ _) rfl (.refl _) rfl

theorem reads_exprIfAny : Reads (exprIfAny g) fun e => e.toList.map .expr := by
  intro s hs
  refine looks_atTerminator.see fun ended => ?_
  cases ended with
  | true => exact .pure hs Row.nil
  | false => exact .map (hg.expr _ s hs)

/-! ### All statements -/

omit hg in
/-- A word, nodes and a terminator. -/
theorem ends_keywordThrough {α : Type} (hs : s.Ordered) {x : Reader α} {P : α → List Node}
    (hx : Reads x P) (node : Span → α → Stmt)
    (hnode : ∀ span a, (Node.stmt (node span a)).span = span ∧
      (Node.stmt (node span a)).parts = P a ∧ (Node.stmt (node span a)).offsets = [] ∧
      (node span a).isOpenSpace = false) :
    Ends (do
      let _ ← next
      let a ← x
      return some (node ⟨s.offset, ← terminator⟩ a)) s fun r s' =>
        r.elim True (Stands s.offset · s') := by
  refine (At.start hs).read reads_next fun t _ h => ?_
  refine h.read hx fun a _ h => ?_
  refine h.terminator fun s' h => h.pure ?_
  obtain ⟨hspan, hparts, hoffsets, hclosed⟩ := hnode ⟨s.offset, s'.last⟩ a
  refine .closed (h.row.wrap (List.cons_ne_nil _ _) hspan ?_ hoffsets) hclosed
  rw [hparts]
  exact List.sublist_cons_self _ _

theorem ends_reservedStatement (hs : s.Ordered) (word : String) :
    Ends (reservedStatement g word s.offset) s fun r s' =>
      r.elim True (Stands s.offset · s') := by
  have h := At.start hs
  have hexprs : Reads (commaList1 (g.expr Level.lowest)) fun es => es.map .expr :=
    (hg.expr _).commaList1.nodes
  unfold reservedStatement
  split
  · -- `if`
    exact ends_behindToken hs fun _ _ h => ends_ifStatement hg h
  · -- `while`
    refine h.read reads_next fun t _ h => ?_
    refine h.read (reads_condition hg) fun c _ h => ?_
    refine h.read (reads_loopBody hg _) fun body _ h => At.lastStop (h.pure (.closed ?_ rfl))
    exact h.row.wrapBehind rfl rfl rfl
  · -- `do`
    refine h.read reads_next fun t _ h => ?_
    refine h.read (reads_single hg) fun stmt _ h => ?_
    refine h.skip (reads_expect _).passes fun _ _ h => ?_
    refine h.read (reads_condition hg) fun c _ h => ?_
    refine h.terminator fun _ h => h.pure (.closed ?_ rfl)
    exact h.row.wrapBehind rfl rfl rfl
  · -- `for`
    exact ends_behindToken hs fun _ _ h => ends_forStatement hg h
  · -- `foreach`
    exact ends_behindToken hs fun _ _ h => ends_foreachStatement hg h
  · -- `switch`
    exact ends_behindToken hs fun _ _ h => ends_switchStatement hg h
  · -- `try`
    exact ends_behindToken hs fun _ _ h => ends_tryStatement hg h
  · -- `const`
    exact ends_behindToken hs fun _ _ h => ends_constStatement hg h
  · -- `use`
    exact ends_behindToken hs fun _ _ h => ends_useStatement h
  · -- `namespace`
    refine ends_behindToken hs fun _ _ h => ?_
    exact (ends_namespaceStatement hg h).mono fun _ _ _ hstmt => hstmt.1
  · -- `echo`
    exact ends_keywordThrough hs hexprs .echo fun _ _ => ⟨rfl, rfl, rfl, rfl⟩
  · -- `return`
    exact ends_keywordThrough hs (reads_exprIfAny hg) .ret fun _ _ => ⟨rfl, rfl, rfl, rfl⟩
  · -- `break` and `continue`
    exact ends_keywordThrough hs (reads_exprIfAny hg) .jump fun _ _ => ⟨rfl, rfl, rfl, rfl⟩
  · exact ends_keywordThrough hs (reads_exprIfAny hg) .jump fun _ _ => ⟨rfl, rfl, rfl, rfl⟩
  · -- `goto`
    exact ends_keywordThrough hs reads_declaredName.passes (fun span _ => .goto span)
      fun _ _ => ⟨rfl, rfl, rfl, rfl⟩
  · -- `global`
    exact ends_keywordThrough hs hexprs .global fun _ _ => ⟨rfl, rfl, rfl, rfl⟩
  · -- `unset`
    refine h.read reads_next fun t _ h => ?_
    refine h.skip (reads_expectMark _).passes fun _ _ h => ?_
    refine h.read ((hg.expr _).commaList _).nodes fun es _ h => ?_
    refine h.skip (reads_expectMark _).passes fun _ _ h => ?_
    refine h.terminator fun _ h => h.pure (.closed ?_ rfl)
    exact h.row.wrapBehind rfl rfl rfl
  · -- `declare`
    exact ends_behindToken hs fun _ _ h => ends_declareStatement hg h
  · -- `static`
    refine (looks_isAt _ _).see fun found => ?_
    cases found with
    | true =>
      exact ends_keywordThrough hs (reads_staticItem hg).commaList1.nodes .statics
        fun _ _ => ⟨rfl, rfl, rfl, rfl⟩
    | false => exact .pure hs trivial
  · -- no other word begins a statement
    exact .pure hs trivial

/-- A statement stands where its first token stands. -/
theorem ends_statement (hs : s.Ordered) : Ends (statement g) s (Stands s.offset) := by
  obtain ⟨tokens, last, failures⟩ := s
  refine At.peek ?_
  cases tokens with
  | nil => exact looks_endFailure.see fun _ => .throw hs
  | cons t ts =>
    have h := At.start hs
    have hleaf : ∀ stmt : Stmt, (Node.stmt stmt).span = t.span → (Node.stmt stmt).parts = [] →
        (Node.stmt stmt).offsets = [] → stmt.isOpenSpace = false →
        Ends (do let _ ← next; return stmt) ⟨t :: ts, last, failures⟩ (Stands t.span.start) :=
      fun stmt hspan hparts hoffsets hclosed => h.next rfl fun _ h =>
        h.pure (.closed (h.row.exchange hspan hparts hoffsets) hclosed)
    dsimp only [List.head?_cons]
    split
    · -- tags and the text between them
      exact hleaf _ rfl rfl rfl rfl
    · exact hleaf _ rfl rfl rfl rfl
    · exact hleaf _ rfl rfl rfl rfl
    · -- tags that print
      refine h.read reads_next fun _ _ h => ?_
      refine h.read (hg.expr _).commaList1.nodes fun es _ h => ?_
      refine h.terminator fun _ h => h.pure (.closed ?_ rfl)
      exact h.row.wrapBehind rfl rfl rfl
    · -- empty statements
      exact hleaf _ rfl rfl rfl rfl
    · -- blocks
      refine .bind (ends_block hg hs) fun body _ hleads hbody => ?_
      obtain ⟨opening, closing, hspan, hrow⟩ := hbody
      exact .pure hleads.ordered (.closed (hrow.wrapThrough hspan (middle_sublist _) rfl) rfl)
    · -- attributes
      exact ends_attributed hg hs
    · -- labels, enums, and expressions that begin with a word
      refine (looks_isAt _ _).see fun isLabel => ?_
      cases isLabel with
      | true =>
        refine h.read reads_next fun _ _ h => ?_
        refine h.skip reads_next.passes fun _ _ h => At.lastStop (h.pure (.closed ?_ rfl))
        exact h.row.wrap (List.cons_ne_nil _ _) rfl (List.nil_sublist _) rfl
      | false =>
        refine looks_atClass.see fun isClass => ?_
        cases isClass with
        | true => exact ends_classStatement hg h
        | false => exact ends_expressionStatement hg hs
    · -- reserved words
      refine looks_atClass.see fun isClass => ?_
      cases isClass with
      | true => exact ends_classStatement hg h
      | false =>
        refine looks_atFunction.see fun isFunction => ?_
        cases isFunction with
        | true => exact ends_functionStatement hg h
        | false =>
          refine .bind (ends_reservedStatement hg hs _) fun stmt s' hleads hstmt => ?_
          cases stmt with
          | some stmt => exact .pure hleads.ordered hstmt
          | none =>
            exact (ends_expressionStatement hg hleads.ordered).mono fun _ _ _ hstands =>
              hstands.mono hleads.offset
    · -- all else is an expression
      exact ends_expressionStatement hg hs

/-- At the word `namespace` a namespace is read. -/
theorem ends_statement_namespace (hs : s.Ordered)
    (hstops : s.Stops (· == .reserved "namespace")) :
    Ends (statement g) s fun stmt _ => stmt.namespace?.isSome = true := by
  obtain ⟨tokens, last, failures⟩ := s
  cases tokens with
  | nil => exact At.peek (looks_endFailure.see fun _ => .throw hs)
  | cons t ts =>
    obtain ⟨kind, span, text⟩ := t
    obtain rfl : kind = .reserved "namespace" := eq_of_beq (hstops _ rfl)
    -- the word begins neither a class nor a function
    refine At.peek (.see (a := false) rfl (.see (a := false) rfl ?_))
    refine .bind (P := fun r _ => ∃ stmt : Stmt, r = some stmt ∧ stmt.namespace?.isSome = true)
      ?_ fun r s' hleads hr => ?_
    · refine (At.start hs).read reads_next fun t s' h => .map ?_
      exact (ends_namespaceStatement hg h).mono fun stmt _ _ hstmt => ⟨stmt, rfl, hstmt.2⟩
    · obtain ⟨stmt, rfl, hstmt⟩ := hr
      exact .pure hleads.ordered hstmt

end Reader

theorem Grammar.inOrder_ofDepth (n : Nat) : (Grammar.ofDepth n).InOrder := by
  induction n with
  | zero => exact ⟨fun _ s hs => hs.leads, fun s hs => hs.leads⟩
  | succ n ih =>
    exact
      { expr := fun level => Reader.reads_expression ih level
        stmt := fun s hs =>
          (Reader.ends_statement ih hs).mono fun _ _ _ hstands => hstands.row }

end PhpAtlas
