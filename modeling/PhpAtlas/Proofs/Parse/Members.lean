import PhpAtlas.Proofs.Parse.Signatures
import PhpAtlas.Source.Parse.Member

/-!
# Reading members in order

The members of a classlike stand in a row, and so do the name, the default values and the body of a
function or a method.

## Main results

* `Reader.reads_constItem`, `Reader.reads_propertyItem` — names with values.
* `Reader.reads_member`, `Reader.reads_classBody` — members.
* `Reader.ends_classDecl`, `Reader.ends_anonymousClass`, `Reader.ends_functionDecl` — declarations.
-/

namespace PhpAtlas

open Parse (State Failure)

namespace Reader

variable {g : Grammar} (hg : g.InOrder) {s : State} {start : Nat} {ms : List Modifier}

include hg

/-! ### Items -/

omit hg in
theorem ends_attributedStart (hs : s.Ordered) :
    Ends attributedStart s fun n _ => n = s.offset := by
  refine At.offset ?_
  exact (At.start hs).skip passes_skipAttributes fun _ _ h => h.pure rfl

/-- The name and the value of an item. -/
def itemNodes (item : Item Expr) : List Node := .name item.name :: item.value.toList.map .expr

omit hg in
theorem values_sublist (items : List (Item Expr)) :
    ((items.flatMap (·.value.toList)).map Node.expr).Sublist (items.flatMap itemNodes) := by
  induction items with
  | nil => exact .refl _
  | cons item items ih =>
    rw [List.flatMap_cons, List.flatMap_cons, List.map_append]
    exact (List.sublist_cons_self _ _).append ih

theorem reads_constItem : Reads (constItem g) itemNodes := by
  intro s hs
  refine (At.start hs).read reads_memberName fun name _ h => ?_
  refine h.skip (reads_expectMark _).passes fun _ _ h => ?_
  exact h.read (hg.expr _) fun value _ h => h.pure h.row

theorem reads_propertyItem : Reads (propertyItem g) itemNodes := by
  intro s hs
  refine (At.start hs).read (reads_expect _) fun name _ h => ?_
  exact h.read (reads_assigned hg) fun value _ h => h.pure h.row

/-! ### Trait uses -/

omit hg

theorem passes_aliasVisibility : Passes aliasVisibility := by
  refine looks_modifier?.passes.bind fun m => ?_
  cases m with
  | none => exact .pure _
  | some m =>
    dsimp only
    split
    · exact reads_next.passes.bind fun _ => .pure _
    · exact .pure _

theorem passes_adaptedMethod : Passes adaptedMethod := by
  refine (looks_kindAt _).passes.bind fun kind => ?_
  extract_lets behindName
  have hbehind : ∀ first, Passes (behindName first) := by
    intro first
    refine (passes_eatMark _).bind fun _ => ?_
    split
    · exact reads_memberName.passes.bind fun _ => .pure _
    · exact .pure _
  split
  · exact reads_memberName.passes.bind hbehind
  · exact reads_anyName.passes.bind hbehind

theorem passes_aliasName : Passes aliasName := by
  refine (looks_kindAt _).passes.bind fun kind => ?_
  cases kind with
  | none => exact .pure _
  | some kind =>
    dsimp only
    split
    · exact Reads.map reads_memberName.passes
    · exact .pure _

theorem passes_adaptationOf (owner : Option String) (method : String) :
    Passes (adaptationOf owner method) := by
  refine (passes_eatReserved _).bind fun _ => ?_
  split
  · exact reads_anyName.commaList1.passes.bind fun _ => .pure _
  · refine (reads_expect _).passes.bind fun _ => passes_aliasVisibility.bind fun _ => ?_
    exact passes_aliasName.bind fun _ => .pure _

theorem passes_adaptation : Passes adaptation := by
  refine passes_adaptedMethod.bind fun pair => ?_
  obtain ⟨owner, method⟩ := pair
  exact (passes_adaptationOf _ _).bind fun _ => passes_terminator.bind fun _ => .pure _

theorem passes_adaptations : Passes adaptations := by
  refine (passes_eatMark _).bind fun _ => ?_
  split
  · refine Passes.bind (.repeatFrom (fun as => ?_) _) fun _ =>
      (reads_expectMark _).passes.bind fun _ => .pure _
    refine (looks_atMark _).passes.bind fun _ => looks_atEnd.passes.bind fun _ => ?_
    split
    · exact .pure _
    · exact passes_adaptation.bind fun _ => .pure _
  · exact passes_terminator.bind fun _ => .pure _

/-! ### Members -/

include hg

theorem reads_methodBody : Reads (methodBody g) fun b => b.toList.map .body := by
  intro s hs
  refine (looks_atMark _).see fun braced => ?_
  cases braced with
  | true => exact (reads_block hg).map s hs
  | false => exact (At.start hs).skip passes_terminator fun _ _ h => h.pure Row.nil

theorem ends_method (h : At start [] s) :
    Ends (method g start ms) s fun m s' => Row start [.member m] s'.last := by
  refine h.skip (reads_expect _).passes fun _ _ h => ?_
  refine h.skip (passes_eatMark _) fun _ _ h => ?_
  refine h.read reads_memberName fun name _ h => ?_
  refine h.read (reads_parameters hg) fun ps _ h => ?_
  refine h.skip passes_returnHint fun returns _ h => ?_
  refine h.read (reads_methodBody hg) fun body _ h => ?_
  exact At.lastStop (h.pure (h.row.wrap (List.cons_ne_nil _ _) rfl (.refl _) rfl))

omit hg in
theorem passes_hintUnless {test : Reader Bool} (h : Looks test) : Passes (hintUnless test) := by
  refine h.passes.bind fun none => ?_
  split
  · exact .pure _
  · exact Reads.map passes_hint

theorem ends_classConstants (h : At start [] s) :
    Ends (classConstants g start ms) s fun m s' => Row start [.member m] s'.last := by
  refine h.skip (reads_expect _).passes fun _ _ h => ?_
  refine h.skip (passes_hintUnless (looks_isAt _ _)) fun hint _ h => ?_
  refine h.readList (reads_constItem hg) fun item items _ h => ?_
  refine h.terminator fun _ h => h.pure ?_
  exact h.row.wrap (List.cons_ne_nil _ _) rfl (values_sublist (item :: items)) rfl

theorem ends_properties (h : At start [] s) :
    Ends (properties g start ms) s fun m s' => Row start [.member m] s'.last := by
  refine h.skip (passes_hintUnless (looks_isAt _ _)) fun hint _ h => ?_
  refine h.readList (reads_propertyItem hg) fun item items _ h => ?_
  refine (looks_atMark _).see fun hooked => ?_
  cases hooked with
  | true =>
    refine h.read (reads_accessors hg) fun hooks _ h => At.lastStop (h.pure ?_)
    exact h.row.wrap (List.cons_ne_nil _ _) rfl
      ((values_sublist (item :: items)).append (.refl _)) rfl
  | false =>
    refine h.terminator fun _ h => h.pure ?_
    refine h.row.wrap (List.cons_ne_nil _ _) rfl ?_ rfl
    simp only [Node.parts, List.map_nil, List.append_nil]
    exact values_sublist (item :: items)

theorem ends_enumCase (h : At start [] s) :
    Ends (enumCase g start) s fun m s' => Row start [.member m] s'.last := by
  refine h.skip (reads_expect _).passes fun _ _ h => ?_
  refine h.read reads_memberName fun name _ h => ?_
  refine h.read (reads_assigned hg) fun value _ h => ?_
  refine h.terminator fun _ h => h.pure (h.row.wrap (List.cons_ne_nil _ _) rfl ?_ rfl)
  exact List.sublist_cons_self _ _

theorem reads_member : Reads (member g) fun m => [.member m] := by
  intro s hs
  refine .bind (ends_attributedStart hs) fun start s₁ hattributes hstart => ?_
  subst hstart
  refine At.offset ?_
  have hinner := At.start hattributes.ordered
  refine .bind (passes_eatReserved _ _ hinner.ordered) fun isUse s₂ huse _ => ?_
  have h : At s.offset [] s₂ := (At.start hs).lead (hattributes.trans huse)
  cases isUse with
  | true =>
    refine h.readList reads_anyName fun name names _ h => ?_
    refine h.skip passes_adaptations fun list _ h => At.lastStop (h.pure ?_)
    exact h.row.wrap (List.cons_ne_nil _ _) rfl (List.nil_sublist _) rfl
  | false =>
    refine (looks_atReserved _).see fun isCase => ?_
    cases isCase with
    | true => exact ends_enumCase hg h
    | false =>
      refine .bind (passes_modifiers _ h.ordered) fun ms s₃ hmodifiers _ => ?_
      have h := h.lead hmodifiers
      refine (looks_kindAt _).see fun kind => ?_
      split
      · exact ends_method hg h
      · -- constants start behind their attributes
        refine (ends_classConstants hg ((hinner.lead huse).lead hmodifiers)).mono ?_
        exact fun _ _ _ hrow => hrow.mono hattributes.offset (Nat.le_refl _)
      · exact ends_properties hg h

theorem reads_classBody : Reads (classBody g) fun ms => ms.map .member := by
  intro s hs
  refine (At.start hs).skip (reads_expectMark _).passes fun _ _ h => ?_
  refine h.read (reads_untilBrace (reads_member hg)) fun ms _ h => ?_
  exact h.skip (reads_expectMark _).passes fun _ _ h => h.pure h.row

/-! ### Declarations -/

omit hg in
theorem passes_namesAfter (word : String) : Passes (namesAfter word) := by
  refine (passes_eatReserved _).bind fun _ => ?_
  split
  · exact reads_anyName.commaList1.passes
  · exact .pure _

omit hg in
theorem looks_classForm? : Looks classForm? := by
  refine (looks_kindAt _).bind fun kind => ?_
  split
  · exact .pure _
  · exact .pure _
  · exact .pure _
  · exact (looks_wordAt _).bind fun _ => (looks_isAt _ _).bind fun _ => .pure _
  · exact .pure _

theorem ends_classDecl (h : At start [] s) :
    Ends (classDecl g start) s fun d s' => Row start [.stmt (.classlike d)] s'.last := by
  refine h.skip passes_modifiers fun ms _ h => ?_
  refine looks_classForm?.see fun form => ?_
  cases form with
  | none => exact .fail h.ordered _
  | some form =>
    refine h.read reads_next fun word _ h => ?_
    refine h.skip reads_declaredName.passes fun name _ h => ?_
    refine h.skip passes_returnHint fun backing _ h => ?_
    refine h.skip (passes_namesAfter _) fun parents _ h => ?_
    refine h.skip (passes_namesAfter _) fun interfaces _ h => ?_
    refine h.read (reads_classBody hg) fun members _ h => At.lastStop (h.pure ?_)
    exact h.row.wrapBehind rfl rfl rfl

/-- A class without a name ends where reading has come to. -/
theorem ends_anonymousClass (hs : s.Ordered) :
    Ends (anonymousClass g start ms) s fun d s' =>
      d.span.stop = s'.last ∧ Row s.offset (d.members.map .member) s'.last := by
  refine (At.start hs).skip (passes_namesAfter _) fun parents _ h => ?_
  refine h.skip (passes_namesAfter _) fun interfaces _ h => ?_
  exact h.read (reads_classBody hg) fun members _ h => At.lastStop (h.pure ⟨rfl, h.row⟩)

theorem ends_functionDecl (h : At start [] s) :
    Ends (functionDecl g start) s fun d s' => Row start [.stmt (.function d)] s'.last := by
  refine h.skip (reads_expect _).passes fun _ _ h => ?_
  refine h.skip (passes_eatMark _) fun _ _ h => ?_
  refine h.read reads_declaredName fun name _ h => ?_
  refine h.read (reads_parameters hg) fun ps _ h => ?_
  refine h.skip passes_returnHint fun returns _ h => ?_
  refine h.read (reads_block hg) fun body _ h => ?_
  exact At.lastStop (h.pure (h.row.wrap (List.cons_ne_nil _ _) rfl (.refl _) rfl))

end Reader
end PhpAtlas
