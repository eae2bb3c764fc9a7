import PhpAtlas.Proofs.Ancestry.Uniqueness

/-!
# Documentation that is taken from an ancestor

A method may ask for the text of an ancestor in the place of its own.  Each method of its name that
a parent or an interface hands down is put in the place of such a request, if it has a comment.
That comment may be a request itself, which is put in place as well and is replaced in turn.  So the
request is replaced in the end by the first comment that is none, and stays if there is no such
comment.

## Main definitions

* `MethodSymbol.fills` — a method with a comment that is no request.
* `FlatClass.seen?` — the documentation of the method that a name stands for, and where the method
  comes from.
* `FlatClass.handedDown` — the methods of a name that parents and interfaces hand down.
* `Tables.fillers` — those of them whose comments are no requests.

## Main results

* `FlatClass.find?_addOr` — what entering a method does to what a name stands for.
* `FlatClass.enters_mergeTraits` — traits and aliases leave what a name stands for.
* `FlatClass.seen?_assemble` — a view takes in what is handed down, one method after the other.
* `FlatClass.foldl_absorb_of_inherits` — a request takes in the first comment that is none.
* `Tables.request_filled_by_first` — a request stays only if nothing can fill it.
-/

namespace PhpAtlas

/-- Whether a method has a comment that is not itself a request for the text of an ancestor. -/
def MethodSymbol.fills (m : MethodSymbol) : Bool :=
  m.documentation.present && !m.documentation.inherits

namespace FlatClass

/-! ### The method that a name stands for -/

theorem namedLike_congr {a b : String} (h : foldEq a b = true) : namedLike a = namedLike b := by
  funext m
  simp only [namedLike, foldEq, foldEq_iff.1 h]

/-- One step: if the new method has the name, the method that the name stands for changes, or is the
new one if there was none. -/
theorem find?_addOr {change : FlatMember MethodSymbol → FlatMember MethodSymbol}
    (hname : ∀ e, (change e).member.name = e.member.name) (n : String) (m : MethodSymbol)
    (methods : List (FlatMember MethodSymbol)) :
    (addOr (namedLike m.name) change (.inherited m) methods).find? (namedLike n) =
      if foldEq m.name n then some ((methods.find? (namedLike n)).elim (.inherited m) change)
      else methods.find? (namedLike n) := by
  have hkeeps : ∀ a e, namedLike a (change e) = namedLike a e := by
    intro a e
    simp only [namedLike, hname]
  unfold addOr
  by_cases hn : foldEq m.name n = true
  · rw [if_pos hn, namedLike_congr hn]
    split
    · rename_i hany
      obtain ⟨e, he⟩ := Option.isSome_iff_exists.1 (List.find?_isSome.2 (List.any_eq_true.1 hany))
      rw [find?_changeFirst (hkeeps n), he]
      rfl
    · rename_i hnone
      have hfree : methods.find? (namedLike n) = none :=
        List.find?_eq_none.2 fun e he hlike => hnone (List.any_eq_true.2 ⟨e, he, hlike⟩)
      rw [List.find?_append, hfree, Option.none_or]
      exact List.find?_cons_of_pos hn
  · rw [if_neg hn]
    split
    · refine find?_changeFirst_of_disjoint (hkeeps n) fun e he => ?_
      rw [← Bool.not_eq_true]
      intro hlike
      -- the method would have both names
      have hen : namedLike n e = true := List.find?_some he
      have hme : foldEq m.name e.member.name = true := by
        rw [foldEq_comm]
        exact hlike
      exact hn (foldEq_trans hme hen)
    · have hother : ¬namedLike n (.inherited m) = true := hn
      rw [List.find?_append, List.find?_cons_of_neg hother, List.find?_nil, Option.or_none]

/-! ### Its documentation -/

/-- The documentation of the method that a name stands for, and where the method comes from. -/
def seen? (n : String) (methods : List (FlatMember MethodSymbol)) :
    Option (Documentation × Origin) :=
  (methods.find? (namedLike n)).map fun e => (e.member.documentation, e.origin)

/-- What is seen of a name once a method of this name is handed down. -/
def absorb : Option (Documentation × Origin) → MethodSymbol → Option (Documentation × Origin)
  | none, m => some (m.documentation, .inherited)
  | some (own, origin), m => some (fillDoc own m.documentation, origin)

/-- What counts of a method here: its name, its documentation, and where it comes from. -/
def labelled (e : FlatMember MethodSymbol) : String × Documentation × Origin :=
  (e.member.name, e.member.documentation, e.origin)

/-- A change of a method that may only fill in a text. -/
def FillsIn (text : Documentation) (change : FlatMember MethodSymbol → FlatMember MethodSymbol) :
    Prop :=
  ∀ e, labelled (change e) = (e.member.name, fillDoc e.member.documentation text, e.origin)

/-- One step: if a method has the name, what is seen of the name absorbs it. -/
theorem seen?_addOr {m : MethodSymbol} {change : FlatMember MethodSymbol → FlatMember MethodSymbol}
    (h : FillsIn m.documentation change) (n : String) (methods : List (FlatMember MethodSymbol)) :
    seen? n (addOr (namedLike m.name) change (.inherited m) methods) =
      ([m].filter fun m => foldEq m.name n).foldl absorb (seen? n methods) := by
  have hname : ∀ e, (change e).member.name = e.member.name := fun e => congrArg Prod.fst (h e)
  rw [seen?, seen?, find?_addOr hname]
  by_cases hn : foldEq m.name n = true
  · rw [if_pos hn]
    simp only [List.filter_cons, hn, if_true]
    cases methods.find? (namedLike n) with
    | none => rfl
    | some e => exact congrArg (fun label => some label.2) (h e)
  · simp [hn]

/-- A run of steps, from what one step does while an invariant holds. -/
theorem seen?_foldl {σ β : Type} (methods : σ → List (FlatMember MethodSymbol))
    (inv : σ → Prop) (step : σ → β → σ) (supply : β → List MethodSymbol) (n : String)
    (hinv : ∀ s b, inv s → inv (step s b))
    (hstep : ∀ s b, inv s →
      seen? n (methods (step s b)) = (supply b).foldl absorb (seen? n (methods s)))
    (l : List β) (s : σ) (hs : inv s) :
    inv (l.foldl step s) ∧ seen? n (methods (l.foldl step s)) =
      (l.flatMap supply).foldl absorb (seen? n (methods s)) := by
  refine foldl_leads inv (fun l s t => seen? n (methods t) =
    (l.flatMap supply).foldl absorb (seen? n (methods s))) (by simp) ?_ hinv l s hs
  intro s b l t hs hrest
  rw [hrest, hstep s b hs, List.flatMap_cons, List.foldl_append]

/-- A run that enters methods one by one. -/
theorem seen?_foldl_add {n : String}
    {add : List (FlatMember MethodSymbol) → FlatMember MethodSymbol →
      List (FlatMember MethodSymbol)}
    (hadd : ∀ methods m, seen? n (add methods m) =
      ([m.member].filter fun m => foldEq m.name n).foldl absorb (seen? n methods))
    (l methods : List (FlatMember MethodSymbol)) :
    seen? n (l.foldl add methods) =
      ((l.map (·.member)).filter fun m => foldEq m.name n).foldl absorb (seen? n methods) := by
  have hrun := (seen?_foldl id (fun _ => True) add _ n (fun _ _ _ => trivial)
    (fun s b _ => hadd s b) l methods trivial).2
  rw [← List.filter_flatMap, ← List.map_eq_flatMap] at hrun
  exact hrun

/-! ### Parents and interfaces -/

theorem seen?_mergeInterface (n : String) (sources : List String) (f view : FlatClass) :
    seen? n (mergeInterface sources f view).methods =
      (view.methodsNamed n).foldl absorb (seen? n f.methods) := by
  have hfills : ∀ text, FillsIn text (fillMethod text) := fun _ _ => rfl
  exact seen?_foldl_add (fun methods m => seen?_addOr (hfills _) n methods) _ _

theorem seen?_mergeInherited (n : String) (f view : FlatClass) :
    seen? n (mergeInherited f view).methods =
      ((view.methodsNamed n).filter (·.visibility ≠ .priv)).foldl absorb (seen? n f.methods) := by
  have hfills : ∀ m : FlatMember MethodSymbol, FillsIn m.member.documentation fun e =>
      fillMethod m.member.documentation (e.shadowing m.member.owner) := fun _ _ => rfl
  rw [← methodsNamed_visible]
  exact seen?_foldl_add (fun methods m => seen?_addOr (hfills m) n methods) _ _

theorem seen?_addParent (n : String) (m : Merge) (a : Ancestor) :
    seen? n (addParent m a).flat.methods =
      (ancestorSupply (parentSupply m.flat.classlike n) a).foldl absorb
        (seen? n m.flat.methods) := by
  unfold addParent ancestorSupply
  dsimp only
  split
  · rename_i hview
    rw [hview]
    rfl
  · rename_i view hview
    rw [hview, Option.map_some, Option.getD_some, parentSupply]
    split
    · rename_i hkind
      simp [seen?_mergeInterface, hkind]
    · rename_i hkind
      simp [seen?_mergeInherited, hkind]

theorem seen?_addInterface (n : String) (m : Merge) (a : Ancestor) :
    seen? n (addInterface m a).flat.methods =
      (ancestorSupply (methodsNamed n) a).foldl absorb (seen? n m.flat.methods) := by
  unfold addInterface ancestorSupply
  dsimp only
  split
  · rename_i hview
    rw [hview]
    rfl
  · rename_i view hview
    rw [hview, seen?_mergeInterface]
    rfl

theorem seen?_parents (n : String) (m : Merge) (parents : List Ancestor) :
    seen? n (parents.foldl addParent m).flat.methods =
      ((parents.filterMap (·.view)).flatMap (parentSupply m.flat.classlike n)).foldl absorb
        (seen? n m.flat.methods) := by
  rw [← flatMap_ancestorSupply]
  exact (seen?_foldl (fun s : Merge => s.flat.methods)
    (fun s => s.flat.classlike = m.flat.classlike) addParent _ n
    (fun s a h => (addParent_classlike s a).trans h)
    (fun s a h => h ▸ seen?_addParent n s a) parents m rfl).2

theorem seen?_interfaces (n : String) (m : Merge) (interfaces : List Ancestor) :
    seen? n (interfaces.foldl addInterface m).flat.methods =
      ((interfaces.filterMap (·.view)).flatMap (methodsNamed n)).foldl absorb
        (seen? n m.flat.methods) := by
  rw [← flatMap_ancestorSupply]
  exact (seen?_foldl (fun s : Merge => s.flat.methods) (fun _ => True) addInterface _ n
    (fun _ _ h => h) (fun s a _ => seen?_addInterface n s a) interfaces m trivial).2

/-! ### Traits -/

/-- From one list of methods to another, a name keeps what is seen of it; if nothing is, an
inherited method may come in. -/
def Enters (n : String) (before after : List (FlatMember MethodSymbol)) : Prop :=
  ∃ text : Option Documentation, seen? n after = (seen? n before).or (text.map (·, .inherited))

theorem Enters.refl (n : String) (methods : List (FlatMember MethodSymbol)) :
    Enters n methods methods := ⟨none, by simp⟩

theorem Enters.trans {n : String} {a b c : List (FlatMember MethodSymbol)} (hab : Enters n a b)
    (hbc : Enters n b c) : Enters n a c := by
  obtain ⟨text, htext⟩ := hab
  obtain ⟨text', htext'⟩ := hbc
  refine ⟨text.or text', ?_⟩
  rw [htext', htext, Option.or_assoc, Option.map_or]

theorem Enters.foldl {n : String} {σ β : Type} (methods : σ → List (FlatMember MethodSymbol))
    {step : σ → β → σ} (hstep : ∀ s b, Enters n (methods s) (methods (step s b))) (l : List β)
    (s : σ) : Enters n (methods s) (methods (l.foldl step s)) :=
  (foldl_leads (fun _ => True) (fun _ s t => Enters n (methods s) (methods t))
    (fun s => Enters.refl n (methods s)) (fun s b _ _ _ hrest => (hstep s b).trans hrest)
    (fun _ _ _ => trivial) l s trivial).2

theorem enters_append (n : String) (methods : List (FlatMember MethodSymbol)) (m : MethodSymbol) :
    Enters n methods (methods ++ [.inherited m]) := by
  refine ⟨if foldEq m.name n then some m.documentation else none, ?_⟩
  rw [seen?, seen?, List.find?_append, Option.map_or]
  by_cases hn : foldEq m.name n = true
  · simp [namedLike, FlatMember.inherited, hn]
  · simp [namedLike, FlatMember.inherited, hn]

theorem seen?_eq_find?_labelled (n : String) (methods : List (FlatMember MethodSymbol)) :
    seen? n methods = ((methods.map labelled).find? fun e => foldEq e.1 n).map (·.2) := by
  rw [List.find?_map, Option.map_map]
  rfl

theorem enters_changeFirst {change : FlatMember MethodSymbol → FlatMember MethodSymbol}
    (hkeeps : ∀ e, labelled (change e) = labelled e) (p : FlatMember MethodSymbol → Bool)
    (n : String) (methods : List (FlatMember MethodSymbol)) :
    Enters n methods (changeFirst p change methods) := by
  refine ⟨none, ?_⟩
  rw [seen?_eq_find?_labelled, map_changeFirst hkeeps, ← seen?_eq_find?_labelled, Option.map_none,
    Option.or_none]

theorem enters_addTraitMethod (n : String) (methods : List (FlatMember MethodSymbol))
    (m : FlatMember MethodSymbol) : Enters n methods (addTraitMethod methods m) := by
  unfold addTraitMethod addOr
  split
  · refine enters_changeFirst (fun e => ?_) _ n methods
    split
    · rfl
    · rfl
  · exact enters_append n methods m.member

theorem enters_applyAlias (n : String) (views : List FlatClass) (f : FlatClass) (a : TraitAlias) :
    Enters n f.methods (applyAlias views f a).methods := by
  unfold applyAlias
  split
  · exact Enters.refl n _
  · split
    · split
      · exact Enters.refl n _
      · exact enters_append n f.methods _
    · split
      · exact Enters.refl n _
      · rename_i v _
        have hkeeps : ∀ e : FlatMember MethodSymbol,
            labelled { e with member := { e.member with visibility := v } } = labelled e :=
          fun _ => rfl
        exact enters_changeFirst hkeeps _ n f.methods

/-- What a classlike has under a name is still seen once its traits and aliases are entered. -/
theorem enters_mergeTraits (n : String) (f : FlatClass) (views : List FlatClass) :
    Enters n f.methods (f.mergeTraits views).methods := by
  have htraits : Enters n f.methods (views.foldl mergeTrait f).methods := by
    refine Enters.foldl FlatClass.methods (fun g view => ?_) views f
    exact Enters.foldl id (enters_addTraitMethod n) _ g.methods
  have haliases := Enters.foldl FlatClass.methods (enters_applyAlias n views)
    f.classlike.aliases (views.foldl mergeTrait f)
  exact htraits.trans haliases

/-! ### The whole view -/

theorem seen?_own (n : String) (c : ClasslikeSymbol) :
    seen? n (ofOwn c).methods = (c.method? n).map fun d => (d.documentation, .own) := by
  rw [seen?, ofOwn, List.find?_map, Option.map_map]
  rfl

theorem seen?_withTraits (n : String) (c : ClasslikeSymbol) (traits : List Ancestor) :
    ∃ text : Option Documentation, seen? n (withTraits c traits).methods =
      ((c.method? n).map fun d => (d.documentation, .own)).or (text.map (·, .inherited)) := by
  rw [← seen?_own]
  exact enters_mergeTraits n { ofOwn c with traits := traitNames traits }
    (traits.filterMap (·.view))

/-- The methods of a name that parents and interfaces hand down, in the order in which they are
entered. -/
def handedDown (c : ClasslikeSymbol) (parents interfaces : List FlatClass) (n : String) :
    List MethodSymbol :=
  parents.flatMap (parentSupply c n) ++ interfaces.flatMap (methodsNamed n)

/-- A view takes in what parents and interfaces hand down, after own methods, traits and aliases. -/
theorem seen?_assemble (c : ClasslikeSymbol) (traits parents interfaces : List Ancestor)
    (n : String) :
    ∃ text : Option Documentation, seen? n (assemble c traits parents interfaces).methods =
      (handedDown c (parents.filterMap (·.view)) (interfaces.filterMap (·.view)) n).foldl absorb
        (((c.method? n).map fun d => (d.documentation, .own)).or (text.map (·, .inherited))) := by
  obtain ⟨text, htext⟩ := seen?_withTraits n c traits
  have hclasslike : (withTraits c traits).classlike = c := (contractOf?_mergeTraits n _ _).1
  refine ⟨text, ?_⟩
  rw [assemble_eq, seen?_interfaces, withParents, seen?_parents, ← List.foldl_append, hclasslike,
    htext]
  rfl

/-! ### What a request takes in -/

/-- A text that is no request stays. -/
theorem foldl_absorb_of_settled {own : Documentation} (h : own.inherits = false) (origin : Origin)
    (l : List MethodSymbol) : l.foldl absorb (some (own, origin)) = some (own, origin) := by
  induction l with
  | nil => rfl
  | cons m l ih =>
    have hkept : fillDoc own m.documentation = own := by simp [fillDoc, h]
    rw [List.foldl_cons, absorb, hkept, ih]

/-- A request takes in the first comment that is none, and stays a request if there is no such
comment.  By induction, since each request that it takes in is in the same position. -/
theorem foldl_absorb_of_inherits {own : Documentation} (h : own.inherits = true) (origin : Origin)
    (l : List MethodSymbol) :
    ∃ text, l.foldl absorb (some (own, origin)) = some (text, origin) ∧
      (∀ first ∈ l.find? MethodSymbol.fills, text = first.documentation) ∧
      (l.find? MethodSymbol.fills = none → text.inherits = true) := by
  induction l generalizing own with
  | nil => exact ⟨own, rfl, by simp, fun _ => h⟩
  | cons m l ih =>
    rw [List.foldl_cons, absorb]
    cases hfills : m.fills with
    | true =>
      obtain ⟨hpresent, hsettled⟩ : m.documentation.present = true ∧
          m.documentation.inherits = false := by simpa [MethodSymbol.fills] using hfills
      have hfilled : fillDoc own m.documentation = m.documentation := by
        simp [fillDoc, h, hpresent]
      rw [hfilled, List.find?_cons_of_pos hfills]
      refine ⟨m.documentation, foldl_absorb_of_settled hsettled origin l, ?_, by simp⟩
      intro first hfirst
      rw [Option.some.inj hfirst]
    | false =>
      -- either nothing changes, or one request takes the place of another
      have hrequest : (fillDoc own m.documentation).inherits = true := by
        unfold fillDoc
        split
        · simp_all [MethodSymbol.fills]
        · exact h
      rw [List.find?_cons_of_neg (ne_true_of_eq_false hfills)]
      exact ih hrequest

/-- What is a request in the end was one from the beginning, and met no comment that could have
filled it. -/
theorem inherits_of_foldl_absorb {own text : Documentation} {origin origin' : Origin}
    {l : List MethodSymbol} (h : l.foldl absorb (some (own, origin)) = some (text, origin'))
    (htext : text.inherits = true) : own.inherits = true ∧ l.find? MethodSymbol.fills = none := by
  cases hown : own.inherits with
  | false =>
    rw [foldl_absorb_of_settled hown] at h
    obtain ⟨rfl, -⟩ := Prod.mk.inj (Option.some.inj h)
    rw [hown] at htext
    cases htext
  | true =>
    obtain ⟨text', hrun, hfirst, -⟩ := foldl_absorb_of_inherits hown origin l
    obtain ⟨rfl, -⟩ := Prod.mk.inj (Option.some.inj (hrun.symm.trans h))
    refine ⟨rfl, Option.eq_none_iff_forall_not_mem.2 fun first hmem => ?_⟩
    have hfills : first.fills = true := List.find?_some hmem
    rw [MethodSymbol.fills, ← hfirst first hmem, htext] at hfills
    simp at hfills

theorem find?_fills_eq_none_of_inherits {seen : Option (Documentation × Origin)}
    {l : List MethodSymbol} {text : Documentation} {origin : Origin}
    (h : l.foldl absorb seen = some (text, origin)) (htext : text.inherits = true) :
    l.find? MethodSymbol.fills = none := by
  cases seen with
  | some pair => exact (inherits_of_foldl_absorb h htext).2
  | none =>
    cases l with
    | nil => rfl
    | cons m l =>
      -- the first method is what is seen from here on
      obtain ⟨hm, hrest⟩ := inherits_of_foldl_absorb h htext
      rw [List.find?_cons_of_neg (by simp [MethodSymbol.fills, hm]), hrest]

/-- What is handed down does not change where a method comes from. -/
theorem origin_foldl_absorb {text : Documentation} {origin : Origin} (l : List MethodSymbol)
    (seen : Option (Documentation × Origin)) (h : l.foldl absorb seen = some (text, origin)) :
    origin = (seen.map (·.2)).getD .inherited := by
  induction l generalizing seen with
  | nil =>
    rw [show seen = some (text, origin) from h]
    rfl
  | cons m l ih =>
    rw [ih _ h]
    cases seen with
    | none => rfl
    | some pair => rfl

end FlatClass

namespace Tables

/-- The methods of a name that can fill a request for the text of an ancestor: the parents hand them
down, then the interfaces, with the views that these have by themselves. -/
def fillers (t : Tables) (maxDepth : Nat) (c : ClasslikeSymbol) (n : String) : List MethodSymbol :=
  (FlatClass.handedDown c (c.parents.filterMap (t.flat? maxDepth))
    (c.interfaces.filterMap (t.flat? maxDepth)) n).filter MethodSymbol.fills

/-- **A request for the text of an ancestor stays only if nothing can fill it.**  A method is a
classlike's own exactly if it is declared there.  If its declaration is no request, it keeps the
documentation that it was declared with.  If it is one, the method has the documentation of the
first filler, and is still a request if there is none.  Of what the classlike lists, all that is
indexed has a view. -/
theorem request_filled_by_first (t : Tables) (maxDepth : Nat) (name : String) (view : FlatClass)
    (h : t.resolve maxDepth name = .ok view) (n : String) (m : FlatMember MethodSymbol)
    (hm : view.method? n = some m) :
    ∃ c, t.classlike? name = some c ∧
      (∀ a ∈ c.ancestors, (t.flat? maxDepth a).isSome = (t.classlike? a).isSome) ∧
      (m.member.documentation.inherits = true → t.fillers maxDepth c n = []) ∧
      (m.origin = .own ↔ (c.method? n).isSome) ∧
      ∀ d, c.method? n = some d →
        (d.documentation.inherits = false → m.member.documentation = d.documentation) ∧
        (d.documentation.inherits = true →
          (∀ first ∈ (t.fillers maxDepth c n).head?,
            m.member.documentation = first.documentation) ∧
          (t.fillers maxDepth c n = [] → m.member.documentation.inherits = true)) := by
  obtain ⟨c, hc, hindexed, rfl⟩ := exists_assembleFrom_of_resolve h
  obtain ⟨text, hseen⟩ := FlatClass.seen?_assemble c (c.traits.map fun n => ⟨n, t.flat? maxDepth n⟩)
    (c.parents.map fun n => ⟨n, t.flat? maxDepth n⟩)
    (c.interfaces.map fun n => ⟨n, t.flat? maxDepth n⟩) n
  simp only [List.filterMap_map, Function.comp_def] at hseen
  change ((FlatClass.assembleFrom (t.flat? maxDepth) c).method? n).map _ = _ at hseen
  rw [hm, Option.map_some] at hseen
  have hhead : (t.fillers maxDepth c n).head? =
      (FlatClass.handedDown c (c.parents.filterMap (t.flat? maxDepth))
        (c.interfaces.filterMap (t.flat? maxDepth)) n).find? MethodSymbol.fills :=
    List.head?_filter
  refine ⟨c, hc, hindexed, ?_, ?_, ?_⟩
  · intro hrequest
    rw [← List.head?_eq_none_iff, hhead]
    exact FlatClass.find?_fills_eq_none_of_inherits hseen.symm hrequest
  · rw [FlatClass.origin_foldl_absorb _ _ hseen.symm]
    cases c.method? n with
    | some d => simp
    | none =>
      cases text with
      | none => simp
      | some text => simp
  · intro d hd
    rw [hd, Option.map_some, Option.some_or] at hseen
    refine ⟨fun hsettled => ?_, fun hrequest => ?_⟩
    · rw [FlatClass.foldl_absorb_of_settled hsettled] at hseen
      exact congrArg Prod.fst (Option.some.inj hseen)
    · obtain ⟨text', hrun, hfirst, hnone⟩ := FlatClass.foldl_absorb_of_inherits hrequest .own
        (FlatClass.handedDown c (c.parents.filterMap (t.flat? maxDepth))
          (c.interfaces.filterMap (t.flat? maxDepth)) n)
      have htext : m.member.documentation = text' :=
        congrArg Prod.fst (Option.some.inj (hseen.trans hrun))
      rw [hhead, ← List.head?_eq_none_iff, hhead, htext]
      exact ⟨hfirst, hnone⟩

/-- A class that asks twice for the text of an ancestor.  Its parent has a request of its own for
one of the methods, and the interface behind it has a text. -/
def requestingJob : Tables :=
  Tables.empty.withDocument 10
    (Document.ofSource "a.php"
      ("<?php interface Runner{/** Runs. */function run();} " ++
        "class Base{/** {@inheritDoc} */function run();} " ++
        "class Job extends Base implements Runner" ++
        "{/** @inheritdoc */function Run(); /** {@inheritDoc} */function stop();}")) 0

/-- The request of the parent is passed over for the text of the interface.  The other request has
nothing to take in and stays. -/
theorem request_filled_by_first_requestingJob :
    ∃ view run stop, requestingJob.resolve 10 "Job" = .ok view ∧
      view.method? "run" = some run ∧ run.origin = .own ∧ run.member.documentation.short = "Runs." ∧
      view.method? "stop" = some stop ∧ stop.member.documentation.inherits = true := by
  have hjob : ((requestingJob.flat? 10 "Job").map fun view =>
        ((view.method? "run").isSome, (view.method? "stop").isSome)) = some (true, true) ∧
      ((requestingJob.classlike? "Job").map fun c =>
        ((c.method? "run").map (·.documentation.inherits),
          (requestingJob.fillers 10 c "run").map (·.documentation.short),
          (c.method? "stop").map (·.documentation.inherits),
          (requestingJob.fillers 10 c "stop").map (·.documentation.short))) =
        some (some true, ["Runs."], some true, []) := by
    decide +kernel
  obtain ⟨hviews, hrequests⟩ := hjob
  obtain ⟨view, hview, hmethods⟩ := Option.map_eq_some_iff.1 hviews
  have hok := flat?_eq_some_iff.1 hview
  obtain ⟨run, hrun⟩ := Option.isSome_iff_exists.1 (Prod.mk.inj hmethods).1
  obtain ⟨stop, hstop⟩ := Option.isSome_iff_exists.1 (Prod.mk.inj hmethods).2
  obtain ⟨c, hc, -, -, hown, hfilled⟩ :=
    request_filled_by_first requestingJob 10 "Job" view hok "run" run hrun
  obtain ⟨c', hc', -, -, -, hkept⟩ :=
    request_filled_by_first requestingJob 10 "Job" view hok "stop" stop hstop
  obtain rfl : c = c' := Option.some.inj (hc.symm.trans hc')
  rw [hc, Option.map_some] at hrequests
  simp only [Option.some.injEq, Prod.mk.injEq, Option.map_eq_some_iff, List.map_eq_nil_iff,
    List.map_eq_singleton_iff] at hrequests
  obtain ⟨⟨d, hd, hdrequest⟩, ⟨first, hfirst, hshort⟩, ⟨e, he, herequest⟩, hnone⟩ := hrequests
  have htext := ((hfilled d hd).2 hdrequest).1 first (by rw [hfirst]; rfl)
  refine ⟨view, run, stop, hok, hrun, hown.2 (by rw [hd]; rfl), ?_, hstop, ?_⟩
  · rw [htext, hshort]
  · exact ((hkept e he).2 herequest).2 hnone

end Tables
end PhpAtlas
