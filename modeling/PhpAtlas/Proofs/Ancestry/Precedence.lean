import PhpAtlas.Proofs.Ancestry.Assembly
import PhpAtlas.Proofs.Steps

/-!
# Which method a name stands for

A view is put together by entering the methods of traits, the aliases, and the methods of parents
and interfaces into the list of own methods.  Each of these steps leaves what a name already stands
for, and gives it a meaning if it has none.  So a name stands for the first method in the list of
all that supply it.

## Main definitions

* `MethodContract` — what a method is to its callers.
* `FlatClass.suppliers` — the methods that supply a name, in the order of precedence.

## Main results

* `FlatClass.contractOf?_foldl` — what a run of steps does, from what one step does.
* `FlatClass.contractOf?_assemble` — in a view, a name stands for its first supplier.
* `Tables.method?_eq_first_supplier` — the same for a resolved classlike.
-/

namespace PhpAtlas

/-- What a method is to its callers.  Adaptations may change the visibility and the name of a method
and an ancestor may replace its documentation, so these are left out. -/
structure MethodContract where
  owner : String
  static : Bool
  abstract : Bool
  final : Bool
  magic : Bool
  line : Nat
  parameters : List ParameterSymbol
  returns : TypeList
  throws : TypeList
  deriving DecidableEq

/-- What a method is to its callers. -/
def MethodSymbol.contract (m : MethodSymbol) : MethodContract :=
  ⟨m.owner, m.static, m.abstract, m.final, m.magic, m.line, m.parameters, m.returns, m.throws⟩

namespace FlatClass

/-! ### Suppliers -/

/-- The methods of a view that have a name. -/
def methodsNamed (n : String) (view : FlatClass) : List MethodSymbol :=
  (view.methods.map (·.member)).filter fun m => foldEq m.name n

/-- What a trait supplies, unless a precedence for the name lists it among the losers. -/
def traitSupply (c : ClasslikeSymbol) (n : String) (view : FlatClass) : List MethodSymbol :=
  if c.precedences.any fun p => foldEq p.method n && p.insteadOf.any (sameClass · view.full) then []
  else view.methodsNamed n

/-- What an alias supplies under its new name: a method of the trait that it mentions, else of the
first trait that has it. -/
def aliasSupply (traits : List FlatClass) (n : String) (a : TraitAlias) : List MethodSymbol :=
  if a.newName.any (foldEq · n) then
    ((traits.filter fun view => a.owner.all (sameClass · view.full)).findSome? fun view =>
      (view.methodsNamed a.method).head?).toList
  else []

/-- What a parent supplies.  The private methods of a parent class do not count. -/
def parentSupply (c : ClasslikeSymbol) (n : String) (view : FlatClass) : List MethodSymbol :=
  (view.methodsNamed n).filter fun m => c.kind = .interface ∨ m.visibility ≠ .priv

/-- The methods that supply a name in a classlike, in the order of precedence. -/
def suppliers (c : ClasslikeSymbol) (traits parents interfaces : List FlatClass) (n : String) :
    List MethodSymbol :=
  c.methods.filter (fun m => foldEq m.name n) ++ traits.flatMap (traitSupply c n) ++
    c.aliases.flatMap (aliasSupply traits n) ++ parents.flatMap (parentSupply c n) ++
      interfaces.flatMap (methodsNamed n)

/-! ### What a name stands for in a list of methods -/

/-- The contract of the first method of a name. -/
def contractOf? (n : String) (methods : List (FlatMember MethodSymbol)) : Option MethodContract :=
  (methods.find? (namedLike n)).map (·.member.contract)

/-- The contract of the first supplier. -/
def firstContract (supply : List MethodSymbol) : Option MethodContract :=
  supply.head?.map (·.contract)

@[simp] theorem firstContract_nil : firstContract [] = none := rfl

@[simp] theorem firstContract_append (a b : List MethodSymbol) :
    firstContract (a ++ b) = (firstContract a).or (firstContract b) := by
  cases a with
  | nil => rfl
  | cons m a => rfl

theorem contractOf?_append (n : String) (a b : List (FlatMember MethodSymbol)) :
    contractOf? n (a ++ b) = (contractOf? n a).or (contractOf? n b) := by
  simp only [contractOf?, List.find?_append]
  cases a.find? (namedLike n) with
  | none => rfl
  | some m => rfl

theorem contractOf?_singleton (n : String) (m : FlatMember MethodSymbol) :
    contractOf? n [m] = firstContract ([m.member].filter fun m => foldEq m.name n) := by
  by_cases h : foldEq m.member.name n = true <;> simp [contractOf?, namedLike, firstContract, h]

/-- Where a method has a name, nothing that comes behind counts for it. -/
theorem contractOf?_or_of_mem {n : String} {methods : List (FlatMember MethodSymbol)}
    (h : ∃ m ∈ methods, namedLike n m = true) (later : Option MethodContract) :
    (contractOf? n methods).or later = contractOf? n methods := by
  obtain ⟨m, hm⟩ := Option.isSome_iff_exists.1 (List.find?_isSome.2 h)
  rw [contractOf?, hm]
  rfl

/-- A change of a method that keeps its name and its contract. -/
def KeepsContract (change : FlatMember MethodSymbol → FlatMember MethodSymbol) : Prop :=
  ∀ m, (change m).member.name = m.member.name ∧ (change m).member.contract = m.member.contract

theorem keepsContract_fillMethod (text : Documentation) : KeepsContract (fillMethod text) :=
  fun _ => ⟨rfl, rfl⟩

theorem contractOf?_changeFirst {change : FlatMember MethodSymbol → FlatMember MethodSymbol}
    (h : KeepsContract change) (p : FlatMember MethodSymbol → Bool) (n : String)
    (methods : List (FlatMember MethodSymbol)) :
    contractOf? n (changeFirst p change methods) = contractOf? n methods := by
  induction methods with
  | nil => rfl
  | cons m methods ih =>
    obtain ⟨hname, hcontract⟩ := h m
    unfold changeFirst
    split
    · simp only [contractOf?, List.find?_cons, namedLike, hname]
      split
      · simp [hcontract]
      · rfl
    · simp only [contractOf?, List.find?_cons] at ih ⊢
      split
      · rfl
      · exact ih

/-- One step: a name keeps what it stands for, else it stands for the new method if that has it. -/
theorem contractOf?_addOr {change : FlatMember MethodSymbol → FlatMember MethodSymbol}
    (h : KeepsContract change) (n : String) (m : MethodSymbol)
    (methods : List (FlatMember MethodSymbol)) :
    contractOf? n (addOr (namedLike m.name) change (.inherited m) methods) =
      (contractOf? n methods).or (firstContract ([m].filter fun m => foldEq m.name n)) := by
  unfold addOr
  split
  · rename_i hany
    rw [contractOf?_changeFirst h]
    by_cases hn : foldEq m.name n = true
    · -- the name of the new method is taken, and with it `n`
      obtain ⟨e, he, hname⟩ := List.any_eq_true.1 hany
      rw [contractOf?_or_of_mem ⟨e, he, foldEq_trans hname hn⟩]
    · simp [hn]
  · rw [contractOf?_append, contractOf?_singleton]
    rfl

/-- A run of steps, from what one step does while an invariant holds. -/
theorem contractOf?_foldl {σ β : Type} (methods : σ → List (FlatMember MethodSymbol))
    (inv : σ → Prop) (step : σ → β → σ) (supply : β → List MethodSymbol) (n : String)
    (hinv : ∀ s b, inv s → inv (step s b))
    (hstep : ∀ s b, inv s →
      contractOf? n (methods (step s b)) =
        (contractOf? n (methods s)).or (firstContract (supply b)))
    (l : List β) (s : σ) (hs : inv s) :
    inv (l.foldl step s) ∧ contractOf? n (methods (l.foldl step s)) =
      (contractOf? n (methods s)).or (firstContract (l.flatMap supply)) := by
  refine foldl_leads inv (fun l s t => contractOf? n (methods t) =
    (contractOf? n (methods s)).or (firstContract (l.flatMap supply))) (by simp) ?_ hinv l s hs
  intro s b l t hs hrest
  rw [hrest, hstep s b hs, List.flatMap_cons, firstContract_append, Option.or_assoc]

/-- A run that enters methods one by one. -/
theorem contractOf?_foldl_add {n : String}
    {add : List (FlatMember MethodSymbol) → FlatMember MethodSymbol →
      List (FlatMember MethodSymbol)}
    (hadd : ∀ methods m, contractOf? n (add methods m) =
      (contractOf? n methods).or (firstContract ([m.member].filter fun m => foldEq m.name n)))
    (l methods : List (FlatMember MethodSymbol)) :
    contractOf? n (l.foldl add methods) = (contractOf? n methods).or
      (firstContract ((l.map (·.member)).filter fun m => foldEq m.name n)) := by
  have hrun := (contractOf?_foldl id (fun _ => True) add _ n (fun _ _ _ => trivial)
    (fun s b _ => hadd s b) l methods trivial).2
  have hsupply : (l.flatMap fun m => [m.member].filter fun m => foldEq m.name n) =
      (l.map (·.member)).filter fun m => foldEq m.name n := by
    rw [← List.filter_flatMap, ← List.map_eq_flatMap]
  rw [hsupply] at hrun
  exact hrun

/-! ### Traits -/

theorem excluded_congr (precedences : List TraitPrecedence) (trait : String) {a b : String}
    (h : foldEq a b = true) : excluded precedences trait a = excluded precedences trait b := by
  have hfold : ∀ w, foldEq w a = foldEq w b := by
    intro w
    simp only [foldEq, foldEq_iff.1 h]
  simp only [excluded, hfold]

theorem contractOf?_mergeTrait (n : String) (f view : FlatClass) :
    contractOf? n (f.mergeTrait view).methods = (contractOf? n f.methods).or
      (firstContract (traitSupply f.classlike n view)) := by
  have hkept : ((view.methods.filter fun m =>
        !excluded f.classlike.precedences view.full m.member.name).map (·.member)).filter
          (fun m => foldEq m.name n) = traitSupply f.classlike n view := by
    have hname : ∀ m : FlatMember MethodSymbol, (foldEq m.member.name n &&
        !excluded f.classlike.precedences view.full m.member.name) = (foldEq m.member.name n &&
          !excluded f.classlike.precedences view.full n) := by
      intro m
      by_cases h : foldEq m.member.name n = true
      · rw [excluded_congr _ _ h]
      · simp [h]
    rw [List.filter_map, List.filter_filter]
    simp only [Function.comp_apply, hname]
    rw [traitSupply, methodsNamed, List.filter_map]
    change _ = if excluded f.classlike.precedences view.full n = true then _ else _
    split
    · rename_i hlost
      simp [hlost]
    · rename_i hkept
      simp only [hkept, Bool.not_false, Bool.and_true]
      rfl
  rw [← hkept]
  refine contractOf?_foldl_add (fun methods m => contractOf?_addOr (fun e => ?_) n m.member methods)
    _ _
  split
  · exact ⟨rfl, rfl⟩
  · exact ⟨rfl, rfl⟩

/-! ### Aliases -/

theorem map_member_method? (f : FlatClass) (n : String) :
    (f.method? n).map (·.member) = (f.methodsNamed n).head? := by
  rw [methodsNamed, List.filter_map, List.head?_map, List.head?_filter]
  rfl

theorem map_member_aliasSource? (views : List FlatClass) (a : TraitAlias) :
    (aliasSource? views a).map (·.member) =
      (views.filter fun view => a.owner.all (sameClass · view.full)).findSome? fun view =>
        (view.methodsNamed a.method).head? := by
  simp only [aliasSource?, List.map_findSome?, ← map_member_method?]
  cases a.owner with
  | none => rfl
  | some owner => rfl

/-- An alias touches nothing but the methods. -/
theorem applyAlias_eq (views : List FlatClass) (f : FlatClass) (a : TraitAlias) :
    applyAlias views f a = { f with methods := (applyAlias views f a).methods } := by
  unfold applyAlias
  split
  · rfl
  · split
    · split
      · rfl
      · rfl
    · split
      · rfl
      · rfl

theorem contractOf?_applyAlias (n : String) (views : List FlatClass) (f : FlatClass)
    (a : TraitAlias) :
    contractOf? n (applyAlias views f a).methods = (contractOf? n f.methods).or
      (firstContract (aliasSupply views n a)) := by
  rw [aliasSupply, ← map_member_aliasSource?]
  unfold applyAlias
  split
  · rename_i hsource
    simp [hsource]
  · rename_i source hsource
    rw [hsource]
    cases a.newName with
    | none =>
      -- only the visibility of a method changes
      cases a.visibility with
      | none => simp
      | some v =>
        have hkeeps :
            KeepsContract fun m => { m with member := { m.member with visibility := v } } :=
          fun m => ⟨rfl, rfl⟩
        simp [contractOf?_changeFirst hkeeps]
    | some name =>
      have hsupply : firstContract (if (some name).any (foldEq · n) then
          ((some source).map (·.member)).toList else []) =
            if foldEq name n then some source.member.contract else none := by
        by_cases hn : foldEq name n = true <;> simp [hn, firstContract]
      rw [hsupply]
      dsimp only
      split
      · rename_i htaken
        obtain ⟨e, he, hname⟩ := List.find?_isSome.1 htaken
        split
        · rename_i hn
          rw [contractOf?_or_of_mem ⟨e, he, foldEq_trans hname hn⟩]
        · rw [Option.or_none]
      · rw [contractOf?_append, contractOf?_singleton]
        by_cases hn : foldEq name n = true
        · simp only [FlatMember.inherited, hn, List.filter_cons_of_pos, if_pos]
          rfl
        · simp [FlatMember.inherited, hn]

/-- After the traits and the aliases, a name stands for what is its own, else for what they
supply. -/
theorem contractOf?_mergeTraits (n : String) (f : FlatClass) (views : List FlatClass) :
    (f.mergeTraits views).classlike = f.classlike ∧
      contractOf? n (f.mergeTraits views).methods = ((contractOf? n f.methods).or
        (firstContract (views.flatMap (traitSupply f.classlike n)))).or
          (firstContract (f.classlike.aliases.flatMap (aliasSupply views n))) := by
  obtain ⟨hclasslike, htraits⟩ := contractOf?_foldl FlatClass.methods
    (fun g => g.classlike = f.classlike) mergeTrait (traitSupply f.classlike n) n
    (fun _ _ h => h) (fun g view h => h ▸ contractOf?_mergeTrait n g view) views f rfl
  obtain ⟨hclasslike', haliases⟩ := contractOf?_foldl FlatClass.methods
    (fun g => g.classlike = f.classlike) (applyAlias views) (aliasSupply views n) n
    (fun g a h => (congrArg classlike (applyAlias_eq views g a)).trans h)
    (fun g a _ => contractOf?_applyAlias n views g a) f.classlike.aliases
    (views.foldl mergeTrait f) hclasslike
  exact ⟨hclasslike', haliases.trans (by rw [htraits])⟩

/-! ### Parents and interfaces -/

/-- What an ancestor supplies, given what its view would. -/
def ancestorSupply (supply : FlatClass → List MethodSymbol) (a : Ancestor) : List MethodSymbol :=
  (a.view.map supply).getD []

theorem flatMap_ancestorSupply (supply : FlatClass → List MethodSymbol) (l : List Ancestor) :
    l.flatMap (ancestorSupply supply) = (l.filterMap (·.view)).flatMap supply := by
  induction l with
  | nil => rfl
  | cons a l ih =>
    rw [List.flatMap_cons, ih, ancestorSupply]
    cases h : a.view with
    | none => simp [h]
    | some view => simp [h]

theorem contractOf?_mergeInterface (n : String) (sources : List String) (f view : FlatClass) :
    contractOf? n (mergeInterface sources f view).methods = (contractOf? n f.methods).or
      (firstContract (view.methodsNamed n)) :=
  contractOf?_foldl_add (fun methods m =>
    contractOf?_addOr (keepsContract_fillMethod _) n m.member methods) _ _

theorem methodsNamed_visible (n : String) (view : FlatClass) :
    ((view.methods.filter (·.member.visibility ≠ .priv)).map (·.member)).filter
      (fun m => foldEq m.name n) = (view.methodsNamed n).filter (·.visibility ≠ .priv) := by
  simp only [methodsNamed, List.filter_map, List.filter_filter, Function.comp_def, Bool.and_comm]

theorem contractOf?_mergeInherited (n : String) (f view : FlatClass) :
    contractOf? n (mergeInherited f view).methods = (contractOf? n f.methods).or
      (firstContract ((view.methodsNamed n).filter (·.visibility ≠ .priv))) := by
  have hkeeps : ∀ m : FlatMember MethodSymbol, KeepsContract fun e =>
      fillMethod m.member.documentation (e.shadowing m.member.owner) := fun _ _ => ⟨rfl, rfl⟩
  rw [← methodsNamed_visible]
  exact contractOf?_foldl_add (fun methods m => contractOf?_addOr (hkeeps m) n m.member methods) _ _

theorem addParent_classlike (m : Merge) (a : Ancestor) :
    (addParent m a).flat.classlike = m.flat.classlike := by
  unfold addParent
  dsimp only
  split
  · rfl
  · split
    · rfl
    · rfl

theorem contractOf?_addParent (n : String) (m : Merge) (a : Ancestor) :
    contractOf? n (addParent m a).flat.methods = (contractOf? n m.flat.methods).or
      (firstContract (ancestorSupply (parentSupply m.flat.classlike n) a)) := by
  unfold addParent ancestorSupply
  dsimp only
  split
  · rename_i hview
    simp [hview]
  · rename_i view hview
    rw [hview, Option.map_some, Option.getD_some, parentSupply]
    split
    · rename_i hkind
      simp [contractOf?_mergeInterface, hkind]
    · rename_i hkind
      simp [contractOf?_mergeInherited, hkind]

theorem contractOf?_addInterface (n : String) (m : Merge) (a : Ancestor) :
    contractOf? n (addInterface m a).flat.methods = (contractOf? n m.flat.methods).or
      (firstContract (ancestorSupply (methodsNamed n) a)) := by
  unfold addInterface ancestorSupply
  dsimp only
  split
  · rename_i hview
    simp [hview]
  · rename_i view hview
    rw [hview, contractOf?_mergeInterface]
    rfl

theorem contractOf?_parents (n : String) (m : Merge) (parents : List Ancestor) :
    contractOf? n (parents.foldl addParent m).flat.methods = (contractOf? n m.flat.methods).or
      (firstContract ((parents.filterMap (·.view)).flatMap (parentSupply m.flat.classlike n))) := by
  rw [← flatMap_ancestorSupply]
  exact (contractOf?_foldl (fun s : Merge => s.flat.methods)
    (fun s => s.flat.classlike = m.flat.classlike) addParent _ n
    (fun s a h => (addParent_classlike s a).trans h)
    (fun s a h => h ▸ contractOf?_addParent n s a) parents m rfl).2

theorem contractOf?_interfaces (n : String) (m : Merge) (interfaces : List Ancestor) :
    contractOf? n (interfaces.foldl addInterface m).flat.methods = (contractOf? n m.flat.methods).or
      (firstContract ((interfaces.filterMap (·.view)).flatMap (methodsNamed n))) := by
  rw [← flatMap_ancestorSupply]
  exact (contractOf?_foldl (fun s : Merge => s.flat.methods) (fun _ => True) addInterface _ n
    (fun _ _ h => h) (fun s a _ => contractOf?_addInterface n s a) interfaces m trivial).2

/-! ### The whole view -/

theorem contractOf?_own (n : String) (methods : List MethodSymbol) :
    contractOf? n (methods.map .own) = firstContract (methods.filter fun m => foldEq m.name n) := by
  rw [contractOf?, firstContract, List.find?_map, Option.map_map, List.head?_filter]
  rfl

/-- In a view, a name stands for the first method that supplies it. -/
theorem contractOf?_assemble (c : ClasslikeSymbol) (traits parents interfaces : List Ancestor)
    (n : String) :
    contractOf? n (assemble c traits parents interfaces).methods =
      firstContract (suppliers c (traits.filterMap (·.view)) (parents.filterMap (·.view))
        (interfaces.filterMap (·.view)) n) := by
  obtain ⟨hclasslike, htraits⟩ := contractOf?_mergeTraits n
    { ofOwn c with traits := traitNames traits } (traits.filterMap (·.view))
  rw [assemble, contractOf?_interfaces, contractOf?_parents, htraits, hclasslike]
  simp only [suppliers, firstContract_append]
  rw [← contractOf?_own]
  rfl

end FlatClass

namespace Tables

/-- The methods that supply a name in a classlike, with the views that its traits, parents and
interfaces have by themselves.  What is not indexed supplies nothing. -/
def suppliers (t : Tables) (maxDepth : Nat) (c : ClasslikeSymbol) (n : String) :
    List MethodSymbol :=
  FlatClass.suppliers c (c.traits.filterMap (t.flat? maxDepth))
    (c.parents.filterMap (t.flat? maxDepth))
    (c.interfaces.filterMap (t.flat? maxDepth)) n

/-- A resolved classlike has a method of a name exactly if something supplies it, and then it is the
first supplier: an own method, else one of a trait, an alias, a parent or an interface.  Of what it
lists, all that is indexed has a view. -/
theorem method?_eq_first_supplier (t : Tables) (maxDepth : Nat) (name : String) (view : FlatClass)
    (h : t.resolve maxDepth name = .ok view) (n : String) :
    ∃ c, t.classlike? name = some c ∧
      (∀ a ∈ c.ancestors, (t.flat? maxDepth a).isSome = (t.classlike? a).isSome) ∧
      (view.method? n = none ↔ t.suppliers maxDepth c n = []) ∧
      ∀ m, view.method? n = some m →
        ∃ first rest, t.suppliers maxDepth c n = first :: rest ∧
          m.member.contract = first.contract := by
  obtain ⟨c, hc, hindexed, rfl⟩ := exists_assembleFrom_of_resolve h
  have hfirst := FlatClass.contractOf?_assemble c (c.traits.map fun n => ⟨n, t.flat? maxDepth n⟩)
    (c.parents.map fun n => ⟨n, t.flat? maxDepth n⟩)
    (c.interfaces.map fun n => ⟨n, t.flat? maxDepth n⟩) n
  simp only [List.filterMap_map, Function.comp_def] at hfirst
  change ((FlatClass.assembleFrom (t.flat? maxDepth) c).method? n).map (·.member.contract) =
    (t.suppliers maxDepth c n).head?.map (·.contract) at hfirst
  refine ⟨c, hc, hindexed, ?_, ?_⟩
  · rw [← Option.map_eq_none_iff, hfirst, Option.map_eq_none_iff, List.head?_eq_none_iff]
  · intro m hm
    rw [hm] at hfirst
    cases hsuppliers : t.suppliers maxDepth c n with
    | nil => simp [hsuppliers] at hfirst
    | cons first rest =>
      rw [hsuppliers] at hfirst
      exact ⟨first, rest, rfl, Option.some.inj hfirst⟩

/-- A class with two traits, one of which gives way, an alias and a parent. -/
def adaptedTraits : Tables :=
  Tables.empty.withDocument 10
    (Document.ofSource "a.php"
      ("<?php trait A{function m();} trait B{function M();} " ++
        "class P{function m();} class C extends P{use A,B{B::m insteadof A;A::m as k;}}")) 0

/-- The owner of the first supplier of a name in the class of that example. -/
def adaptedOwner? (n : String) : Option String :=
  (adaptedTraits.classlike? "C").bind fun c =>
    (adaptedTraits.suppliers 10 c n).head?.map (·.contract.owner)

/-- The trait that does not give way wins over the parent, and the alias is the method of the
other trait. -/
theorem method?_eq_first_supplier_adaptedTraits :
    ∃ view, adaptedTraits.resolve 10 "C" = .ok view ∧
      (∃ m, view.method? "m" = some m ∧ m.member.contract.owner = "\\B") ∧
      ∃ m, view.method? "K" = some m ∧ m.member.contract.owner = "\\A" := by
  have hrun : (adaptedTraits.resolve 10 "C").toOption.isSome = true ∧
      adaptedOwner? "m" = some "\\B" ∧ adaptedOwner? "K" = some "\\A" := by decide +kernel
  obtain ⟨view, hview⟩ := Option.isSome_iff_exists.1 hrun.1
  have hok : adaptedTraits.resolve 10 "C" = .ok view := by
    cases hresult : adaptedTraits.resolve 10 "C" with
    | error e =>
      rw [hresult] at hview
      cases hview
    | ok other =>
      rw [hresult] at hview
      exact congrArg Except.ok (Option.some.inj hview)
  have hfirst : ∀ n owner, adaptedOwner? n = some owner →
      ∃ m, view.method? n = some m ∧ m.member.contract.owner = owner := by
    intro n owner howner
    obtain ⟨c, hc, -, hnone, hsome⟩ := method?_eq_first_supplier adaptedTraits 10 "C" view hok n
    rw [adaptedOwner?, hc, Option.bind_some] at howner
    cases hm : view.method? n with
    | none => simp [hnone.1 hm] at howner
    | some m =>
      obtain ⟨first, rest, hsuppliers, hcontract⟩ := hsome m hm
      rw [hsuppliers] at howner
      exact ⟨m, rfl, hcontract ▸ Option.some.inj howner⟩
  exact ⟨view, hok, hfirst "m" "\\B" hrun.2.1, hfirst "K" "\\A" hrun.2.2⟩

end Tables
end PhpAtlas
