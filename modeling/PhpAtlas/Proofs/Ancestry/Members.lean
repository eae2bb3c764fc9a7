import PhpAtlas.Proofs.Ancestry.Uniqueness

/-!
# Which members ancestors hand down

A member of an ancestor is entered into a view, or finds one of its name there.  So the names in a
view are those of the classlike's own members and of all members that its ancestors hand down.
Three kinds of members come along three kinds of edges, and one of the nine ways is missing: an
interface hands down its methods and its constants, but not its properties.

## Main definitions

* `Edge`, `ClasslikeSymbol.listed` — the ways in which a classlike comes to its ancestors.
* `ClasslikeSymbol.passes`, `ClasslikeSymbol.passesProperties` — what a classlike takes along an
  edge.
* `FlatClass.labels` — the names of the members in a list.
* `Tables.SuppliesProperty` — a classlike has a property, or takes one from a trait or a parent.

## Main results

* `FlatClass.mem_labels_foldl` — a run of entries adds the names that are entered.
* `FlatClass.mem_constants_assembleFrom`, `FlatClass.mem_properties_assembleFrom` — the names of the
  constants and properties in a view.
* `FlatClass.exists_method_of_supplied` — a method that is handed down has an entry.
* `Tables.ancestors_hand_down` — no method or constant of an ancestor is lost, and which properties
  are.
* `Tables.not_forall_properties_kept` — a property of an interface is lost.
-/

namespace PhpAtlas

/-- How a classlike comes to an ancestor: it uses, extends or implements it. -/
inductive Edge
  | trait
  | parent
  | interface
  deriving DecidableEq

theorem exists_edge {P : Edge → Prop} : (∃ e, P e) ↔ P .trait ∨ P .parent ∨ P .interface := by
  constructor
  · rintro ⟨e, he⟩
    cases e with
    | trait => exact .inl he
    | parent => exact .inr (.inl he)
    | interface => exact .inr (.inr he)
  · rintro (h | h | h)
    · exact ⟨_, h⟩
    · exact ⟨_, h⟩
    · exact ⟨_, h⟩

namespace ClasslikeSymbol

/-- The names that a classlike lists for an edge. -/
def listed (c : ClasslikeSymbol) : Edge → List String
  | .trait => c.traits
  | .parent => c.parents
  | .interface => c.interfaces

theorem listed_subset (c : ClasslikeSymbol) (e : Edge) : c.listed e ⊆ c.ancestors := by
  cases e with
  | trait => exact c.traits_subset
  | parent => exact c.parents_subset
  | interface => exact c.interfaces_subset

/-- Whether a member of this visibility is handed down along an edge.  The private members of a
parent class are not. -/
def passes (c : ClasslikeSymbol) : Edge → Visibility → Bool
  | .trait, _ | .interface, _ => true
  | .parent, v => c.kind = .interface ∨ v ≠ .priv

/-- Whether properties are handed down along an edge.  Those of interfaces are not, be it that a
class implements them or that an interface extends them. -/
def passesProperties (c : ClasslikeSymbol) : Edge → Bool
  | .trait => true
  | .parent => c.kind ≠ .interface
  | .interface => false

end ClasslikeSymbol

namespace FlatClass

/-! ### Names of members -/

section Labels

variable {α : Type} {label : α → String} {n : String}

/-- The names of the members in a list. -/
def labels (label : α → String) (l : List (FlatMember α)) : List String :=
  l.map fun m => label m.member

theorem mem_labels {l : List (FlatMember α)} :
    n ∈ labels label l ↔ ∃ m ∈ l, label m.member = n := List.mem_map

/-- One step: a member is entered, or finds one of its name. -/
theorem mem_labels_addOr {p : FlatMember α → Bool} {change : FlatMember α → FlatMember α}
    {new : FlatMember α} (hkeeps : ∀ m, label (change m).member = label m.member)
    (hp : ∀ m, p m = true → label m.member = label new.member) (l : List (FlatMember α)) :
    n ∈ labels label (addOr p change new l) ↔ n ∈ labels label l ∨ n = label new.member := by
  unfold addOr
  split
  · rename_i hany
    obtain ⟨e, he, hpe⟩ := List.any_eq_true.1 hany
    rw [labels, map_changeFirst hkeeps]
    refine ⟨.inl, fun h => h.elim id ?_⟩
    rintro rfl
    exact mem_labels.2 ⟨e, he, hp e hpe⟩
  · simp [labels]

/-- A run of entries adds the names that are entered. -/
theorem mem_labels_foldl {add : List (FlatMember α) → FlatMember α → List (FlatMember α)}
    (hadd : ∀ l m, n ∈ labels label (add l m) ↔ n ∈ labels label l ∨ n = label m.member)
    (members l : List (FlatMember α)) :
    n ∈ labels label (members.foldl add l) ↔ n ∈ labels label l ∨ n ∈ labels label members := by
  obtain ⟨-, hrun⟩ := foldl_iff_or add (fun l => n ∈ labels label l) (fun _ => True)
    (fun _ _ _ => trivial) (fun l m _ => hadd l m) members l trivial
  rw [hrun]
  exact or_congr_right (mem_labels.trans (by simp only [eq_comm])).symm

end Labels

/-! ### Steps that add what ancestors give -/

/-- Each step in the making of a view adds to a property of it what the ancestor gives; the names of
traits and the aliases add nothing. -/
structure Gains (c : ClasslikeSymbol) (P : FlatClass → Prop) (Q : Edge → FlatClass → Prop) :
    Prop where
  names : ∀ f names, P { f with traits := names } ↔ P f
  uses : ∀ f view, P (f.mergeTrait view) ↔ P f ∨ Q .trait view
  adapts : ∀ views f a, P (applyAlias views f a) ↔ P f
  extend : ∀ m a, m.flat.classlike = c →
    (P (addParent m a).flat ↔ P m.flat ∨ ∃ view ∈ a.view, Q .parent view)
  implement : ∀ m a, P (addInterface m a).flat ↔ P m.flat ∨ ∃ view ∈ a.view, Q .interface view

namespace Gains

variable {c : ClasslikeSymbol} {P : FlatClass → Prop} {Q : Edge → FlatClass → Prop}

theorem withTraits (h : Gains c P Q) (traits : List Ancestor) :
    (withTraits c traits).classlike = c ∧
      (P (withTraits c traits) ↔ P (ofOwn c) ∨ ∃ a ∈ traits, ∃ view ∈ a.view, Q .trait view) := by
  have halias : ∀ (views : List FlatClass) (f : FlatClass) (a : TraitAlias),
      (applyAlias views f a).classlike = f.classlike := by
    intro views f a
    rw [applyAlias_eq]
  obtain ⟨hclass, htraits⟩ := foldl_iff_or mergeTrait P (fun f => f.classlike = c)
    (fun _ _ hf => hf) (fun f view _ => h.uses f view) (traits.filterMap (·.view))
    { ofOwn c with traits := traitNames traits } rfl
  refine ⟨(foldl_keeps classlike (halias _) _ _).trans hclass, ?_⟩
  have hadapted := foldl_keeps P (fun f a => propext (h.adapts (traits.filterMap (·.view)) f a))
    c.aliases ((traits.filterMap (·.view)).foldl mergeTrait
      { ofOwn c with traits := traitNames traits })
  rw [FlatClass.withTraits, mergeTraits, ← h.names (ofOwn c) (traitNames traits)]
  refine (Eq.to_iff hadapted).trans (htraits.trans (or_congr_right ?_))
  simp only [List.mem_filterMap, Option.mem_def]
  constructor
  · rintro ⟨view, ⟨a, ha, hview⟩, hQ⟩
    exact ⟨a, ha, view, hview, hQ⟩
  · rintro ⟨a, ha, view, hview, hQ⟩
    exact ⟨view, ⟨a, ha, hview⟩, hQ⟩

/-- A view has what the classlike has by itself and what all its ancestors give. -/
theorem assembleFrom (h : Gains c P Q) (view? : String → Option FlatClass) :
    P (assembleFrom view? c) ↔
      P (ofOwn c) ∨ ∃ e, ∃ a ∈ c.listed e, ∃ view ∈ view? a, Q e view := by
  obtain ⟨hclass, htraits⟩ := h.withTraits (c.traits.map fun n => ⟨n, view? n⟩)
  obtain ⟨-, hparents⟩ := foldl_iff_or addParent (fun m => P m.flat)
    (fun m => m.flat.classlike = c) (fun m a hm => (addParent_classlike m a).trans hm)
    h.extend (c.parents.map fun n => ⟨n, view? n⟩)
    ⟨FlatClass.withTraits c (c.traits.map fun n => ⟨n, view? n⟩), []⟩ hclass
  obtain ⟨-, hinterfaces⟩ := foldl_iff_or addInterface (fun m => P m.flat) (fun _ => True)
    (fun _ _ hm => hm) (fun m a _ => h.implement m a) (c.interfaces.map fun n => ⟨n, view? n⟩)
    (withParents c (c.traits.map fun n => ⟨n, view? n⟩) (c.parents.map fun n => ⟨n, view? n⟩))
    trivial
  rw [FlatClass.assembleFrom, assemble_eq, hinterfaces, withParents, hparents, htraits,
    exists_edge, or_assoc, or_assoc]
  simp only [List.mem_map, exists_exists_and_eq_and, ClasslikeSymbol.listed]

end Gains

/-! ### Constants -/

/-- The constants that a view hands down along an edge. -/
def handedConstants (c : ClasslikeSymbol) (e : Edge) (view : FlatClass) :
    List (FlatMember ClassConstantSymbol) :=
  view.constants.filter fun k => c.passes e k.member.visibility

section Constants

variable {n : String}

theorem mem_constants_mergeTrait (f view : FlatClass) :
    n ∈ labels ClassConstantSymbol.name (f.mergeTrait view).constants ↔
      n ∈ labels ClassConstantSymbol.name f.constants ∨
        n ∈ labels ClassConstantSymbol.name view.constants := by
  refine mem_labels_foldl (fun l m => ?_) view.constants f.constants
  unfold addTraitConstant
  refine mem_labels_addOr (fun e => ?_) (fun e he => ?_) l
  · rfl
  · exact beq_iff_eq.1 he

theorem mem_constants_mergeInterface (sources : List String) (f view : FlatClass) :
    n ∈ labels ClassConstantSymbol.name (mergeInterface sources f view).constants ↔
      n ∈ labels ClassConstantSymbol.name f.constants ∨
        n ∈ labels ClassConstantSymbol.name view.constants := by
  refine mem_labels_foldl (fun l m => ?_) view.constants f.constants
  unfold addInterfaceConstant
  split
  · -- what hides a constant has its name
    rename_i hany
    obtain ⟨e, he, hhides⟩ := List.any_eq_true.1 hany
    refine ⟨.inl, fun h => h.elim id ?_⟩
    rintro rfl
    exact mem_labels.2 ⟨e, he, beq_iff_eq.1 (Bool.and_eq_true_iff.1 hhides).1⟩
  · simp [labels, FlatMember.inherited]

theorem mem_constants_mergeInherited (f view : FlatClass) :
    n ∈ labels ClassConstantSymbol.name (f.mergeInherited view).constants ↔
      n ∈ labels ClassConstantSymbol.name f.constants ∨ n ∈ labels ClassConstantSymbol.name
        (view.constants.filter (·.member.visibility ≠ .priv)) := by
  have hnames : ∀ l : List (FlatMember ClassConstantSymbol),
      labels ClassConstantSymbol.name l = (l.map constantPair).map Prod.fst := by
    intro l
    rw [List.map_map]
    rfl
  rw [hnames, mergeInherited]
  dsimp only
  rw [map_foldl_addParentConstant, ← hnames, List.append_nil, labels, List.map_append,
    List.mem_append]
  refine ⟨Or.imp_right fun h => ?_, fun h => ?_⟩
  · exact (List.filter_sublist.map _).subset h
  · -- a constant that is not entered was hidden by one of its name
    by_cases hold : n ∈ labels ClassConstantSymbol.name f.constants
    · exact .inl hold
    · obtain ⟨m, hm, rfl⟩ := mem_labels.1 (h.resolve_left hold)
      refine .inr (List.mem_map.2 ⟨m, List.mem_filter.2 ⟨hm, ?_⟩, rfl⟩)
      rw [Bool.not_eq_true', ← Bool.not_eq_true]
      intro htaken
      obtain ⟨e, he, hname⟩ := List.any_eq_true.1 htaken
      exact hold (mem_labels.2 ⟨e, he, beq_iff_eq.1 hname⟩)

theorem mem_constants_addParent (m : Merge) (a : Ancestor) :
    n ∈ labels ClassConstantSymbol.name (addParent m a).flat.constants ↔
      n ∈ labels ClassConstantSymbol.name m.flat.constants ∨ ∃ view ∈ a.view,
        n ∈ labels ClassConstantSymbol.name
          (handedConstants m.flat.classlike .parent view) := by
  unfold addParent handedConstants
  cases a.view with
  | none => simp
  | some view =>
    dsimp only
    split
    · rename_i hkind
      simp [mem_constants_mergeInterface, ClasslikeSymbol.passes, hkind]
    · rename_i hkind
      simp [mem_constants_mergeInherited, ClasslikeSymbol.passes, hkind]

theorem mem_constants_addInterface (m : Merge) (a : Ancestor) :
    n ∈ labels ClassConstantSymbol.name (addInterface m a).flat.constants ↔
      n ∈ labels ClassConstantSymbol.name m.flat.constants ∨ ∃ view ∈ a.view,
        n ∈ labels ClassConstantSymbol.name view.constants := by
  unfold addInterface
  cases a.view with
  | none => simp
  | some view => simp [mem_constants_mergeInterface]

end Constants

theorem gains_constants (c : ClasslikeSymbol) (n : String) :
    Gains c (fun f => n ∈ labels ClassConstantSymbol.name f.constants)
      fun e view => n ∈ labels ClassConstantSymbol.name (handedConstants c e view) where
  names _ _ := Iff.rfl
  uses f view := by simpa [handedConstants, ClasslikeSymbol.passes] using
    mem_constants_mergeTrait f view
  adapts views f a := by rw [applyAlias_eq]
  extend m a hm := hm ▸ mem_constants_addParent m a
  implement m a := by simpa [handedConstants, ClasslikeSymbol.passes] using
    mem_constants_addInterface m a

/-- The names of the constants in a view: of its own, and of those that ancestors hand down. -/
theorem mem_constants_assembleFrom (view? : String → Option FlatClass) (c : ClasslikeSymbol)
    (n : String) :
    n ∈ labels ClassConstantSymbol.name (assembleFrom view? c).constants ↔
      n ∈ labels ClassConstantSymbol.name (ofOwn c).constants ∨
        ∃ e, ∃ a ∈ c.listed e, ∃ view ∈ view? a,
          n ∈ labels ClassConstantSymbol.name (handedConstants c e view) :=
  (gains_constants c n).assembleFrom view?

/-! ### Properties -/

/-- The properties that a view hands down along an edge. -/
def handedProperties (c : ClasslikeSymbol) (e : Edge) (view : FlatClass) :
    List (FlatMember PropertySymbol) :=
  if c.passesProperties e then view.properties.filter fun p => c.passes e p.member.visibility
  else []

section Properties

variable {n : String}

theorem mem_properties_mergeTrait (f view : FlatClass) :
    n ∈ labels PropertySymbol.name (f.mergeTrait view).properties ↔
      n ∈ labels PropertySymbol.name f.properties ∨
        n ∈ labels PropertySymbol.name view.properties := by
  refine mem_labels_foldl (fun l m => ?_) view.properties f.properties
  unfold addTraitProperty
  refine mem_labels_addOr (fun e => ?_) (fun e he => ?_) l
  · rfl
  · exact beq_iff_eq.1 he

theorem mem_properties_mergeInherited (f view : FlatClass) :
    n ∈ labels PropertySymbol.name (f.mergeInherited view).properties ↔
      n ∈ labels PropertySymbol.name f.properties ∨ n ∈ labels PropertySymbol.name
        (view.properties.filter (·.member.visibility ≠ .priv)) := by
  refine mem_labels_foldl (fun l m => ?_) _ f.properties
  unfold addParentProperty
  refine mem_labels_addOr (fun e => ?_) (fun e he => ?_) l
  · rfl
  · exact beq_iff_eq.1 he

theorem mem_properties_addParent (m : Merge) (a : Ancestor) :
    n ∈ labels PropertySymbol.name (addParent m a).flat.properties ↔
      n ∈ labels PropertySymbol.name m.flat.properties ∨ ∃ view ∈ a.view,
        n ∈ labels PropertySymbol.name (handedProperties m.flat.classlike .parent view) := by
  unfold addParent handedProperties
  cases a.view with
  | none => simp
  | some view =>
    dsimp only
    split
    · -- the parent of an interface is merged like an interface, which has no step for properties
      rename_i hkind
      simp [mergeInterface, ClasslikeSymbol.passesProperties, hkind, labels]
    · rename_i hkind
      simp [mem_properties_mergeInherited, ClasslikeSymbol.passesProperties,
        ClasslikeSymbol.passes, hkind]

theorem properties_addInterface (m : Merge) (a : Ancestor) :
    (addInterface m a).flat.properties = m.flat.properties := by
  unfold addInterface
  cases a.view with
  | none => rfl
  | some view => rfl

end Properties

theorem gains_properties (c : ClasslikeSymbol) (n : String) :
    Gains c (fun f => n ∈ labels PropertySymbol.name f.properties)
      fun e view => n ∈ labels PropertySymbol.name (handedProperties c e view) where
  names _ _ := Iff.rfl
  uses f view := by simpa [handedProperties, ClasslikeSymbol.passesProperties,
    ClasslikeSymbol.passes] using mem_properties_mergeTrait f view
  adapts views f a := by rw [applyAlias_eq]
  extend m a hm := hm ▸ mem_properties_addParent m a
  implement m a := by simp [handedProperties, ClasslikeSymbol.passesProperties,
    properties_addInterface, labels]

/-- The names of the properties in a view: of its own, and of those that ancestors hand down. -/
theorem mem_properties_assembleFrom (view? : String → Option FlatClass) (c : ClasslikeSymbol)
    (n : String) :
    n ∈ labels PropertySymbol.name (assembleFrom view? c).properties ↔
      n ∈ labels PropertySymbol.name (ofOwn c).properties ∨
        ∃ e, ∃ a ∈ c.listed e, ∃ view ∈ view? a,
          n ∈ labels PropertySymbol.name (handedProperties c e view) :=
  (gains_properties c n).assembleFrom view?

/-! ### Methods -/

/-- A method is handed down along an edge, unless an `insteadof` excludes it. -/
theorem mem_suppliers {view? : String → Option FlatClass} {c : ClasslikeSymbol} {e : Edge}
    {a : String} (ha : a ∈ c.listed e) {view : FlatClass} (hview : view? a = some view)
    {m : FlatMember MethodSymbol} (hm : m ∈ view.methods)
    (hpasses : c.passes e m.member.visibility = true)
    (hkept : e = .trait → excluded c.precedences view.full m.member.name = false) :
    m.member ∈ suppliers c (c.traits.filterMap view?) (c.parents.filterMap view?)
      (c.interfaces.filterMap view?) m.member.name := by
  have hnamed : m.member ∈ view.methodsNamed m.member.name :=
    List.mem_filter.2 ⟨List.mem_map_of_mem hm, foldEq_refl _⟩
  have hlisted : view ∈ (c.listed e).filterMap view? := List.mem_filterMap.2 ⟨a, ha, hview⟩
  simp only [suppliers, List.mem_append, List.mem_flatMap]
  cases e with
  | trait =>
    have hsupply : m.member ∈ traitSupply c m.member.name view := by
      rw [traitSupply, if_neg]
      · exact hnamed
      · exact Bool.eq_false_iff.1 (hkept rfl)
    exact .inl (.inl (.inl (.inr ⟨view, hlisted, hsupply⟩)))
  | parent =>
    exact .inl (.inr ⟨view, hlisted, List.mem_filter.2 ⟨hnamed, hpasses⟩⟩)
  | interface => exact .inr ⟨view, hlisted, hnamed⟩

/-- A method that is supplied has an entry of its name. -/
theorem exists_method_of_supplied {view? : String → Option FlatClass} {c : ClasslikeSymbol}
    {n : String} {m : MethodSymbol}
    (h : m ∈ suppliers c (c.traits.filterMap view?) (c.parents.filterMap view?)
      (c.interfaces.filterMap view?) n) :
    ∃ k ∈ (assembleFrom view? c).methods, foldEq k.member.name n = true := by
  have hfirst := contractOf?_assemble c (c.traits.map fun n => ⟨n, view? n⟩)
    (c.parents.map fun n => ⟨n, view? n⟩) (c.interfaces.map fun n => ⟨n, view? n⟩) n
  simp only [List.filterMap_map, Function.comp_def] at hfirst
  have hsome : (contractOf? n (assembleFrom view? c).methods).isSome = true := by
    obtain ⟨first, rest, hsuppliers⟩ := List.exists_cons_of_ne_nil (List.ne_nil_of_mem h)
    rw [assembleFrom, hfirst, hsuppliers]
    rfl
  rw [contractOf?, Option.isSome_map] at hsome
  exact List.find?_isSome.1 hsome

end FlatClass

namespace Tables

open FlatClass

/-- A classlike has a property of a name by itself, or takes one from a trait or a parent class. -/
def SuppliesProperty (t : Tables) (maxDepth : Nat) (c : ClasslikeSymbol) (n : String) : Prop :=
  n ∈ c.properties.map (·.name) ∨ ∃ e, c.passesProperties e = true ∧ ∃ a ∈ c.listed e,
    ∃ view, t.resolve maxDepth a = .ok view ∧
      ∃ p ∈ view.properties, c.passes e p.member.visibility = true ∧ p.member.name = n

theorem mem_properties_iff_supplies (t : Tables) (maxDepth : Nat) (c : ClasslikeSymbol)
    (n : String) :
    n ∈ labels PropertySymbol.name (assembleFrom (t.flat? maxDepth) c).properties ↔
      t.SuppliesProperty maxDepth c n := by
  have hown : n ∈ labels PropertySymbol.name (ofOwn c).properties ↔
      n ∈ c.properties.map (·.name) := by
    rw [labels, ofOwn, List.map_map]
    rfl
  rw [mem_properties_assembleFrom, hown, SuppliesProperty]
  refine or_congr_right (exists_congr fun e => ?_)
  unfold handedProperties
  split
  · rename_i hpasses
    simp only [hpasses, true_and, mem_labels, List.mem_filter, Option.mem_def,
      flat?_eq_some_iff, and_assoc]
  · rename_i hpasses
    simp [hpasses, labels]

/-- What a resolved classlike takes from an ancestor that is indexed.  All methods and constants of
the ancestor's view have entries of their names, but for the private ones of a parent class and the
methods of a trait that an `insteadof` excludes.  So have the properties of traits and of parent
classes; a property of an interface has one exactly if the classlike has it by itself, or from a
trait or a parent class. -/
theorem ancestors_hand_down (t : Tables) (maxDepth : Nat) (name : String) (view : FlatClass)
    (h : t.resolve maxDepth name = .ok view) :
    ∃ c, t.classlike? name = some c ∧ ∀ e, ∀ a ∈ c.listed e, (t.classlike? a).isSome = true →
      ∃ ancestor, t.resolve maxDepth a = .ok ancestor ∧
        (∀ m ∈ ancestor.methods, c.passes e m.member.visibility = true →
          (e = .trait → excluded c.precedences ancestor.full m.member.name = false) →
            ∃ k ∈ view.methods, foldEq k.member.name m.member.name = true) ∧
        (∀ m ∈ ancestor.constants, c.passes e m.member.visibility = true →
          ∃ k ∈ view.constants, k.member.name = m.member.name) ∧
        ∀ m ∈ ancestor.properties, c.passes e m.member.visibility = true →
          ((∃ k ∈ view.properties, k.member.name = m.member.name) ↔
            c.passesProperties e = true ∨ t.SuppliesProperty maxDepth c m.member.name) := by
  obtain ⟨c, hc, hindexed, rfl⟩ := exists_assembleFrom_of_resolve h
  refine ⟨c, hc, fun e a ha hknown => ?_⟩
  obtain ⟨ancestor, hview⟩ : ∃ ancestor, t.flat? maxDepth a = some ancestor := by
    rw [← Option.isSome_iff_exists, hindexed a (c.listed_subset e ha)]
    exact hknown
  have hok := flat?_eq_some_iff.1 hview
  refine ⟨ancestor, hok, fun m hm hpasses hkept => ?_, fun m hm hpasses => ?_,
    fun m hm hpasses => ?_⟩
  · exact exists_method_of_supplied (mem_suppliers ha hview hm hpasses hkept)
  · have hhanded : m.member.name ∈ labels ClassConstantSymbol.name (handedConstants c e ancestor) :=
      mem_labels.2 ⟨m, List.mem_filter.2 ⟨hm, hpasses⟩, rfl⟩
    exact mem_labels.1 ((mem_constants_assembleFrom _ c _).2 (.inr ⟨e, a, ha, ancestor, hview,
      hhanded⟩))
  · rw [← mem_labels, mem_properties_iff_supplies]
    refine ⟨.inr, fun hsupplied => hsupplied.elim (fun hedge => ?_) id⟩
    exact .inr ⟨e, hedge, a, ha, ancestor, hok, m, hm, hpasses, rfl⟩

/-- A class that implements an interface with a constant, a method and two properties, one of which
its parent has too. -/
def documentedInterface : Tables :=
  Tables.empty.withDocument 10
    (Document.ofSource "a.php"
      ("<?php /** @property int $n\n@property int $k */ " ++
        "interface I {const X=1; function f();} class P {public $n;} " ++
        "class C extends P implements I {}")) 0

theorem documentedInterface_views :
    ∃ view c ancestor, documentedInterface.resolve 10 "C" = .ok view ∧
      documentedInterface.classlike? "C" = some c ∧ "\\I" ∈ c.listed .interface ∧
      documentedInterface.resolve 10 "\\I" = .ok ancestor ∧
      labels PropertySymbol.name view.properties = ["n"] ∧
      labels PropertySymbol.name ancestor.properties = ["n", "k"] ∧
      labels MethodSymbol.name ancestor.methods = ["f"] ∧
      labels ClassConstantSymbol.name ancestor.constants = ["X"] := by
  have hrun : (documentedInterface.flat? 10 "C").map
        (fun v => labels PropertySymbol.name v.properties) = some ["n"] ∧
      (documentedInterface.classlike? "C").map (·.interfaces) = some ["\\I"] ∧
      (documentedInterface.flat? 10 "\\I").map (fun v => (labels PropertySymbol.name v.properties,
        labels MethodSymbol.name v.methods, labels ClassConstantSymbol.name v.constants)) =
          some (["n", "k"], ["f"], ["X"]) := by
    decide +kernel
  obtain ⟨hclass, hlisted, hinterface⟩ := hrun
  obtain ⟨view, hview, hnames⟩ := Option.map_eq_some_iff.1 hclass
  obtain ⟨c, hc, hinterfaces⟩ := Option.map_eq_some_iff.1 hlisted
  obtain ⟨ancestor, hancestor, hmembers⟩ := Option.map_eq_some_iff.1 hinterface
  obtain ⟨hproperties, hrest⟩ := Prod.mk.inj hmembers
  obtain ⟨hmethods, hconstants⟩ := Prod.mk.inj hrest
  refine ⟨view, c, ancestor, flat?_eq_some_iff.1 hview, hc, ?_, flat?_eq_some_iff.1 hancestor,
    hnames, hproperties, hmethods, hconstants⟩
  rw [ClasslikeSymbol.listed, hinterfaces]
  exact List.mem_singleton_self _

/-- The class has the constant and the method, but of the properties only the one that its parent
supplies. -/
theorem ancestors_hand_down_documentedInterface :
    ∃ view c, documentedInterface.resolve 10 "C" = .ok view ∧
      documentedInterface.classlike? "C" = some c ∧
      (∃ m ∈ view.constants, m.member.name = "X") ∧
      (∃ m ∈ view.methods, foldEq m.member.name "f" = true) ∧
      documentedInterface.SuppliesProperty 10 c "n" ∧
      ¬documentedInterface.SuppliesProperty 10 c "k" := by
  obtain ⟨view, c, ancestor, hview, hc, hlisted, hancestor, hnames, hps, hms, hks⟩ :=
    documentedInterface_views
  obtain ⟨c', hc', hhanded⟩ := ancestors_hand_down documentedInterface 10 "C" view hview
  obtain rfl : c = c' := Option.some.inj (hc.symm.trans hc')
  obtain ⟨ancestor', hancestor', hmethods, hconstants, hproperties⟩ :=
    hhanded .interface "\\I" hlisted (length_le_of_resolveFrom_ok hancestor).1
  obtain rfl : ancestor = ancestor' := Except.ok.inj (hancestor.symm.trans hancestor')
  obtain ⟨m, hm, hmname⟩ := mem_labels.1 (hms ▸ List.mem_singleton_self "f")
  obtain ⟨k, hk, hkname⟩ := mem_labels.1 (hks ▸ List.mem_singleton_self "X")
  have hsupplied : ∀ n ∈ ["n", "k"], n ∈ ["n"] ↔
      documentedInterface.SuppliesProperty 10 c n := by
    intro n hn
    obtain ⟨p, hp, rfl⟩ := mem_labels.1 (hps ▸ hn)
    have hiff := hproperties p hp rfl
    rw [← mem_labels, hnames] at hiff
    simpa [ClasslikeSymbol.passesProperties] using hiff
  refine ⟨view, c, hview, hc, ?_, ?_, (hsupplied "n" (by decide)).1 (by decide),
    fun h => absurd ((hsupplied "k" (by decide)).2 h) (by decide)⟩
  · exact hkname ▸ hconstants k hk rfl
  · exact hmname ▸ hmethods m hm rfl nofun

/-- Not every property of an ancestor has an entry: those of interfaces are left out. -/
theorem not_forall_properties_kept :
    ¬∀ (t : Tables) (maxDepth : Nat) (name : String) (view : FlatClass),
      t.resolve maxDepth name = .ok view → ∀ c, t.classlike? name = some c →
        ∀ e, ∀ a ∈ c.listed e, ∀ ancestor, t.resolve maxDepth a = .ok ancestor →
          ∀ m ∈ ancestor.properties, c.passes e m.member.visibility = true →
            ∃ k ∈ view.properties, k.member.name = m.member.name := by
  intro hkept
  obtain ⟨view, c, ancestor, hview, hc, hlisted, hancestor, hnames, hps, -⟩ :=
    documentedInterface_views
  obtain ⟨p, hp, hname⟩ := mem_labels.1 (hps ▸ (by decide : "k" ∈ ["n", "k"]))
  have hentry := hkept documentedInterface 10 "C" view hview c hc .interface "\\I" hlisted ancestor
    hancestor p hp rfl
  rw [← mem_labels, hnames, hname] at hentry
  exact absurd hentry (by decide)

end Tables
end PhpAtlas
