import PhpAtlas.Proofs.Ancestry.Precedence
import PhpAtlas.Proofs.Index.Ownership

/-!
# No member is there twice

Each way into a view looks before it enters a member.  A method or a property is entered if no
member of its name is there, so that two of one name can only be the classlike's own.  A constant of
a trait or a parent is entered if its name was free before; one of an interface, if none of its name
and its class is there.  What a parent hands down at a time is not compared with itself, so for
constants the parent must have had them once, and the argument goes by induction over the ancestors.

## Main definitions

* `FlatClass.OnlyOwnTwice` — members of one name are both own.
* `FlatClass.ConstantsOnce` — no two constants have one name and one class.

## Main results

* `FlatClass.membersOnce_assemble` — methods and properties, for every view.
* `FlatClass.constantsOnce_assemble` — constants, from those of the parents.
* `Tables.members_unique` — a resolved classlike has no member twice.
-/

namespace PhpAtlas
namespace FlatClass

/-! ### Members that are entered if their name is free -/

theorem map_changeFirst {α β : Type} {seen : α → β} {change : α → α}
    (h : ∀ a, seen (change a) = seen a) (p : α → Bool) (l : List α) :
    (changeFirst p change l).map seen = l.map seen := by
  induction l with
  | nil => rfl
  | cons a l ih =>
    unfold changeFirst
    split
    · rw [List.map_cons, List.map_cons, h]
    · rw [List.map_cons, List.map_cons, ih]

theorem any_changeFirst {α : Type} {q : α → Bool} {change : α → α} (h : ∀ a, q (change a) = q a)
    (p : α → Bool) (l : List α) : (changeFirst p change l).any q = l.any q := by
  simpa using congrArg (·.any id) (map_changeFirst h p l)

theorem find?_changeFirst {α : Type} {p : α → Bool} {change : α → α}
    (h : ∀ a, p (change a) = p a) (l : List α) :
    (changeFirst p change l).find? p = (l.find? p).map change := by
  induction l with
  | nil => rfl
  | cons a l ih =>
    unfold changeFirst
    cases hp : p a with
    | true => simp [hp, h]
    | false => simp [hp, ih]

/-- A change of an element that is not looked for does not show. -/
theorem find?_changeFirst_of_disjoint {α : Type} {p q : α → Bool} {change : α → α}
    (hkeeps : ∀ a, q (change a) = q a) {l : List α}
    (h : ∀ a ∈ l.find? q, p a = false) : (changeFirst p change l).find? q = l.find? q := by
  induction l with
  | nil => rfl
  | cons a l ih =>
    unfold changeFirst
    cases hq : q a with
    | true =>
      have hp : p a = false := h a (by simp [hq])
      simp [hp, hq]
    | false =>
      have hrest : ∀ b ∈ l.find? q, p b = false := by simpa [hq] using h
      cases hp : p a with
      | true => simp [hq, hkeeps]
      | false => simp [hq, ih hrest]

section Members

variable {α : Type} {label : α → String}

/-- What counts of a member here: its label, and where it comes from. -/
def mark (label : α → String) (m : FlatMember α) : String × Origin := (label m.member, m.origin)

/-- Two members with one label are both the classlike's own. -/
def OnlyOwnTwice (label : α → String) (l : List (FlatMember α)) : Prop :=
  (l.map (mark label)).Pairwise fun a b => a.1 = b.1 → a.2 = .own ∧ b.2 = .own

theorem onlyOwnTwice_own (l : List α) : OnlyOwnTwice label (l.map .own) := by
  rw [OnlyOwnTwice, List.map_map, List.pairwise_map]
  exact List.pairwise_of_forall fun _ _ _ => ⟨rfl, rfl⟩

theorem OnlyOwnTwice.changeFirst {l : List (FlatMember α)} (h : OnlyOwnTwice label l)
    {change : FlatMember α → FlatMember α} (hkeeps : ∀ m, mark label (change m) = mark label m)
    (p : FlatMember α → Bool) : OnlyOwnTwice label (changeFirst p change l) := by
  rw [OnlyOwnTwice, map_changeFirst hkeeps]
  exact h

theorem OnlyOwnTwice.concat {l : List (FlatMember α)} (h : OnlyOwnTwice label l)
    {new : FlatMember α} (hfree : ∀ m ∈ l, label m.member ≠ label new.member) :
    OnlyOwnTwice label (l ++ [new]) := by
  rw [OnlyOwnTwice, List.map_append]
  refine List.pairwise_append.2 ⟨h, List.pairwise_singleton _ _, fun a ha b hb hlabel => ?_⟩
  obtain ⟨m, hm, rfl⟩ := List.mem_map.1 ha
  rw [List.mem_singleton.1 hb] at hlabel
  exact absurd hlabel (hfree m hm)

/-- One step: a member is entered if its label is free, else the one that has it changes. -/
theorem OnlyOwnTwice.addOr {l : List (FlatMember α)} (h : OnlyOwnTwice label l)
    {p : FlatMember α → Bool} {change : FlatMember α → FlatMember α} {new : FlatMember α}
    (hkeeps : ∀ m, mark label (change m) = mark label m)
    (hp : ∀ m, label m.member = label new.member → p m = true) :
    OnlyOwnTwice label (addOr p change new l) := by
  unfold FlatClass.addOr
  split
  · exact h.changeFirst hkeeps p
  · rename_i hnone
    exact h.concat fun m hm hlabel => hnone (List.any_eq_true.2 ⟨m, hm, hp m hlabel⟩)

theorem OnlyOwnTwice.foldl {l : List (FlatMember α)} (h : OnlyOwnTwice label l)
    {add : List (FlatMember α) → FlatMember α → List (FlatMember α)}
    (hadd : ∀ l m, OnlyOwnTwice label l → OnlyOwnTwice label (add l m))
    (members : List (FlatMember α)) : OnlyOwnTwice label (members.foldl add l) :=
  List.foldlRecOn (motive := OnlyOwnTwice label) members add h fun l h m _ => hadd l m h

end Members

/-! ### Methods and properties -/

/-- The label of a method: names are compared without regard to case. -/
def methodLabel (m : MethodSymbol) : String := fold m.name

/-- Methods of one name are own, and so are properties of one name. -/
structure MembersOnce (f : FlatClass) : Prop where
  methods : OnlyOwnTwice methodLabel f.methods
  properties : OnlyOwnTwice PropertySymbol.name f.properties

theorem onlyOwnTwice_addMethod {change : FlatMember MethodSymbol → FlatMember MethodSymbol}
    (hkeeps : ∀ e, mark methodLabel (change e) = mark methodLabel e) (m : MethodSymbol)
    {methods : List (FlatMember MethodSymbol)} (h : OnlyOwnTwice methodLabel methods) :
    OnlyOwnTwice methodLabel (addOr (namedLike m.name) change (.inherited m) methods) :=
  h.addOr hkeeps fun _ hname => foldEq_iff.2 hname

theorem onlyOwnTwice_addProperty {change : FlatMember PropertySymbol → FlatMember PropertySymbol}
    (hkeeps : ∀ e, mark PropertySymbol.name (change e) = mark PropertySymbol.name e)
    (p : PropertySymbol) {properties : List (FlatMember PropertySymbol)}
    (h : OnlyOwnTwice PropertySymbol.name properties) :
    OnlyOwnTwice PropertySymbol.name
      (addOr (·.member.name == p.name) change (.inherited p) properties) :=
  h.addOr hkeeps fun _ hname => beq_iff_eq.2 hname

theorem onlyOwnTwice_addTraitMethod (methods : List (FlatMember MethodSymbol))
    (m : FlatMember MethodSymbol) (h : OnlyOwnTwice methodLabel methods) :
    OnlyOwnTwice methodLabel (addTraitMethod methods m) := by
  refine onlyOwnTwice_addMethod (fun e => ?_) m.member h
  split <;> rfl

theorem onlyOwnTwice_addParentMethod (methods : List (FlatMember MethodSymbol))
    (m : FlatMember MethodSymbol) (h : OnlyOwnTwice methodLabel methods) :
    OnlyOwnTwice methodLabel (addParentMethod methods m) := by
  refine onlyOwnTwice_addMethod (fun e => ?_) m.member h
  rfl

theorem onlyOwnTwice_addInterfaceMethod (methods : List (FlatMember MethodSymbol))
    (m : FlatMember MethodSymbol) (h : OnlyOwnTwice methodLabel methods) :
    OnlyOwnTwice methodLabel (addInterfaceMethod methods m) := by
  refine onlyOwnTwice_addMethod (fun e => ?_) m.member h
  rfl

theorem onlyOwnTwice_addTraitProperty (properties : List (FlatMember PropertySymbol))
    (p : FlatMember PropertySymbol) (h : OnlyOwnTwice PropertySymbol.name properties) :
    OnlyOwnTwice PropertySymbol.name (addTraitProperty properties p) := by
  refine onlyOwnTwice_addProperty (fun e => ?_) p.member h
  rfl

theorem onlyOwnTwice_addParentProperty (properties : List (FlatMember PropertySymbol))
    (p : FlatMember PropertySymbol) (h : OnlyOwnTwice PropertySymbol.name properties) :
    OnlyOwnTwice PropertySymbol.name (addParentProperty properties p) := by
  refine onlyOwnTwice_addProperty (fun e => ?_) p.member h
  rfl

namespace MembersOnce

variable {f : FlatClass}

theorem mergeTrait (h : f.MembersOnce) (view : FlatClass) : (f.mergeTrait view).MembersOnce :=
  ⟨h.methods.foldl onlyOwnTwice_addTraitMethod _,
    h.properties.foldl onlyOwnTwice_addTraitProperty _⟩

/-- An alias is entered if its name is free. -/
theorem applyAlias (h : f.MembersOnce) (views : List FlatClass) (a : TraitAlias) :
    (applyAlias views f a).MembersOnce := by
  unfold FlatClass.applyAlias
  split
  · exact h
  · split
    · split
      · exact h
      · rename_i name _ htaken
        refine ⟨h.methods.concat fun m hm hname => htaken ?_, h.properties⟩
        exact List.find?_isSome.2 ⟨m, hm, foldEq_iff.2 hname⟩
    · split
      · exact h
      · refine ⟨h.methods.changeFirst (fun m => ?_) _, h.properties⟩
        rfl

theorem mergeInherited (h : f.MembersOnce) (view : FlatClass) :
    (f.mergeInherited view).MembersOnce :=
  ⟨h.methods.foldl onlyOwnTwice_addParentMethod _,
    h.properties.foldl onlyOwnTwice_addParentProperty _⟩

theorem mergeInterface (h : f.MembersOnce) (sources : List String) (view : FlatClass) :
    (mergeInterface sources f view).MembersOnce :=
  ⟨h.methods.foldl onlyOwnTwice_addInterfaceMethod _, h.properties⟩

theorem addParent {m : Merge} (h : m.flat.MembersOnce) (a : Ancestor) :
    (addParent m a).flat.MembersOnce := by
  have hnamed : ∀ parents interfaces traits : List String,
      { m.flat with parents := parents, interfaces := interfaces, traits := traits }.MembersOnce :=
    fun _ _ _ => ⟨h.methods, h.properties⟩
  unfold FlatClass.addParent
  cases a.view with
  | none => exact ⟨h.methods, h.properties⟩
  | some view =>
    dsimp only
    split
    · exact (hnamed _ _ _).mergeInterface _ view
    · exact (hnamed _ _ _).mergeInherited view

theorem addInterface {m : Merge} (h : m.flat.MembersOnce) (a : Ancestor) :
    (addInterface m a).flat.MembersOnce := by
  have hnamed : ∀ interfaces : List String,
      { m.flat with interfaces := interfaces }.MembersOnce := fun _ => ⟨h.methods, h.properties⟩
  unfold FlatClass.addInterface
  cases a.view with
  | none => exact ⟨h.methods, h.properties⟩
  | some view => exact (hnamed _).mergeInterface _ view

end MembersOnce

/-- In every view, methods of one name are own, and so are properties of one name. -/
theorem membersOnce_assemble (c : ClasslikeSymbol) (traits parents interfaces : List Ancestor) :
    (assemble c traits parents interfaces).MembersOnce := by
  have hown : { ofOwn c with traits := traitNames traits }.MembersOnce :=
    ⟨onlyOwnTwice_own c.methods, onlyOwnTwice_own c.properties⟩
  have htraits : (withTraits c traits).MembersOnce :=
    List.foldlRecOn (motive := MembersOnce) _ _
      (List.foldlRecOn (motive := MembersOnce) _ _ hown fun _ h view _ => h.mergeTrait view)
      fun _ h a _ => h.applyAlias _ a
  have hparents : (withParents c traits parents).flat.MembersOnce :=
    List.foldlRecOn (motive := fun m : Merge => m.flat.MembersOnce) parents _ htraits
      fun _ h a _ => h.addParent a
  exact List.foldlRecOn (motive := fun m : Merge => m.flat.MembersOnce) interfaces _ hparents
    fun _ h a _ => h.addInterface a

/-! ### Constants -/

/-- One text for all the names of a class. -/
def classLabel (name : String) : String :=
  fold (String.ofList (Text.dropLeading Name.separator name.toList))

theorem sameClass_iff {a b : String} : sameClass a b = true ↔ classLabel a = classLabel b :=
  foldEq_iff

/-- A constant is known by its name and the class that declares it. -/
def constantPair (c : FlatMember ClassConstantSymbol) : String × String :=
  (c.member.name, classLabel c.member.owner)

/-- No constant is in a list twice. -/
def ConstantsOnce (constants : List (FlatMember ClassConstantSymbol)) : Prop :=
  (constants.map constantPair).Nodup

/-- Whether a list has a constant of a name. -/
def hasConstant (constants : List (FlatMember ClassConstantSymbol)) (name : String) : Bool :=
  constants.any (·.member.name == name)

theorem name_ne_of_hasConstant_eq_false {constants : List (FlatMember ClassConstantSymbol)}
    {name : String} (h : ¬hasConstant constants name = true) :
    ∀ e ∈ constants, e.member.name ≠ name :=
  fun e he hname => h (List.any_eq_true.2 ⟨e, he, beq_iff_eq.2 hname⟩)

theorem ConstantsOnce.concat {constants : List (FlatMember ClassConstantSymbol)}
    (h : ConstantsOnce constants) {new : FlatMember ClassConstantSymbol}
    (hnew : ∀ e ∈ constants, constantPair e ≠ constantPair new) :
    ConstantsOnce (constants ++ [new]) := by
  rw [ConstantsOnce, List.map_append]
  refine List.nodup_append.2 ⟨h, List.pairwise_singleton _ _, fun a ha b hb => ?_⟩
  obtain ⟨e, he, rfl⟩ := List.mem_map.1 ha
  rw [List.mem_singleton.1 hb]
  exact hnew e he

theorem ConstantsOnce.addTraitConstant {constants : List (FlatMember ClassConstantSymbol)}
    (h : ConstantsOnce constants) (c : FlatMember ClassConstantSymbol) :
    ConstantsOnce (addTraitConstant constants c) := by
  unfold FlatClass.addTraitConstant addOr
  split
  · have hkeeps : ∀ e : FlatMember ClassConstantSymbol, constantPair (id e) = constantPair e :=
      fun _ => rfl
    rw [ConstantsOnce, map_changeFirst hkeeps]
    exact h
  · rename_i hfree
    exact h.concat fun e he hpair =>
      name_ne_of_hasConstant_eq_false hfree e he (congrArg Prod.fst hpair)

theorem ConstantsOnce.addInterfaceConstant {constants : List (FlatMember ClassConstantSymbol)}
    (h : ConstantsOnce constants) (sources : List String) (c : FlatMember ClassConstantSymbol) :
    ConstantsOnce (addInterfaceConstant sources constants c) := by
  unfold FlatClass.addInterfaceConstant
  split
  · exact h
  · rename_i hfree
    refine h.concat fun e he hpair => hfree (List.any_eq_true.2 ⟨e, he, ?_⟩)
    obtain ⟨hname, hclass⟩ := Prod.mk.inj hpair
    have hsame : sameClass e.member.owner c.member.owner = true := sameClass_iff.2 hclass
    have hname : e.member.name = c.member.name := hname
    simp [hidesConstant, hname, hsame]

/-- A parent hands down the constants whose names were free before it came, and the constants that
were there keep their names and classes. -/
theorem map_foldl_addParentConstant
    (l closer added : List (FlatMember ClassConstantSymbol)) :
    ((l.foldl addParentConstant (closer, added)).1 ++
      (l.foldl addParentConstant (closer, added)).2).map constantPair =
        (closer ++ added ++
          l.filter fun c => !hasConstant closer c.member.name).map constantPair := by
  induction l generalizing closer added with
  | nil => simp
  | cons c l ih =>
    rw [List.foldl_cons, addParentConstant]
    split
    · rename_i htaken
      have hpairs : (changeFirst (·.member.name == c.member.name)
          (·.shadowing c.member.owner) closer).map constantPair = closer.map constantPair := by
        refine map_changeFirst (fun e => ?_) _ _
        rfl
      have hnames : ∀ name, hasConstant (changeFirst (·.member.name == c.member.name)
          (·.shadowing c.member.owner) closer) name = hasConstant closer name := by
        intro name
        refine any_changeFirst (fun e => ?_) _ closer
        rfl
      rw [ih, List.filter_cons_of_neg (by simpa [hasConstant] using htaken)]
      simp only [List.map_append, hpairs, hnames]
    · rename_i hfree
      rw [ih, List.filter_cons_of_pos (by simpa [hasConstant] using hfree)]
      simp only [List.map_append, List.map_cons, List.append_assoc, List.cons_append,
        List.nil_append]
      rfl

theorem ConstantsOnce.mergeInherited {f view : FlatClass} (h : ConstantsOnce f.constants)
    (hview : ConstantsOnce view.constants) : ConstantsOnce (f.mergeInherited view).constants := by
  rw [ConstantsOnce, FlatClass.mergeInherited]
  dsimp only
  rw [map_foldl_addParentConstant, List.append_nil, List.map_append]
  refine List.nodup_append.2 ⟨h, ?_, fun a ha b hb => ?_⟩
  · exact hview.sublist ((List.filter_sublist.trans List.filter_sublist).map constantPair)
  · rintro rfl
    obtain ⟨e, he, rfl⟩ := List.mem_map.1 ha
    obtain ⟨c, hc, hpair⟩ := List.mem_map.1 hb
    have hfree := (List.mem_filter.1 hc).2
    rw [Bool.not_eq_true', ← Bool.not_eq_true] at hfree
    exact name_ne_of_hasConstant_eq_false hfree e he (congrArg Prod.fst hpair).symm

theorem ConstantsOnce.mergeInterface {f : FlatClass} (h : ConstantsOnce f.constants)
    (sources : List String) (view : FlatClass) :
    ConstantsOnce (mergeInterface sources f view).constants :=
  List.foldlRecOn (motive := ConstantsOnce) view.constants _ h
    fun _ h c _ => h.addInterfaceConstant sources c

theorem ConstantsOnce.addParent {m : Merge} (h : ConstantsOnce m.flat.constants) {a : Ancestor}
    (ha : ∀ view, a.view = some view → ConstantsOnce view.constants) :
    ConstantsOnce (addParent m a).flat.constants := by
  unfold FlatClass.addParent
  cases hview : a.view with
  | none => exact h
  | some view =>
    dsimp only
    split
    · exact ConstantsOnce.mergeInterface h _ view
    · exact ConstantsOnce.mergeInherited h (ha view hview)

theorem ConstantsOnce.addInterface {m : Merge} (h : ConstantsOnce m.flat.constants)
    (a : Ancestor) : ConstantsOnce (addInterface m a).flat.constants := by
  unfold FlatClass.addInterface
  cases a.view with
  | none => exact h
  | some view => exact ConstantsOnce.mergeInterface h _ view

/-- No constant is in a view twice, if none is in the view of a parent twice and the own constants
have different names. -/
theorem constantsOnce_assemble (c : ClasslikeSymbol) (traits parents interfaces : List Ancestor)
    (hown : (c.constants.map (·.name)).Nodup)
    (hparents : ∀ a ∈ parents, ∀ view, a.view = some view → ConstantsOnce view.constants) :
    ConstantsOnce (assemble c traits parents interfaces).constants := by
  have hbefore : ConstantsOnce (ofOwn c).constants := by
    rw [ConstantsOnce, ofOwn, List.map_map]
    refine List.pairwise_map.2 ((List.pairwise_map.1 hown).imp fun hname hpair => hname ?_)
    exact congrArg Prod.fst hpair
  have htraits : ConstantsOnce (withTraits c traits).constants := by
    have halias : ∀ views f a, (applyAlias views f a).constants = f.constants := by
      intro views f a
      rw [applyAlias_eq]
    rw [withTraits, mergeTraits, foldl_keeps constants (halias _)]
    refine List.foldlRecOn (motive := fun f : FlatClass => ConstantsOnce f.constants) _ _ hbefore
      fun f hf view _ => ?_
    exact List.foldlRecOn (motive := ConstantsOnce) view.constants _ hf
      fun _ h e _ => h.addTraitConstant e
  have hmiddle : ConstantsOnce (withParents c traits parents).flat.constants :=
    List.foldlRecOn (motive := fun m : Merge => ConstantsOnce m.flat.constants) parents _ htraits
      fun _ h a ha => h.addParent (hparents a ha)
  exact List.foldlRecOn (motive := fun m : Merge => ConstantsOnce m.flat.constants) interfaces _
    hmiddle fun _ h a _ => h.addInterface a

end FlatClass

namespace Tables

open FlatClass

variable {t : Tables}

theorem mem_values_of_classlike? {name : String} {c : ClasslikeSymbol}
    (h : t.classlike? name = some c) : c ∈ t.classlikes.values :=
  List.mem_map.2 ⟨_, Table.get?_eq_some_iff.1 h, rfl⟩

/-- Where no classlike declares two constants of one name, no view has a constant twice. -/
theorem constantsOnce_of_resolve
    (hown : ∀ c ∈ t.classlikes.values, (c.constants.map (·.name)).Nodup) {maxDepth : Nat}
    {name : String} {view : FlatClass} (h : t.resolve maxDepth name = .ok view) :
    ConstantsOnce view.constants := by
  refine resolve_induction (P := fun _ view => ConstantsOnce view.constants) ?_ h
  intro name c hc _ ih
  refine constantsOnce_assemble c _ _ _ (hown c (mem_values_of_classlike? hc)) ?_
  intro a ha view hview
  obtain ⟨n, hn, rfl⟩ := List.mem_map.1 ha
  exact ih n (c.parents_subset hn) view hview

/-- A resolved classlike has no member twice, whatever ways lead to it.  Methods of one name are
both own, and so are properties of one name.  Where no classlike declares two constants of one name,
constants of one name are declared by different classes. -/
theorem members_unique (t : Tables) (maxDepth : Nat) (name : String) (view : FlatClass)
    (h : t.resolve maxDepth name = .ok view) :
    (view.methods.Pairwise fun a b => foldEq a.member.name b.member.name = true →
      a.origin = .own ∧ b.origin = .own) ∧
    (view.properties.Pairwise fun a b => a.member.name = b.member.name →
      a.origin = .own ∧ b.origin = .own) ∧
    ((∀ c ∈ t.classlikes.values, (c.constants.map (·.name)).Nodup) →
      view.constants.Pairwise fun a b => a.member.name = b.member.name →
        sameClass a.member.owner b.member.owner = false) := by
  have hmembers : view.MembersOnce := by
    obtain ⟨c, -, -, rfl⟩ := exists_assembleFrom_of_resolve h
    exact membersOnce_assemble c _ _ _
  refine ⟨?_, List.pairwise_map.1 hmembers.properties, fun hown => ?_⟩
  · exact (List.pairwise_map.1 hmembers.methods).imp fun honly hname => honly (foldEq_iff.1 hname)
  · refine (List.pairwise_map.1 (constantsOnce_of_resolve hown h)).imp fun hpair hname => ?_
    rw [← Bool.not_eq_true]
    exact fun hclass => hpair (Prod.ext hname (sameClass_iff.1 hclass))

/-- A class that comes to one interface by its parent, by an interface of its own and by itself, and
to a method of that interface by a trait too. -/
def diamond : Tables :=
  Tables.empty.withDocument 10
    (Document.ofSource "a.php"
      ("<?php interface I {const X=1; function m();} " ++
        "interface J extends I {const X=2;} class P implements I {} " ++
        "trait T {function M();} class C extends P implements J,I {use T;}")) 0

/-- It has the constants of both interfaces, and each of them once. -/
theorem members_unique_diamond :
    ∃ view, diamond.resolve 10 "C" = .ok view ∧
      view.constants.map (·.member.name) = ["X", "X"] ∧
      (view.methods.Pairwise fun a b => foldEq a.member.name b.member.name = true →
        a.origin = .own ∧ b.origin = .own) ∧
      view.constants.Pairwise fun a b => a.member.name = b.member.name →
        sameClass a.member.owner b.member.owner = false := by
  have hrun : (diamond.flat? 10 "C").map (·.constants.map (·.member.name)) = some ["X", "X"] := by
    decide +kernel
  obtain ⟨view, hview, hnames⟩ := Option.map_eq_some_iff.1 hrun
  have hok := flat?_eq_some_iff.1 hview
  obtain ⟨hmethods, -, hconstants⟩ := members_unique diamond 10 "C" view hok
  exact ⟨view, hok, hnames, hmethods, hconstants (by decide +kernel)⟩

end Tables
end PhpAtlas
