import PhpAtlas.Proofs.Ancestry.Entries
import PhpAtlas.Proofs.Ancestry.Members

/-!
# What ancestors offer to a view

The members of the traits of a classlike are offered to its view first, then aliases, then the
members of the parents and the interfaces.  Whether an offer is noted by the member that hides it
depends on the kind of the member, on the edge along which the offer comes, and on whether the
member is the classlike's own.

## Main definitions

* `MemberKind`, `FlatClass.entries` — the members of a view, of whatever kind.
* `ClasslikeSymbol.notes` — which offers are noted.
* `FlatClass.offers` — the members of a name that are offered to a classlike, in order.

## Main results

* `FlatClass.takes_mergeTrait`, `FlatClass.takes_applyAlias`, `FlatClass.takes_mergeInherited`,
  `FlatClass.takes_mergeInterface` — each step takes what is offered in it.
* `FlatClass.takes_assembleFrom` — a view takes all that the ancestors offer.
-/

namespace PhpAtlas

/-- The kinds of members. -/
inductive MemberKind
  | constant
  | property
  | method
  deriving DecidableEq

/-- Which offers a member of a classlike notes, by its kind, the edge and its origin.  Of what comes
from traits, properties are always noted, methods only by own ones, and constants never; what comes
from parent classes is always noted, and what comes from interfaces never. -/
def ClasslikeSymbol.notes (c : ClasslikeSymbol) : MemberKind → Edge → Origin → Bool
  | .property, .trait, _ => true
  | .method, .trait, origin => origin = .own
  | .constant, .trait, _ => false
  | _, .parent, _ => c.kind ≠ .interface
  | _, .interface, _ => false

namespace FlatClass

/-! ### Members as entries -/

/-- The members of a view, in order. -/
def entries (f : FlatClass) : MemberKind → List Entry
  | .constant => f.constants.map (Entry.of (·.name) (·.owner))
  | .property => f.properties.map (Entry.of (·.name) (·.owner))
  | .method => f.methods.map (Entry.of methodLabel (·.owner))

/-- The ancestors that a view names are no members. -/
theorem entries_names (f : FlatClass) (parents interfaces traits : List String) (k : MemberKind) :
    { f with parents := parents, interfaces := interfaces, traits := traits }.entries k =
      f.entries k := by
  cases k <;> rfl

/-- The methods that a view hands down along an edge. -/
def handedMethods (c : ClasslikeSymbol) (e : Edge) (view : FlatClass) :
    List (FlatMember MethodSymbol) :=
  view.methods.filter fun m => c.passes e m.member.visibility &&
    !(e = .trait && excluded c.precedences view.full m.member.name)

/-- The members that a view hands down along an edge. -/
def handed (c : ClasslikeSymbol) (e : Edge) (view : FlatClass) : MemberKind → List Entry
  | .constant => (handedConstants c e view).map (Entry.of (·.name) (·.owner))
  | .property => (handedProperties c e view).map (Entry.of (·.name) (·.owner))
  | .method => (handedMethods c e view).map (Entry.of methodLabel (·.owner))

theorem handed_sublist (c : ClasslikeSymbol) (e : Edge) (view : FlatClass) (k : MemberKind) :
    (handed c e view k).Sublist (view.entries k) := by
  cases k with
  | constant => exact List.filter_sublist.map _
  | method => exact List.filter_sublist.map _
  | property =>
    refine List.Sublist.map _ ?_
    unfold handedProperties
    split
    · exact List.filter_sublist
    · exact List.nil_sublist _

/-- What a view offers under a label along an edge.  The constants of one view are not compared with
each other. -/
def offered (c : ClasslikeSymbol) (k : MemberKind) (e : Edge) (view : FlatClass) (n : String) :
    List Offer :=
  match k with
  | .constant => Entry.offersFirst (c.notes k e) (Entry.named n (handed c e view k))
  | .property | .method => Entry.offersAll (c.notes k e) (Entry.named n (handed c e view k))

/-- What an alias offers: a copy of a method under its new name, which nothing notes. -/
def aliasOffered (views : List FlatClass) (k : MemberKind) (a : TraitAlias) (n : String) :
    List Offer :=
  match k with
  | .constant | .property => []
  | .method =>
      if a.newName.any (fold · == n) then
        ((aliasSource? views a).map fun m => Offer.silent m.member.owner).toList
      else []

/-- The members of a label that are offered to a classlike, in order. -/
def offers (view? : String → Option FlatClass) (c : ClasslikeSymbol) (k : MemberKind)
    (n : String) : List Offer :=
  (c.traits.filterMap view?).flatMap (offered c k .trait · n) ++
    c.aliases.flatMap (aliasOffered (c.traits.filterMap view?) k · n) ++
      (c.parents.filterMap view?).flatMap (offered c k .parent · n) ++
        (c.interfaces.filterMap view?).flatMap (offered c k .interface · n)

/-! ### Steps as edits -/

/-- Whether the label of a member is taken. -/
def taken (l : List Entry) (m : Entry) : Bool := (Entry.first? m.label l).isSome

theorem changeFirst_of_fixed {α : Type} {change : α → α} (h : ∀ a, change a = a) (p : α → Bool)
    (l : List α) : changeFirst p change l = l := by
  induction l with
  | nil => rfl
  | cons a l ih =>
    unfold changeFirst
    split
    · rw [h]
    · rw [ih]

theorem changeFirst_append {α : Type} {p : α → Bool} {a : List α} (h : a.any p = true)
    (change : α → α) (b : List α) :
    changeFirst p change (a ++ b) = changeFirst p change a ++ b := by
  induction a with
  | nil => cases h
  | cons x a ih =>
    rw [List.cons_append]
    unfold changeFirst
    split
    · rfl
    · rename_i hx
      rw [List.any_cons, Bool.eq_false_iff.2 hx, Bool.false_or] at h
      rw [ih h, List.cons_append]

section Edits

variable {α : Type} {f : α → Entry} {p : α → Bool} {change : α → α} {marks : Origin → Bool}
  {m : Entry}

theorem map_changeFirst_noting (hp : ∀ a, p a = ((f a).label == m.label))
    (hchange : ∀ a, f (change a) = (f a).noting marks m.owner) (l : List α) :
    (changeFirst p change l).map f =
      changeFirst (·.label == m.label) (Entry.noting marks m.owner) (l.map f) := by
  induction l with
  | nil => rfl
  | cons a l ih =>
    simp only [changeFirst, List.map_cons, ← hp]
    split
    · rw [List.map_cons, hchange]
    · rw [List.map_cons, ih]

/-- Adding a member unless its label is taken is an edit. -/
theorem map_addOr (hp : ∀ a, p a = ((f a).label == m.label))
    (hchange : ∀ a, f (change a) = (f a).noting marks m.owner) {new : α}
    (hnew : f new = m.inherited) (l : List α) :
    (addOr p change new l).map f = Entry.edit marks taken (l.map f) m := by
  have htaken : taken (l.map f) m = l.any p := by
    rw [taken, Entry.first?, List.isSome_find?, List.any_map]
    exact List.any_congr rfl fun a => (hp a).symm
  rw [Entry.edit, htaken, addOr]
  split
  · exact map_changeFirst_noting hp hchange l
  · rw [List.map_append, List.map_singleton, hnew]

/-- A run of steps that are edits is a run of edits. -/
theorem map_foldl_edit {add : List α → α → List α} {hidden : List Entry → Entry → Bool}
    (h : ∀ l a, (add l a).map f = Entry.edit marks hidden (l.map f) (f a)) (as l : List α) :
    (as.foldl add l).map f = (as.map f).foldl (Entry.edit marks hidden) (l.map f) := by
  rw [List.foldl_map]
  exact (List.foldl_hom (List.map f) fun l a => (h l a).symm).symm

/-- Adding members, each unless its label is taken, is a run of edits. -/
theorem map_foldl_addOr {p : α → α → Bool} {change : α → α → α} {new : α → α}
    (hp : ∀ m a, p m a = ((f a).label == (f m).label))
    (hchange : ∀ m a, f (change m a) = (f a).noting marks (f m).owner)
    (hnew : ∀ m, f (new m) = (f m).inherited) (ms l : List α) :
    (ms.foldl (fun l m => addOr (p m) (change m) (new m) l) l).map f =
      (ms.map f).foldl (Entry.edit marks taken) (l.map f) :=
  map_foldl_edit (fun l m => map_addOr (hp m) (hchange m) (hnew m) l) ms l

end Edits

/-- What a view offers, where its constants are not noted anyway. -/
theorem offered_eq_offersAll {c : ClasslikeSymbol} {k : MemberKind} {e : Edge}
    (hk : k = .constant → c.notes k e = fun _ => false) (view : FlatClass) :
    offered c k e view =
      fun n => Entry.offersAll (c.notes k e) (Entry.named n (handed c e view k)) := by
  funext n
  cases k with
  | constant => rw [offered, hk rfl, Entry.offersFirst_silent]
  | property => rfl
  | method => rfl

theorem takes_taken (marks : Origin → Bool) (ms l : List Entry) :
    Entry.Takes (fun n => Entry.offersAll marks (Entry.named n ms)) l
      (ms.foldl (Entry.edit marks taken) l) := by
  refine Entry.takes_edits_all (fun l m htaken => ?_) (fun l m hfree => .inl ?_) ms l
  · exact Option.isSome_iff_ne_none.1 htaken
  · exact Option.not_isSome_iff_eq_none.1 (ne_true_of_eq_false hfree)

/-- Members that are entered unless their label is taken are offered. -/
theorem takes_of_taken {c : ClasslikeSymbol} {k : MemberKind} {e : Edge} {f g view : FlatClass}
    (hk : k = .constant → c.notes k e = fun _ => false)
    (h : g.entries k =
      (handed c e view k).foldl (Entry.edit (c.notes k e) taken) (f.entries k)) :
    Entry.Takes (offered c k e view) (f.entries k) (g.entries k) := by
  rw [h, offered_eq_offersAll hk]
  exact takes_taken _ _ _

/-! ### Traits -/

theorem entries_mergeTrait (f view : FlatClass) (k : MemberKind) :
    (f.mergeTrait view).entries k = (handed f.classlike .trait view k).foldl
      (Entry.edit (f.classlike.notes k .trait) taken) (f.entries k) := by
  cases k with
  | constant =>
    have hall : handedConstants f.classlike .trait view = view.constants :=
      List.filter_eq_self.2 fun _ _ => rfl
    rw [handed, hall]
    refine map_foldl_addOr (fun m e => ?_) (fun m e => ?_) (fun m => ?_) _ _ <;> rfl
  | property =>
    have hall : handedProperties f.classlike .trait view = view.properties :=
      List.filter_eq_self.2 fun _ _ => rfl
    rw [handed, hall]
    refine map_foldl_addOr (fun m e => ?_) (fun m e => ?_) (fun m => ?_) _ _ <;> rfl
  | method =>
    refine map_foldl_addOr (fun m e => ?_) (fun m e => ?_) (fun m => ?_) _ _
    · rfl
    · -- only an own method notes that of a trait
      cases horigin : e.origin with
      | own => simp [Entry.noting, Entry.of, ClasslikeSymbol.notes, horigin, FlatMember.shadowing]
      | inherited => simp [Entry.noting, Entry.of, ClasslikeSymbol.notes, horigin]
    · rfl

theorem takes_mergeTrait (f view : FlatClass) (k : MemberKind) :
    Entry.Takes (offered f.classlike k .trait view) (f.entries k)
      ((f.mergeTrait view).entries k) := by
  refine takes_of_taken ?_ (entries_mergeTrait f view k)
  rintro rfl
  rfl

/-! ### Aliases -/

/-- An alias with a new name is entered unless the name is taken. -/
theorem methods_applyAlias {views : List FlatClass} {a : TraitAlias} {name : String}
    {source : FlatMember MethodSymbol} (hsource : aliasSource? views a = some source)
    (hname : a.newName = some name) (f : FlatClass) :
    (applyAlias views f a).methods = addOr (namedLike name) id
      (.inherited { source.member with
        name := name
        visibility := a.visibility.getD source.member.visibility }) f.methods := by
  have htaken : (f.method? name).isSome = f.methods.any (namedLike name) := List.isSome_find?
  rw [applyAlias, hsource, hname, addOr, ← htaken]
  dsimp only
  split
  · exact (changeFirst_of_fixed (fun _ => rfl) _ _).symm
  · rfl

/-- An alias without a new name changes no more than the visibility of a method. -/
theorem entries_applyAlias_of_newName_eq_none {a : TraitAlias} (hname : a.newName = none)
    (views : List FlatClass) (f : FlatClass) :
    (applyAlias views f a).entries .method = f.entries .method := by
  unfold applyAlias
  rw [hname]
  split
  · rfl
  · dsimp only
    split
    · rfl
    · refine map_changeFirst (fun e => ?_) _ f.methods
      rfl

theorem takes_applyAlias (views : List FlatClass) (f : FlatClass) (a : TraitAlias)
    (k : MemberKind) :
    Entry.Takes (aliasOffered views k a) (f.entries k) ((applyAlias views f a).entries k) := by
  cases k with
  | constant =>
    rw [applyAlias_eq]
    exact Entry.Takes.refl _
  | property =>
    rw [applyAlias_eq]
    exact Entry.Takes.refl _
  | method =>
    cases hname : a.newName with
    | none =>
      have hnothing : aliasOffered views .method a = fun _ => [] := by
        funext n
        rw [aliasOffered, hname]
        rfl
      rw [hnothing, entries_applyAlias_of_newName_eq_none hname]
      exact Entry.Takes.refl _
    | some name =>
      cases hsource : aliasSource? views a with
      | none =>
        have hnothing : aliasOffered views .method a = fun _ => [] := by
          funext n
          rw [aliasOffered, hsource]
          exact ite_self _
        have hsame : applyAlias views f a = f := by rw [applyAlias, hsource]
        rw [hnothing, hsame]
        exact Entry.Takes.refl _
      | some source =>
        have hcopy : aliasOffered views .method a = fun n => Entry.offersAll (fun _ => false)
            (Entry.named n [⟨fold name, source.member.owner, .inherited, none⟩]) := by
          funext n
          rw [aliasOffered, hname, hsource, Entry.named_cons]
          by_cases hn : fold name = n
          · simp [hn, Entry.offersAll, Offer.silent, Entry.named]
          · simp [hn, Entry.offersAll, Entry.named]
        have hrun : (applyAlias views f a).entries .method =
            [⟨fold name, source.member.owner, .inherited, none⟩].foldl
              (Entry.edit (fun _ => false) taken) (f.entries .method) := by
          rw [entries, methods_applyAlias hsource hname]
          refine map_addOr (fun e => ?_) (fun e => ?_) ?_ f.methods
          · rfl
          · rfl
          · rfl
        rw [hcopy, hrun]
        exact takes_taken _ _ _

/-! ### Parents -/

/-- The constants of a parent are compared with those that were there before. -/
theorem entries_foldl_addParentConstant {before : List Entry}
    (l closer added : List (FlatMember ClassConstantSymbol))
    (hbefore : ∀ name, closer.any (·.member.name == name) = (Entry.first? name before).isSome) :
    ((l.foldl addParentConstant (closer, added)).1 ++
      (l.foldl addParentConstant (closer, added)).2).map (Entry.of (·.name) (·.owner)) =
        (l.map (Entry.of (·.name) (·.owner))).foldl
          (Entry.edit (fun _ => true) fun _ m => (Entry.first? m.label before).isSome)
            ((closer ++ added).map (Entry.of (·.name) (·.owner))) := by
  induction l generalizing closer added with
  | nil => rfl
  | cons c l ih =>
    rw [List.foldl_cons, List.map_cons, List.foldl_cons, Entry.edit, addParentConstant]
    have hhidden : (Entry.first? (Entry.of (·.name) (·.owner) c).label before).isSome =
        closer.any (·.member.name == c.member.name) := (hbefore c.member.name).symm
    rw [hhidden]
    split
    · rename_i htaken
      have hnames : ∀ name, (changeFirst (·.member.name == c.member.name)
          (·.shadowing c.member.owner) closer).any (·.member.name == name) =
            (Entry.first? name before).isSome := by
        intro name
        rw [← hbefore]
        refine any_changeFirst (fun e => ?_) _ closer
        rfl
      rw [ih _ _ hnames, ← changeFirst_append htaken]
      refine congrArg (List.foldl _ · _) (map_changeFirst_noting (fun e => ?_) (fun e => ?_) _)
      · rfl
      · rfl
    · rw [ih _ _ hbefore]
      refine congrArg (List.foldl _ · _) ?_
      simp only [List.map_append, List.append_assoc]
      rfl

theorem takes_mergeInherited {f : FlatClass} (hkind : f.classlike.kind ≠ .interface)
    (view : FlatClass) (k : MemberKind) :
    Entry.Takes (offered f.classlike k .parent view) (f.entries k)
      ((f.mergeInherited view).entries k) := by
  have hnotes : ∀ k, f.classlike.notes k .parent = fun _ => true := by
    intro k
    funext origin
    cases k <;> exact decide_eq_true hkind
  have hpasses : ∀ v, f.classlike.passes .parent v = decide (v ≠ .priv) := by
    intro v
    simp [ClasslikeSymbol.passes, hkind]
  cases k with
  | constant =>
    have hrun : (f.mergeInherited view).entries .constant =
        (handed f.classlike .parent view .constant).foldl
          (Entry.edit (f.classlike.notes .constant .parent) fun _ m =>
            (Entry.first? m.label (f.entries .constant)).isSome) (f.entries .constant) := by
      have hbefore : ∀ name, f.constants.any (·.member.name == name) =
          (Entry.first? name (f.entries .constant)).isSome := by
        intro name
        rw [Entry.first?, List.isSome_find?, entries, List.any_map]
        rfl
      rw [hnotes, handed, handedConstants]
      simp only [hpasses]
      refine (entries_foldl_addParentConstant _ _ _ hbefore).trans ?_
      rw [List.append_nil]
      rfl
    rw [hrun]
    exact Entry.takes_edits_first _ _ _
  | property =>
    refine takes_of_taken (fun h => by cases h) ?_
    have hpassed : f.classlike.passesProperties .parent = true := decide_eq_true hkind
    rw [hnotes, handed, handedProperties, if_pos hpassed]
    simp only [hpasses]
    refine map_foldl_addOr (fun m e => ?_) (fun m e => ?_) (fun m => ?_) _ _ <;> rfl
  | method =>
    refine takes_of_taken (fun h => by cases h) ?_
    rw [hnotes, handed, handedMethods]
    simp only [hpasses, reduceCtorEq, decide_false, Bool.false_and, Bool.not_false, Bool.and_true]
    refine map_foldl_addOr (fun m e => ?_) (fun m e => ?_) (fun m => ?_) _ _ <;> rfl

/-! ### Interfaces -/

/-- What an interface hands down is never noted, be it implemented or extended by an interface. -/
theorem takes_mergeInterface {c : ClasslikeSymbol} {e : Edge} (hedge : e ≠ .trait)
    (hpasses : ∀ v, c.passes e v = true) (hproperties : c.passesProperties e = false)
    (hnotes : ∀ k, c.notes k e = fun _ => false) (sources : List String) (f view : FlatClass)
    (k : MemberKind) :
    Entry.Takes (offered c k e view) (f.entries k) ((mergeInterface sources f view).entries k) := by
  cases k with
  | constant =>
    have hrun : (mergeInterface sources f view).entries .constant =
        (handed c e view .constant).foldl (Entry.edit (c.notes .constant e) fun l m =>
          l.any fun old => old.label == m.label && (sameClass old.owner m.owner ||
            !sources.contains (Name.key old.owner))) (f.entries .constant) := by
      have hall : handedConstants c e view = view.constants :=
        List.filter_eq_self.2 fun m _ => hpasses m.member.visibility
      rw [handed, hall, hnotes]
      refine map_foldl_edit (fun l m => ?_) _ _
      rw [addInterfaceConstant, Entry.edit, List.any_map]
      split
      · rename_i hhidden
        rw [if_pos]
        · exact (changeFirst_of_fixed (fun _ => rfl) _ _).symm
        · exact hhidden
      · rename_i hfree
        rw [if_neg, List.map_append]
        · rfl
        · exact hfree
    rw [hrun, offered_eq_offersAll fun _ => hnotes _]
    refine Entry.takes_edits_all (fun l m hhidden => ?_) (fun l m _ => .inr (hnotes _)) _ _
    obtain ⟨old, hold, hsame⟩ := List.any_eq_true.1 hhidden
    refine Option.isSome_iff_ne_none.1 (List.find?_isSome.2 ⟨old, hold, ?_⟩)
    exact (Bool.and_eq_true_iff.1 hsame).1
  | property =>
    refine takes_of_taken (fun h => by cases h) ?_
    rw [handed, handedProperties, hproperties]
    rfl
  | method =>
    refine takes_of_taken (fun h => by cases h) ?_
    have hall : handedMethods c e view = view.methods := by
      refine List.filter_eq_self.2 fun m _ => ?_
      rw [hpasses, decide_eq_false hedge]
      rfl
    rw [hnotes, handed, hall]
    refine map_foldl_addOr (fun m e => ?_) (fun m e => ?_) (fun m => ?_) _ _ <;> rfl

/-! ### The whole view -/

theorem takes_addParent (m : Merge) (a : Ancestor) (k : MemberKind) :
    Entry.Takes (fun n => a.view.toList.flatMap (offered m.flat.classlike k .parent · n))
      (m.flat.entries k) ((addParent m a).flat.entries k) := by
  unfold addParent
  cases a.view with
  | none =>
    dsimp only
    rw [entries_names]
    exact Entry.Takes.refl _
  | some view =>
    simp only [Option.toList_some, List.flatMap_singleton]
    rw [← entries_names m.flat (addNames (addName m.flat.parents a.name) view.parents)
      (addNames m.flat.interfaces view.interfaces) (addNames m.flat.traits view.traits)]
    split
    · rename_i hkind
      refine takes_mergeInterface (fun h => by cases h) (fun v => ?_) ?_ (fun k => ?_) _ _ view k
      · simp [ClasslikeSymbol.passes, hkind]
      · simp [ClasslikeSymbol.passesProperties, hkind]
      · funext origin
        cases k <;> simp [ClasslikeSymbol.notes, hkind]
    · rename_i hkind
      exact takes_mergeInherited hkind view k

theorem takes_addInterface (c : ClasslikeSymbol) (m : Merge) (a : Ancestor) (k : MemberKind) :
    Entry.Takes (fun n => a.view.toList.flatMap (offered c k .interface · n))
      (m.flat.entries k) ((addInterface m a).flat.entries k) := by
  unfold addInterface
  cases a.view with
  | none =>
    dsimp only
    rw [entries_names]
    exact Entry.Takes.refl _
  | some view =>
    simp only [Option.toList_some, List.flatMap_singleton]
    rw [← entries_names m.flat m.flat.parents
      (addNames (addName m.flat.interfaces a.name) (view.parents ++ view.interfaces)) m.flat.traits]
    refine takes_mergeInterface (fun h => by cases h) (fun v => rfl) rfl (fun k => ?_) _ _ view k
    cases k <;> rfl

theorem flatMap_toList_view {β : Type} (offer : FlatClass → List β) (ancestors : List Ancestor) :
    (ancestors.flatMap fun a => a.view.toList.flatMap offer) =
      (ancestors.filterMap (·.view)).flatMap offer := by
  rw [List.filterMap_eq_flatMap_toList, List.flatMap_assoc]

theorem takes_withTraits (c : ClasslikeSymbol) (traits : List Ancestor) (k : MemberKind) :
    (withTraits c traits).classlike = c ∧
      Entry.Takes (fun n => (traits.filterMap (·.view)).flatMap (offered c k .trait · n) ++
        c.aliases.flatMap (aliasOffered (traits.filterMap (·.view)) k · n))
        ((ofOwn c).entries k) ((withTraits c traits).entries k) := by
  have hown : { ofOwn c with traits := traitNames traits }.entries k = (ofOwn c).entries k :=
    entries_names _ _ _ _ k
  have htrait : ∀ f view : FlatClass, f.classlike = c → (f.mergeTrait view).classlike = c :=
    fun _ _ hf => hf
  have halias : ∀ (views : List FlatClass) (f : FlatClass) (a : TraitAlias), f.classlike = c →
      (applyAlias views f a).classlike = c := by
    intro views f a hf
    rw [applyAlias_eq]
    exact hf
  obtain ⟨hclass, htraits⟩ := Entry.Takes.foldl (entries · k) (·.classlike = c) htrait
    (fun f view hf => hf ▸ takes_mergeTrait f view k)
    (traits.filterMap (·.view)) { ofOwn c with traits := traitNames traits } rfl
  obtain ⟨hclass', haliases⟩ := Entry.Takes.foldl (entries · k) (·.classlike = c)
    (halias (traits.filterMap (·.view))) (fun f a _ => takes_applyAlias _ f a k) c.aliases _ hclass
  rw [← hown]
  exact ⟨hclass', htraits.trans haliases⟩

/-- A view takes all that the ancestors offer. -/
theorem takes_assembleFrom (view? : String → Option FlatClass) (c : ClasslikeSymbol)
    (k : MemberKind) :
    Entry.Takes (offers view? c k) ((ofOwn c).entries k) ((assembleFrom view? c).entries k) := by
  obtain ⟨hclass, htraits⟩ := takes_withTraits c (c.traits.map fun n => ⟨n, view? n⟩) k
  obtain ⟨-, hparents⟩ := Entry.Takes.foldl (fun m : Merge => m.flat.entries k)
    (·.flat.classlike = c) (fun m a hm => (addParent_classlike m a).trans hm)
    (fun m a hm => hm ▸ takes_addParent m a k) (c.parents.map fun n => ⟨n, view? n⟩)
    ⟨withTraits c (c.traits.map fun n => ⟨n, view? n⟩), []⟩ hclass
  obtain ⟨-, hinterfaces⟩ := Entry.Takes.foldl (fun m : Merge => m.flat.entries k)
    (fun _ => True) (fun _ _ hm => hm) (fun m a _ => takes_addInterface c m a k)
    (c.interfaces.map fun n => ⟨n, view? n⟩)
    (withParents c (c.traits.map fun n => ⟨n, view? n⟩) (c.parents.map fun n => ⟨n, view? n⟩))
    trivial
  have hall := (htraits.trans hparents).trans hinterfaces
  simp only [flatMap_toList_view, List.filterMap_map] at hall
  exact hall

end FlatClass
end PhpAtlas
