import Mathlib.Logic.Relation
import PhpAtlas.Proofs.Ancestry.Precedence
import PhpAtlas.Proofs.Index.Ownership
import PhpAtlas.Proofs.Scope.Names

/-!
# Subtyping is reachability

A view keeps three lists of names.  A parent hands down its parents, interfaces and traits each to
the list of the same kind; an interface hands down its parents and its interfaces to one list.  For
subtyping only the parents and the interfaces count, and these two lists together gain exactly what
an ancestor has in them, and its name.  So they hold what is reached along parents and interfaces.

## Main definitions

* `HasName`, `NoNameTwice` — lists of names up to the case of ASCII letters.
* `FlatClass.supertypes` — the names that make a subtype.
* `Tables.Inherits` — one step to a parent or an interface.

## Main results

* `FlatClass.hasName_supertypes_assemble` — the supertypes of a view from those of its ancestors.
* `Tables.hasName_supertypes_iff` — the supertypes of a resolved classlike are what it reaches.
* `Tables.isSubtypeOf_iff_inherits` — the same for subtyping, which is therefore transitive.
-/

namespace PhpAtlas

open Relation

/-! ### Lists of names -/

/-- A name is in a list, up to case. -/
def HasName (names : List String) (x : String) : Prop := ∃ n ∈ names, foldEq n x = true

/-- No two names of a list are equal up to case. -/
def NoNameTwice (names : List String) : Prop := names.Pairwise fun a b => foldEq a b = false

@[simp] theorem hasName_nil (x : String) : ¬HasName [] x := by simp [HasName]

@[simp] theorem hasName_cons (n : String) (names : List String) (x : String) :
    HasName (n :: names) x ↔ foldEq n x = true ∨ HasName names x := by simp [HasName]

@[simp] theorem hasName_append (a b : List String) (x : String) :
    HasName (a ++ b) x ↔ HasName a x ∨ HasName b x := by
  simp [HasName, or_and_right, exists_or]

instance (names : List String) (x : String) : Decidable (HasName names x) :=
  inferInstanceAs (Decidable (∃ n ∈ names, foldEq n x = true))

theorem HasName.congr {names : List String} {x y : String} (h : HasName names x)
    (hxy : foldEq x y = true) : HasName names y := by
  obtain ⟨n, hn, hnx⟩ := h
  exact ⟨n, hn, foldEq_trans hnx hxy⟩

namespace FlatClass

@[simp] theorem hasName_addName (names : List String) (n x : String) :
    HasName (addName names n) x ↔ HasName names x ∨ foldEq n x = true := by
  unfold addName
  split
  · rename_i hany
    have hn : HasName names n := by simpa [HasName] using hany
    exact ⟨.inl, fun h => h.elim id hn.congr⟩
  · simp

@[simp] theorem hasName_addNames (names more : List String) (x : String) :
    HasName (addNames names more) x ↔ HasName names x ∨ HasName more x := by
  induction more generalizing names with
  | nil => simp [addNames]
  | cons n more ih => rw [addNames, List.foldl_cons, ← addNames, ih, hasName_addName, hasName_cons,
      or_assoc]

theorem noNameTwice_addName {names : List String} (h : NoNameTwice names) (n : String) :
    NoNameTwice (addName names n) := by
  unfold addName
  split
  · exact h
  · rename_i hany
    refine List.pairwise_append.2 ⟨h, List.pairwise_singleton _ _, fun a ha b hb => ?_⟩
    rw [List.mem_singleton.1 hb, ← Bool.not_eq_true]
    exact fun han => hany (List.any_eq_true.2 ⟨a, ha, han⟩)

theorem noNameTwice_addNames {names : List String} (h : NoNameTwice names) (more : List String) :
    NoNameTwice (addNames names more) := by
  induction more generalizing names with
  | nil => exact h
  | cons n more ih => exact ih (noNameTwice_addName h n)

/-! ### What the steps of a view do to the names -/

/-- The ancestors that make a subtype: classes and interfaces, but not traits. -/
def supertypes (f : FlatClass) : List String := f.parents ++ f.interfaces

/-- The names that an ancestor hands down from one of its lists. -/
def Ancestor.handed (names : FlatClass → List String) (a : Ancestor) : List String :=
  (a.view.map names).getD []

/-- The supertypes that an ancestor makes: itself, and those that it hands down. -/
def Ancestor.supertypes (a : Ancestor) : List String := a.name :: a.handed FlatClass.supertypes

theorem isSubtypeOf_iff {f : FlatClass} {x : String} :
    f.isSubtypeOf x = true ↔ foldEq f.full x = true ∨ HasName f.supertypes x := by
  rw [isSubtypeOf, List.any_eq_true, ← supertypes]
  exact hasName_cons f.full f.supertypes x

/-- Traits supply members; of the names, only those of traits are there with them. -/
theorem withTraits_names (c : ClasslikeSymbol) (traits : List Ancestor) :
    ((withTraits c traits).parents, (withTraits c traits).interfaces,
      (withTraits c traits).traits) = ([], [], traitNames traits) := by
  have htraits := foldl_keeps (f := mergeTrait)
    (fun g : FlatClass => (g.parents, g.interfaces, g.traits)) (fun _ _ => rfl)
    (traits.filterMap (·.view)) { ofOwn c with traits := traitNames traits }
  refine (foldl_keeps (fun g : FlatClass => (g.parents, g.interfaces, g.traits))
    (fun g a => ?_) _ _).trans htraits
  rw [applyAlias_eq]

theorem addParent_names (m : Merge) (a : Ancestor) :
    (addParent m a).flat.parents = addNames (addName m.flat.parents a.name) (a.handed parents) ∧
      (addParent m a).flat.interfaces = addNames m.flat.interfaces (a.handed interfaces) ∧
      (addParent m a).flat.traits = addNames m.flat.traits (a.handed traits) := by
  unfold addParent Ancestor.handed
  cases a.view with
  | none => exact ⟨rfl, rfl, rfl⟩
  | some view =>
    dsimp only
    split
    · exact ⟨rfl, rfl, rfl⟩
    · exact ⟨rfl, rfl, rfl⟩

theorem addInterface_names (m : Merge) (a : Ancestor) :
    (addInterface m a).flat.parents = m.flat.parents ∧
      (addInterface m a).flat.interfaces =
        addNames (addName m.flat.interfaces a.name) (a.handed supertypes) ∧
      (addInterface m a).flat.traits = m.flat.traits := by
  unfold addInterface Ancestor.handed
  cases a.view with
  | none => exact ⟨rfl, rfl, rfl⟩
  | some view => exact ⟨rfl, rfl, rfl⟩

theorem hasName_handed_supertypes (a : Ancestor) (x : String) :
    HasName (a.handed supertypes) x ↔
      HasName (a.handed parents) x ∨ HasName (a.handed interfaces) x := by
  unfold Ancestor.handed
  cases a.view with
  | none => simp
  | some view => exact hasName_append view.parents view.interfaces x

/-- A parent adds its supertypes, each to its own list. -/
theorem hasName_supertypes_addParent (m : Merge) (a : Ancestor) (x : String) :
    HasName (addParent m a).flat.supertypes x ↔
      HasName m.flat.supertypes x ∨ HasName a.supertypes x := by
  obtain ⟨hparents, hinterfaces, -⟩ := addParent_names m a
  simp only [supertypes, Ancestor.supertypes, hparents, hinterfaces, hasName_append,
    hasName_addNames, hasName_addName, hasName_cons, hasName_handed_supertypes]
  tauto

/-- An interface adds its supertypes, all to one list. -/
theorem hasName_supertypes_addInterface (m : Merge) (a : Ancestor) (x : String) :
    HasName (addInterface m a).flat.supertypes x ↔
      HasName m.flat.supertypes x ∨ HasName a.supertypes x := by
  obtain ⟨hparents, hinterfaces, -⟩ := addInterface_names m a
  rw [supertypes, supertypes, hparents, hinterfaces, Ancestor.supertypes]
  simp only [hasName_append, hasName_addNames, hasName_addName, hasName_cons, or_assoc]

theorem hasName_supertypes_foldl {step : Merge → Ancestor → Merge}
    (hstep : ∀ m a x, HasName (step m a).flat.supertypes x ↔
      HasName m.flat.supertypes x ∨ HasName a.supertypes x)
    (l : List Ancestor) (m : Merge) (x : String) :
    HasName (l.foldl step m).flat.supertypes x ↔
      HasName m.flat.supertypes x ∨ ∃ a ∈ l, HasName a.supertypes x :=
  (foldl_iff_or step (fun m => HasName m.flat.supertypes x) (fun _ => True)
    (fun _ _ _ => trivial) (fun m a _ => hstep m a x) l m trivial).2

/-- The supertypes of a view are those that its parents and its interfaces make. -/
theorem hasName_supertypes_assemble (c : ClasslikeSymbol)
    (traits parents interfaces : List Ancestor) (x : String) :
    HasName (assemble c traits parents interfaces).supertypes x ↔
      ∃ a ∈ parents ++ interfaces, HasName a.supertypes x := by
  obtain ⟨hparents, hnames⟩ := Prod.mk.inj (withTraits_names c traits)
  obtain ⟨hinterfaces, -⟩ := Prod.mk.inj hnames
  rw [assemble_eq, hasName_supertypes_foldl hasName_supertypes_addInterface, withParents,
    hasName_supertypes_foldl hasName_supertypes_addParent]
  simp only [supertypes, hparents, hinterfaces, List.append_nil, hasName_nil, false_or,
    List.mem_append, or_and_right, exists_or]

theorem assemble_classlike (c : ClasslikeSymbol) (traits parents interfaces : List Ancestor) :
    (assemble c traits parents interfaces).classlike = c := by
  have hinterface : ∀ m a, (addInterface m a).flat.classlike = m.flat.classlike := by
    intro m a
    unfold addInterface
    cases a.view with
    | none => rfl
    | some view => rfl
  have htraits : (withTraits c traits).classlike = c := by
    refine (foldl_keeps classlike (fun g a => ?_) _ _).trans
      (foldl_keeps (f := mergeTrait) classlike (fun _ _ => rfl) _ _)
    rw [applyAlias_eq]
  rw [assemble_eq, foldl_keeps (fun m : Merge => m.flat.classlike) hinterface, withParents,
    foldl_keeps (fun m : Merge => m.flat.classlike) addParent_classlike, htraits]

/-! ### No name twice -/

/-- None of the three lists of a view has a name twice. -/
structure Tidy (f : FlatClass) : Prop where
  parents : NoNameTwice f.parents
  interfaces : NoNameTwice f.interfaces
  traits : NoNameTwice f.traits

theorem Tidy.addParent {m : Merge} (h : m.flat.Tidy) (a : Ancestor) :
    (addParent m a).flat.Tidy := by
  obtain ⟨hparents, hinterfaces, htraits⟩ := addParent_names m a
  refine ⟨?_, ?_, ?_⟩
  · rw [hparents]
    exact noNameTwice_addNames (noNameTwice_addName h.parents _) _
  · rw [hinterfaces]
    exact noNameTwice_addNames h.interfaces _
  · rw [htraits]
    exact noNameTwice_addNames h.traits _

theorem Tidy.addInterface {m : Merge} (h : m.flat.Tidy) (a : Ancestor) :
    (addInterface m a).flat.Tidy := by
  obtain ⟨hparents, hinterfaces, htraits⟩ := addInterface_names m a
  refine ⟨?_, ?_, ?_⟩
  · rw [hparents]
    exact h.parents
  · rw [hinterfaces]
    exact noNameTwice_addNames (noNameTwice_addName h.interfaces _) _
  · rw [htraits]
    exact h.traits

theorem noNameTwice_traitNames (traits : List Ancestor) : NoNameTwice (traitNames traits) :=
  List.foldlRecOn (motive := NoNameTwice) traits _ .nil
    fun _ h _ _ => noNameTwice_addNames (noNameTwice_addName h _) _

theorem tidy_assemble (c : ClasslikeSymbol) (traits parents interfaces : List Ancestor) :
    (assemble c traits parents interfaces).Tidy := by
  obtain ⟨hparents, hnames⟩ := Prod.mk.inj (withTraits_names c traits)
  obtain ⟨hinterfaces, htraits⟩ := Prod.mk.inj hnames
  have hbefore : (withTraits c traits).Tidy :=
    ⟨hparents ▸ .nil, hinterfaces ▸ .nil, htraits ▸ noNameTwice_traitNames traits⟩
  have hmiddle : (withParents c traits parents).flat.Tidy :=
    List.foldlRecOn (motive := fun m : Merge => m.flat.Tidy) parents _ hbefore
      fun _ h a _ => h.addParent a
  exact List.foldlRecOn (motive := fun m : Merge => m.flat.Tidy) interfaces _ hmiddle
    fun _ h a _ => h.addInterface a

end FlatClass

/-! ### Reachability -/

namespace Tables

variable {t : Tables}

/-- The classlike that is found under `a` has `b` among its parents and interfaces, up to case. -/
def Inherits (t : Tables) (a b : String) : Prop :=
  ∃ c, t.classlike? a = some c ∧ HasName (c.parents ++ c.interfaces) b

theorem inherits_iff (t : Tables) (a b : String) :
    t.Inherits a b ↔
      ((t.classlike? a).any fun c => decide (HasName (c.parents ++ c.interfaces) b)) = true := by
  rw [Option.any_eq_true]
  simp only [Inherits, decide_eq_true_eq]

instance (t : Tables) (a b : String) : Decidable (t.Inherits a b) :=
  decidable_of_iff' _ (inherits_iff t a b)

theorem inherits_congr_left {a a' : String} (h : Name.key a = Name.key a') (b : String) :
    t.Inherits a b ↔ t.Inherits a' b := by
  rw [Inherits, Inherits, classlike?, classlike?, h]

theorem transGen_inherits_congr_left {a a' : String} (h : Name.key a = Name.key a') (b : String) :
    TransGen t.Inherits a b ↔ TransGen t.Inherits a' b := by
  simp only [TransGen.head'_iff, inherits_congr_left h]

theorem transGen_inherits_congr_right {a b b' : String} (h : TransGen t.Inherits a b)
    (hb : foldEq b b' = true) : TransGen t.Inherits a b' := by
  obtain ⟨d, had, c, hc, hnames⟩ := TransGen.tail'_iff.1 h
  exact .tail' had ⟨c, hc, hnames.congr hb⟩

theorem classlike_of_resolve {maxDepth : Nat} {name : String} {view : FlatClass}
    (h : t.resolve maxDepth name = .ok view) : t.classlike? name = some view.classlike := by
  obtain ⟨c, hc, -, rfl⟩ := exists_assembleFrom_of_resolve h
  rw [hc, FlatClass.assembleFrom, FlatClass.assemble_classlike]

theorem key_full_of_resolve {maxDepth : Nat} {name : String} {view : FlatClass}
    (h : t.resolve maxDepth name = .ok view) : Name.key name = Name.key view.full :=
  (KeyedTable.key_of_get? (classlike_of_resolve h)).symm

/-- The supertypes of a resolved classlike are the names that it reaches. -/
theorem hasName_supertypes_iff {maxDepth : Nat} {name : String} {view : FlatClass}
    (h : t.resolve maxDepth name = .ok view) (x : String) :
    HasName view.supertypes x ↔ TransGen t.Inherits name x := by
  refine resolve_induction
    (P := fun name view => HasName view.supertypes x ↔ TransGen t.Inherits name x) ?_ h
  intro name c hc hindexed ih
  have hancestors : c.parents ++ c.interfaces ⊆ c.ancestors :=
    List.append_subset.2 ⟨c.parents_subset, c.interfaces_subset⟩
  rw [FlatClass.assembleFrom, FlatClass.hasName_supertypes_assemble, ← List.map_append,
    TransGen.head'_iff]
  constructor
  · rintro ⟨a, ha, hx⟩
    obtain ⟨n, hn, rfl⟩ := List.mem_map.1 ha
    have hlists : ∀ b, foldEq n b = true → t.Inherits name b := fun b hb => ⟨c, hc, n, hn, hb⟩
    rcases (hasName_cons _ _ _).1 hx with hnx | hx
    · exact ⟨x, hlists x hnx, .refl⟩
    · cases hview : t.flat? maxDepth n with
      | none => simp [FlatClass.Ancestor.handed, hview] at hx
      | some view =>
        rw [FlatClass.Ancestor.handed, hview] at hx
        have hreach := (ih n (hancestors hn) view hview).1 hx
        exact ⟨n, hlists n (foldEq_refl n), hreach.to_reflTransGen⟩
  · rintro ⟨b, ⟨d, hd, n, hn, hnb⟩, hbx⟩
    obtain rfl : c = d := Option.some.inj (hc.symm.trans hd)
    refine ⟨⟨n, t.flat? maxDepth n⟩, List.mem_map.2 ⟨n, hn, rfl⟩, (hasName_cons _ _ _).2 ?_⟩
    rcases reflTransGen_iff_eq_or_transGen.1 hbx with rfl | hbx
    · exact .inl hnb
    · -- a path goes on only from a classlike that is indexed, and that has a view
      have hnx := (transGen_inherits_congr_left (Name.key_of_foldEq hnb) x).2 hbx
      obtain ⟨e, ⟨d, hd, -⟩, -⟩ := TransGen.head'_iff.1 hnx
      have hflat := hindexed n (hancestors hn)
      rw [hd] at hflat
      obtain ⟨view, hview⟩ := Option.isSome_iff_exists.1 hflat
      refine .inr ?_
      rw [FlatClass.Ancestor.handed, hview]
      exact (ih n (hancestors hn) view hview).2 hnx

/-- A resolved classlike is, extends or implements a name exactly if it has the name itself or
reaches it along parents and interfaces.  So a subtype of a subtype is a subtype.  None of the lists
of its ancestors has a name twice. -/
theorem isSubtypeOf_iff_inherits (t : Tables) (maxDepth : Nat) (name : String) (view : FlatClass)
    (h : t.resolve maxDepth name = .ok view) :
    t.classlike? name = some view.classlike ∧
      (∀ x, view.isSubtypeOf x = true ↔
        foldEq view.full x = true ∨ TransGen t.Inherits view.full x) ∧
      (NoNameTwice view.parents ∧ NoNameTwice view.interfaces ∧ NoNameTwice view.traits) ∧
      ∀ other above, t.resolve maxDepth other = .ok above → view.isSubtypeOf above.full = true →
        ∀ x, above.isSubtypeOf x = true → view.isSubtypeOf x = true := by
  have hiff : ∀ {name view}, t.resolve maxDepth name = .ok view → ∀ x, view.isSubtypeOf x = true ↔
      foldEq view.full x = true ∨ TransGen t.Inherits view.full x := by
    intro name view h x
    rw [FlatClass.isSubtypeOf_iff, hasName_supertypes_iff h,
      transGen_inherits_congr_left (key_full_of_resolve h)]
  refine ⟨classlike_of_resolve h, hiff h, ?_, fun other above habove hsub x hx => ?_⟩
  · obtain ⟨c, -, -, rfl⟩ := exists_assembleFrom_of_resolve h
    have htidy := FlatClass.tidy_assemble c (c.traits.map fun n => ⟨n, t.flat? maxDepth n⟩)
      (c.parents.map fun n => ⟨n, t.flat? maxDepth n⟩)
      (c.interfaces.map fun n => ⟨n, t.flat? maxDepth n⟩)
    exact ⟨htidy.parents, htidy.interfaces, htidy.traits⟩
  · rw [hiff habove] at hx
    rw [hiff h] at hsub ⊢
    rcases hsub with hself | hsub
    · rcases hx with hx | hx
      · exact .inl (foldEq_trans hself hx)
      · exact .inr ((transGen_inherits_congr_left (Name.key_of_foldEq hself) x).2 hx)
    · rcases hx with hx | hx
      · exact .inr (transGen_inherits_congr_right hsub hx)
      · exact .inr (hsub.trans hx)

/-- A class whose parent implements an interface with a parent of its own, which has one that is
not indexed. -/
def layeredTypes : Tables :=
  Tables.empty.withDocument 10
    (Document.ofSource "a.php"
      ("<?php interface J extends K {} interface I extends j {} " ++
        "class P implements I {} class C extends P {}")) 0

/-- The class is a subtype of the last name on that path. -/
theorem isSubtypeOf_iff_inherits_layeredTypes :
    ∃ view, layeredTypes.resolve 10 "C" = .ok view ∧
      TransGen layeredTypes.Inherits view.full "\\k" ∧ view.isSubtypeOf "\\k" = true := by
  have hrun : (layeredTypes.flat? 10 "C").map (·.full) = some "\\C" ∧
      layeredTypes.Inherits "\\C" "\\P" ∧ layeredTypes.Inherits "\\P" "\\I" ∧
        layeredTypes.Inherits "\\I" "\\J" ∧ layeredTypes.Inherits "\\J" "\\k" := by decide +kernel
  obtain ⟨hflat, hP, hI, hJ, hk⟩ := hrun
  obtain ⟨view, hview, hfull⟩ := Option.map_eq_some_iff.1 hflat
  have hok := flat?_eq_some_iff.1 hview
  have hpath : TransGen layeredTypes.Inherits view.full "\\k" := by
    rw [hfull]
    exact (((TransGen.single hP).tail hI).tail hJ).tail hk
  have hiff := (isSubtypeOf_iff_inherits layeredTypes 10 "C" view hok).2.1 "\\k"
  exact ⟨view, hok, hpath, hiff.2 (.inr hpath)⟩

end Tables
end PhpAtlas
