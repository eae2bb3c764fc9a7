import PhpAtlas.Proofs.Ancestry.Failures
import PhpAtlas.Proofs.Ancestry.Subtyping
import PhpAtlas.Proofs.Ancestry.Uniqueness

/-!
# The order of implemented interfaces

The constants of the interfaces that a classlike implements are united with those it has before.
One that it has before hides those of its name, unless the class that declares it is an interface
merged so far.  Which interfaces these are depends on the order, so a constant that comes from a
parent may hide that of an interface in one order and stand beside it in another.

## Main definitions

* `ConstantState` — the constants that are there, and the keys of the interfaces merged so far.
* `ConstantState.Admits` — the constants of a name that are there do not hide others.
* `ConstantState.Overtaken` — a constant that is entered or not, as its interface comes late or
  early.
* `Tables.withInterfaces` — other tables, where a classlike implements its interfaces in another
  order.

## Main results

* `ConstantState.mem_pairs_enterAll` — which constants a list of interfaces enters.
* `Tables.resolve_withInterfaces` — the order does not matter for anything but the last step.
* `Tables.order_of_interfaces_iff` — the constants are the same in every order exactly if none is
  overtaken.
-/

namespace PhpAtlas

namespace FlatClass

/-- The constants of a view, by name and class. -/
def constantPairs (f : FlatClass) : List (String × String) := f.constants.map constantPair

/-- The keys under which a view counts as an interface that is merged: its own, and those of all it
extends. -/
def sourceKeys (f : FlatClass) : List String := Name.key f.full :: f.supertypes.map Name.key

/-- Constants of one name that different classes declare are declared by the view that has them, or
by what it extends. -/
def ClashesOwned (views : List FlatClass) : Prop :=
  ∀ v ∈ views, ∀ w ∈ views, ∀ e ∈ v.constants, ∀ c ∈ w.constants,
    e.member.name = c.member.name → sameClass e.member.owner c.member.owner = false →
      Name.key e.member.owner ∈ v.sourceKeys

instance (views : List FlatClass) : Decidable (ClashesOwned views) :=
  inferInstanceAs (Decidable (∀ v ∈ views, ∀ w ∈ views, ∀ e ∈ v.constants, ∀ c ∈ w.constants,
    e.member.name = c.member.name → sameClass e.member.owner c.member.owner = false →
      Name.key e.member.owner ∈ v.sourceKeys))

end FlatClass

open FlatClass

/-- What decides over the constants of the interfaces that come next. -/
structure ConstantState where
  constants : List (FlatMember ClassConstantSymbol)
  /-- The keys of the interfaces merged so far. -/
  sources : List String

namespace ConstantState

variable {s : ConstantState}

/-- Merge the constants of one interface. -/
def enter (s : ConstantState) (view : FlatClass) : ConstantState where
  constants :=
    view.constants.foldl (addInterfaceConstant (s.sources ++ view.sourceKeys)) s.constants
  sources := s.sources ++ view.sourceKeys

/-- Merge the constants of interfaces in their order. -/
def enterAll (s : ConstantState) (views : List FlatClass) : ConstantState := views.foldl enter s

/-- Once these interfaces are merged, all constants of a name that were there before count as those
of interfaces, so that they do not hide others. -/
def Admits (s : ConstantState) (views : List FlatClass) (name : String) : Prop :=
  ∀ e ∈ s.constants, e.member.name = name →
    Name.key e.member.owner ∈ s.sources ++ views.flatMap sourceKeys

theorem Admits.mono {views more : List FlatClass} {name : String} (h : s.Admits views name)
    (hsub : views ⊆ more) : s.Admits more name := by
  intro e he hname
  rcases List.mem_append.1 (h e he hname) with hsource | hsource
  · exact List.mem_append_left _ hsource
  · obtain ⟨v, hv, hkey⟩ := List.mem_flatMap.1 hsource
    exact List.mem_append_right _ (List.mem_flatMap.2 ⟨v, hsub hv, hkey⟩)

theorem sources_enterAll (s : ConstantState) (views : List FlatClass) :
    (s.enterAll views).sources = s.sources ++ views.flatMap sourceKeys := by
  induction views generalizing s with
  | nil => simp [enterAll]
  | cons v views ih =>
    rw [enterAll, List.foldl_cons, ← enterAll, ih, List.flatMap_cons, ← List.append_assoc]
    rfl

/-! ### One constant, one interface, many interfaces -/

/-- Constants that were there before, and others that come from some interfaces. -/
structure Grown (before : List (FlatMember ClassConstantSymbol)) (views : List FlatClass)
    (constants : List (FlatMember ClassConstantSymbol)) : Prop where
  keeps : before ⊆ constants
  origin : ∀ e ∈ constants, e ∈ before ∨ ∃ v ∈ views, ∃ c ∈ v.constants, e.member = c.member

variable {before constants : List (FlatMember ClassConstantSymbol)} {views : List FlatClass}
  {sources : List String}

theorem Grown.mono {more : List FlatClass} (h : Grown before views constants)
    (hsub : views ⊆ more) : Grown before more constants where
  keeps := h.keeps
  origin e he := (h.origin e he).imp_right fun ⟨v, hv, hc⟩ => ⟨v, hsub hv, hc⟩

/-- One constant is entered unless it is there already, or a constant that was there before and is
of no interface merged so far has its name. -/
theorem Grown.enterOne (h : Grown before views constants)
    (hsources : ∀ v ∈ views, v.sourceKeys ⊆ sources) (howned : ClashesOwned views)
    {c : FlatMember ClassConstantSymbol} (hc : ∃ v ∈ views, c ∈ v.constants) :
    Grown before views (addInterfaceConstant sources constants c) ∧
      ∀ p, p ∈ (addInterfaceConstant sources constants c).map constantPair ↔
        p ∈ constants.map constantPair ∨ p = constantPair c ∧
          ∀ e ∈ before, e.member.name = p.1 → Name.key e.member.owner ∈ sources := by
  obtain ⟨w, hw, hcw⟩ := hc
  unfold addInterfaceConstant
  split
  · rename_i hany
    refine ⟨h, fun p => ⟨.inl, fun hp => hp.elim id ?_⟩⟩
    rintro ⟨rfl, hfree⟩
    obtain ⟨e, he, hhides⟩ := List.any_eq_true.1 hany
    obtain ⟨hname, hreason⟩ := by simpa [hidesConstant] using hhides
    by_cases hclass : sameClass e.member.owner c.member.owner = true
    · exact List.mem_map.2 ⟨e, he, Prod.ext hname (sameClass_iff.1 hclass)⟩
    · have hforeign := hreason.resolve_left hclass
      rw [Bool.not_eq_true] at hclass
      -- what came from an interface is of one that is merged, so it was there before
      rcases h.origin e he with he | ⟨v, hv, k, hk, hmember⟩
      · exact absurd (hfree e he hname) hforeign
      · rw [hmember] at hname hclass hforeign
        exact absurd (hsources v hv (howned v hv w hw k hk c hcw hname hclass)) hforeign
  · rename_i hnone
    refine ⟨⟨fun e he => List.mem_append_left _ (h.keeps he), fun e he => ?_⟩, fun p => ?_⟩
    · rcases List.mem_append.1 he with he | he
      · exact h.origin e he
      · rw [List.mem_singleton.1 he]
        exact .inr ⟨w, hw, c, hcw, rfl⟩
    · rw [List.map_append, List.mem_append, List.map_singleton, List.mem_singleton]
      refine or_congr_right ⟨?_, And.left⟩
      rintro rfl
      refine ⟨rfl, fun e he hname => ?_⟩
      by_contra hforeign
      refine hnone (List.any_eq_true.2 ⟨e, h.keeps he, ?_⟩)
      have hname : e.member.name = c.member.name := hname
      simp [hidesConstant, hname, hforeign]

theorem Grown.enterEach (h : Grown before views constants)
    (hsources : ∀ v ∈ views, v.sourceKeys ⊆ sources) (howned : ClashesOwned views)
    {l : List (FlatMember ClassConstantSymbol)} (hl : ∀ c ∈ l, ∃ v ∈ views, c ∈ v.constants) :
    Grown before views (l.foldl (addInterfaceConstant sources) constants) ∧
      ∀ p, p ∈ (l.foldl (addInterfaceConstant sources) constants).map constantPair ↔
        p ∈ constants.map constantPair ∨ p ∈ l.map constantPair ∧
          ∀ e ∈ before, e.member.name = p.1 → Name.key e.member.owner ∈ sources := by
  induction l generalizing constants with
  | nil => exact ⟨h, fun p => by simp⟩
  | cons c l ih =>
    obtain ⟨hc, hl⟩ := List.forall_mem_cons.1 hl
    obtain ⟨hgrown, hpair⟩ := h.enterOne hsources howned hc
    obtain ⟨hgrown, hpairs⟩ := ih hgrown hl
    refine ⟨hgrown, fun p => ?_⟩
    rw [List.foldl_cons, hpairs, hpair, List.map_cons, List.mem_cons, or_and_right, or_assoc]

/-- A constant is entered by the interfaces in front if one of them has it, and those up to it make
way for it. -/
def Entered (s : ConstantState) (views : List FlatClass) (p : String × String) : Prop :=
  ∃ front v, front ++ [v] <+: views ∧ p ∈ v.constantPairs ∧ s.Admits (front ++ [v]) p.1

theorem entered_concat_iff (views : List FlatClass) (v : FlatClass) (p : String × String) :
    s.Entered (views ++ [v]) p ↔
      s.Entered views p ∨ p ∈ v.constantPairs ∧ s.Admits (views ++ [v]) p.1 := by
  constructor
  · rintro ⟨front, w, hprefix, hp, hadmits⟩
    rcases List.prefix_concat_iff.1 hprefix with heq | hprefix
    · obtain ⟨rfl, hw⟩ := List.append_inj' heq rfl
      obtain rfl : w = v := (List.cons.inj hw).1
      exact .inr ⟨hp, hadmits⟩
    · exact .inl ⟨front, w, hprefix, hp, hadmits⟩
  · rintro (⟨front, w, hprefix, hp, hadmits⟩ | ⟨hp, hadmits⟩)
    · exact ⟨front, w, hprefix.trans (List.prefix_append _ _), hp, hadmits⟩
    · exact ⟨views, v, List.prefix_refl _, hp, hadmits⟩

/-- Which constants are there after a list of interfaces. -/
theorem mem_pairs_enterAll (howned : ClashesOwned views) :
    Grown s.constants views (s.enterAll views).constants ∧
      ∀ p, p ∈ (s.enterAll views).constants.map constantPair ↔
        p ∈ s.constants.map constantPair ∨ s.Entered views p := by
  induction views using List.reverseRecOn with
  | nil =>
    refine ⟨⟨List.Subset.refl _, fun _ he => .inl he⟩, fun p => ⟨.inl, fun hp => hp.elim id ?_⟩⟩
    rintro ⟨front, v, hprefix, -⟩
    simp at hprefix
  | append_singleton views v ih =>
    have howned' : ClashesOwned views := fun v hv w hw =>
      howned v (List.mem_append_left _ hv) w (List.mem_append_left _ hw)
    obtain ⟨hgrown, hpairs⟩ := ih howned'
    have hstate : s.enterAll (views ++ [v]) = (s.enterAll views).enter v := by
      rw [enterAll, List.foldl_append]
      rfl
    have hsource := sources_enterAll s (views ++ [v])
    rw [hstate] at hsource ⊢
    have hmerged : ∀ w ∈ views ++ [v],
        w.sourceKeys ⊆ (s.enterAll views).sources ++ v.sourceKeys := by
      intro w hw k hk
      change k ∈ ((s.enterAll views).enter v).sources
      rw [hsource]
      exact List.mem_append_right _ (List.mem_flatMap.2 ⟨w, hw, hk⟩)
    have hgrown := hgrown.mono (List.subset_append_left views [v])
    obtain ⟨hgrown, hview⟩ := hgrown.enterEach hmerged howned (l := v.constants)
      fun c hc => ⟨v, by simp, hc⟩
    refine ⟨hgrown, fun p => ?_⟩
    rw [entered_concat_iff, ← or_assoc, ← hpairs, enter, hview]
    refine or_congr_right (and_congr_right fun _ => ?_)
    rw [Admits, ← hsource]
    rfl

/-! ### Orders -/

/-- Whether an interface has a constant. -/
def supplies (p : String × String) (view : FlatClass) : Bool := view.constantPairs.contains p

theorem supplies_iff {p : String × String} {view : FlatClass} :
    supplies p view = true ↔ p ∈ view.constantPairs := List.contains_iff_mem

/-- A constant of the interfaces that is new.  Those of its name that were there before make way
when all interfaces are merged, but not when only those are that have it. -/
structure Overtaken (s : ConstantState) (views : List FlatClass) (p : String × String) : Prop where
  new : p ∉ s.constants.map constantPair
  supplied : ∃ v ∈ views, supplies p v = true
  admitted : s.Admits views p.1
  hidden : ¬s.Admits (views.filter (supplies p)) p.1

theorem Overtaken.perm {views' : List FlatClass} {p : String × String} (h : s.Overtaken views p)
    (hperm : views.Perm views') : s.Overtaken views' p where
  new := h.new
  supplied := by
    obtain ⟨v, hv, hp⟩ := h.supplied
    exact ⟨v, hperm.subset hv, hp⟩
  admitted := h.admitted.mono hperm.subset
  hidden hadmits := h.hidden (hadmits.mono (hperm.filter _).symm.subset)

theorem admits_of_entered {p : String × String} (h : s.Entered views p) :
    (∃ v ∈ views, supplies p v = true) ∧ s.Admits views p.1 := by
  obtain ⟨front, v, hprefix, hp, hadmits⟩ := h
  exact ⟨⟨v, hprefix.subset (by simp), supplies_iff.2 hp⟩, hadmits.mono hprefix.subset⟩

/-- The last interface that has a constant comes behind all others that have it. -/
theorem entered_of_admits {p : String × String} (hsupplied : ∃ v ∈ views, supplies p v = true)
    (h : s.Admits (views.filter (supplies p)) p.1) : s.Entered views p := by
  obtain ⟨front, v, back, rfl, hv, hback⟩ := exists_last hsupplied
  refine ⟨front, v, ⟨back, by simp⟩, supplies_iff.1 hv, h.mono fun w hw => ?_⟩
  obtain ⟨hw, hp⟩ := List.mem_filter.1 hw
  rcases List.mem_append.1 hw with hw | hw
  · exact List.mem_append_left _ hw
  · rcases List.mem_cons.1 hw with rfl | hw
    · simp
    · exact absurd hp (hback w hw)

/-- A constant that is not overtaken is entered in every order, or in none. -/
theorem entered_iff {p : String × String} (hnew : p ∉ s.constants.map constantPair)
    (h : ¬s.Overtaken views p) :
    s.Entered views p ↔ (∃ v ∈ views, supplies p v = true) ∧ s.Admits views p.1 := by
  refine ⟨admits_of_entered, fun ⟨hsupplied, hadmitted⟩ => entered_of_admits hsupplied ?_⟩
  by_contra hhidden
  exact h ⟨hnew, hsupplied, hadmitted, hhidden⟩

/-- Where the interfaces that have a constant come first, they alone must make way for it. -/
theorem admits_of_entered_append {p : String × String} {first second : List FlatClass}
    (hsecond : ∀ w ∈ second, ¬supplies p w = true) (h : s.Entered (first ++ second) p) :
    s.Admits first p.1 := by
  induction second using List.reverseRecOn with
  | nil =>
    rw [List.append_nil] at h
    exact (admits_of_entered h).2
  | append_singleton second w ih =>
    rw [← List.append_assoc, entered_concat_iff] at h
    rcases h with h | ⟨hp, -⟩
    · exact ih (fun v hv => hsecond v (List.mem_append_left _ hv)) h
    · exact absurd (supplies_iff.2 hp) (hsecond w (by simp))

/-- Where the interfaces that have a constant come last, all must make way for it. -/
theorem entered_append {p : String × String} {first second : List FlatClass}
    (hsecond : ∀ v ∈ second, supplies p v = true) (hne : second ≠ [])
    (h : s.Admits (first ++ second) p.1) : s.Entered (first ++ second) p := by
  obtain ⟨front, v, rfl⟩ := (List.eq_nil_or_concat' second).resolve_left hne
  rw [← List.append_assoc] at h ⊢
  exact (entered_concat_iff _ v p).2 (.inr ⟨supplies_iff.1 (hsecond v (by simp)), h⟩)

theorem filterMap_filter_supplies (view? : String → Option FlatClass) (p : String × String)
    (names : List String) :
    (names.filter fun n => (view? n).any (supplies p)).filterMap view? =
      (names.filterMap view?).filter (supplies p) := by
  rw [List.filterMap_filter, List.filter_filterMap]
  refine List.filterMap_congr fun n _ => ?_
  cases view? n with
  | none => rfl
  | some view => rfl

/-- The constants are the same in every order of the interfaces exactly if none is overtaken. -/
theorem same_in_every_order_iff (s : ConstantState) (view? : String → Option FlatClass)
    (names : List String) (howned : ClashesOwned (names.filterMap view?)) :
    (∀ l : List String, l.Perm names → ∀ p,
      p ∈ (s.enterAll (l.filterMap view?)).constants.map constantPair ↔
        p ∈ (s.enterAll (names.filterMap view?)).constants.map constantPair) ↔
      ∀ p, ¬s.Overtaken (names.filterMap view?) p := by
  have hpairs : ∀ l : List String, l.Perm names → ∀ p,
      p ∈ (s.enterAll (l.filterMap view?)).constants.map constantPair ↔
        p ∈ s.constants.map constantPair ∨ s.Entered (l.filterMap view?) p := by
    intro l hl
    have hsub := (hl.filterMap view?).subset
    exact (mem_pairs_enterAll fun v hv w hw => howned v (hsub hv) w (hsub hw)).2
  constructor
  · intro hsame p hover
    -- the interfaces that have the constant come first in one order, and last in another
    let mine := names.filter fun n => (view? n).any (supplies p)
    let others := names.filter fun n => !(view? n).any (supplies p)
    have hmine : mine.filterMap view? = (names.filterMap view?).filter (supplies p) :=
      filterMap_filter_supplies view? p names
    have hfirst : (mine ++ others).Perm names := List.filter_append_perm _ names
    have hlast : (others ++ mine).Perm names := List.perm_append_comm.trans hfirst
    have hthere : s.Entered ((others ++ mine).filterMap view?) p := by
      obtain ⟨v, hv, hp⟩ := hover.supplied
      have hadmitted := (hover.perm (hlast.filterMap view?).symm).admitted
      rw [List.filterMap_append, hmine] at hadmitted ⊢
      exact entered_append (fun w hw => (List.mem_filter.1 hw).2)
        (List.ne_nil_of_mem (List.mem_filter.2 ⟨hv, hp⟩)) hadmitted
    have hsame := (hsame _ hlast p).trans (hsame _ hfirst p).symm
    rw [hpairs _ hlast, hpairs _ hfirst] at hsame
    have hentered := (hsame.1 (.inr hthere)).resolve_left hover.new
    rw [List.filterMap_append] at hentered
    refine hover.hidden (hmine ▸ admits_of_entered_append (fun w hw hp => ?_) hentered)
    obtain ⟨n, hn, hview⟩ := List.mem_filterMap.1 hw
    simpa [hview, hp] using (List.mem_filter.1 hn).2
  · intro hnone l hl p
    have hnone' : ¬s.Overtaken (l.filterMap view?) p := fun hover =>
      hnone p (hover.perm (hl.filterMap view?))
    rw [hpairs l hl, hpairs names (.refl _)]
    by_cases hnew : p ∈ s.constants.map constantPair
    · simp only [hnew, true_or]
    · have hperm := hl.filterMap view?
      rw [entered_iff hnew hnone', entered_iff hnew (hnone p)]
      refine or_congr_right (and_congr ⟨?_, ?_⟩ ⟨fun h => h.mono hperm.subset,
        fun h => h.mono hperm.symm.subset⟩)
      · exact fun ⟨v, hv, hp⟩ => ⟨v, hperm.subset hv, hp⟩
      · exact fun ⟨v, hv, hp⟩ => ⟨v, hperm.symm.subset hv, hp⟩

end ConstantState

/-! ### The last step of a view -/

namespace FlatClass

/-- What a view in the making says about constants. -/
def Merge.state (m : Merge) : ConstantState := ⟨m.flat.constants, m.sources⟩

theorem state_addInterface (m : Merge) (a : Ancestor) :
    (addInterface m a).state = (a.view.map m.state.enter).getD m.state := by
  unfold addInterface
  cases a.view with
  | none => rfl
  | some view => rfl

theorem state_foldl_addInterface (view? : String → Option FlatClass) (names : List String)
    (m : Merge) :
    ((names.map fun n => (⟨n, view? n⟩ : Ancestor)).foldl addInterface m).state =
      m.state.enterAll (names.filterMap view?) := by
  induction names generalizing m with
  | nil => rfl
  | cons n names ih =>
    rw [List.map_cons, List.foldl_cons, ih, state_addInterface]
    cases hview : view? n with
    | none => rw [List.filterMap_cons_none hview, Option.map_none, Option.getD_none]
    | some view => rw [List.filterMap_cons_some hview, Option.map_some, Option.getD_some]; rfl

/-- The constants of a classlike and the keys of merged interfaces, before its own interfaces are
entered. -/
def stateBefore (view? : String → Option FlatClass) (c : ClasslikeSymbol) : ConstantState :=
  (withParents c (c.traits.map fun n => ⟨n, view? n⟩) (c.parents.map fun n => ⟨n, view? n⟩)).state

theorem constants_assembleFrom (view? : String → Option FlatClass) (c : ClasslikeSymbol) :
    (assembleFrom view? c).constants =
      ((stateBefore view? c).enterAll (c.interfaces.filterMap view?)).constants := by
  rw [stateBefore, ← state_foldl_addInterface]
  rfl

/-- The same view of a classlike that lists other interfaces. -/
def relisted (interfaces : List String) (f : FlatClass) : FlatClass :=
  { f with classlike := { f.classlike with interfaces := interfaces } }

theorem applyAlias_relisted (views : List FlatClass) (interfaces : List String) (f : FlatClass)
    (a : TraitAlias) :
    applyAlias views (f.relisted interfaces) a = (applyAlias views f a).relisted interfaces := by
  unfold applyAlias
  cases aliasSource? views a with
  | none => rfl
  | some source =>
    cases a.newName with
    | none =>
      cases a.visibility with
      | none => rfl
      | some v => rfl
    | some name =>
      dsimp only
      rw [apply_ite (relisted interfaces)]
      rfl

theorem mergeTraits_relisted (interfaces : List String) (f : FlatClass) (views : List FlatClass) :
    (f.relisted interfaces).mergeTraits views = (f.mergeTraits views).relisted interfaces := by
  have htraits : views.foldl mergeTrait (f.relisted interfaces) =
      (views.foldl mergeTrait f).relisted interfaces := List.foldl_hom _ fun _ _ => rfl
  rw [mergeTraits, htraits]
  exact List.foldl_hom _ fun f a => applyAlias_relisted views interfaces f a

/-- A merge in a view of a classlike that lists other interfaces. -/
def Merge.relisted (interfaces : List String) (m : Merge) : Merge :=
  ⟨m.flat.relisted interfaces, m.sources⟩

theorem addParent_relisted (interfaces : List String) (m : Merge) (a : Ancestor) :
    addParent (m.relisted interfaces) a = (addParent m a).relisted interfaces := by
  unfold addParent
  cases a.view with
  | none => rfl
  | some view =>
    dsimp only
    rw [apply_ite (Merge.relisted interfaces)]
    rfl

theorem foldl_addParent_relisted (interfaces : List String) (m : Merge) (parents : List Ancestor) :
    parents.foldl addParent (m.relisted interfaces) =
      (parents.foldl addParent m).relisted interfaces :=
  List.foldl_hom _ fun m a => addParent_relisted interfaces m a

/-- Traits and parents are entered without a look at the interfaces. -/
theorem stateBefore_relisted (view? : String → Option FlatClass) (c : ClasslikeSymbol)
    (interfaces : List String) :
    stateBefore view? { c with interfaces := interfaces } = stateBefore view? c := by
  have htraits : withTraits { c with interfaces := interfaces }
      (c.traits.map fun n => ⟨n, view? n⟩) =
        (withTraits c (c.traits.map fun n => ⟨n, view? n⟩)).relisted interfaces :=
    mergeTraits_relisted interfaces { ofOwn c with traits := traitNames _ } _
  have hparents : withParents { c with interfaces := interfaces }
      (c.traits.map fun n => ⟨n, view? n⟩) (c.parents.map fun n => ⟨n, view? n⟩) =
        (withParents c (c.traits.map fun n => ⟨n, view? n⟩)
          (c.parents.map fun n => ⟨n, view? n⟩)).relisted interfaces := by
    rw [withParents, htraits]
    exact foldl_addParent_relisted interfaces ⟨_, []⟩ _
  rw [stateBefore, hparents]
  rfl

end FlatClass

/-! ### Tables that differ in the order of interfaces -/

namespace Tables

variable {t : Tables}

/-- The tables where a classlike lists other interfaces. -/
def withInterfaces (t : Tables) (c : ClasslikeSymbol) (interfaces : List String) : Tables :=
  { t with classlikes := t.classlikes.put { c with interfaces := interfaces } }

theorem classlike?_withInterfaces (t : Tables) (c : ClasslikeSymbol) (interfaces : List String)
    (name : String) :
    (t.withInterfaces c interfaces).classlike? name =
      if Name.key name = c.key then some { c with interfaces := interfaces }
      else t.classlike? name :=
  KeyedTable.get?_put t.classlikes { c with interfaces := interfaces } (Name.key name)

/-- A search below a classlike never looks it up, so it does not see how it is changed. -/
theorem resolveFrom_below {t t' : Tables} {k : String}
    (hsame : ∀ name, Name.key name ≠ k → t.classlike? name = t'.classlike? name) (room : Nat)
    {visiting : List String} (hkey : ∃ v ∈ visiting, Name.key v = k) (name : String) :
    t.resolveFrom room visiting name = t'.resolveFrom room visiting name := by
  induction room generalizing visiting name with
  | zero =>
    rw [resolveFrom.eq_def, resolveFrom.eq_def]
  | succ room ih =>
    by_cases hvisiting : ∃ v ∈ visiting, Name.key v = Name.key name
    · rw [resolveFrom_of_visiting hvisiting, resolveFrom_of_visiting hvisiting]
    · have hfree : ∀ v ∈ visiting, Name.key v ≠ Name.key name := fun v hv heq =>
        hvisiting ⟨v, hv, heq⟩
      have hname : t.classlike? name = t'.classlike? name := by
        obtain ⟨v, hv, rfl⟩ := hkey
        exact hsame name (hfree v hv).symm
      rw [resolveFrom_of_not_visiting hfree, resolveFrom_of_not_visiting hfree, hname]
      cases t'.classlike? name with
      | none => rfl
      | some c =>
        have hbelow : t.resolveFrom room (visiting ++ [c.full]) =
            t'.resolveFrom room (visiting ++ [c.full]) := by
          obtain ⟨v, hv, hv'⟩ := hkey
          exact funext (ih ⟨v, List.mem_append_left _ hv, hv'⟩)
        simp only [hbelow]

/-- With its interfaces in another order, a classlike has the view that is assembled in that order
from the same views of its ancestors. -/
theorem resolve_withInterfaces {maxDepth : Nat} {name : String} {view : FlatClass}
    (h : t.resolve maxDepth name = .ok view) {interfaces : List String}
    (hperm : interfaces.Perm view.classlike.interfaces) :
    (t.withInterfaces view.classlike interfaces).resolve maxDepth name =
      .ok (assembleFrom (t.flat? maxDepth) { view.classlike with interfaces := interfaces }) := by
  obtain ⟨room, rfl⟩ : ∃ room, maxDepth = room + 1 :=
    ⟨maxDepth - 1, by have := room_pos_of_settles (.inl ⟨view, h⟩); omega⟩
  have hc := classlike_of_resolve h
  obtain ⟨c, hc', hlisted, -⟩ := assembleFrom_of_resolveFrom h (Nat.le_succ room)
  obtain rfl : view.classlike = c := Option.some.inj (hc.symm.trans hc')
  have hkey : Name.key name = view.classlike.key := (KeyedTable.key_of_get? hc).symm
  have hbelow : (t.withInterfaces view.classlike interfaces).resolveFrom room
      ([] ++ [view.classlike.full]) = t.resolveFrom room ([] ++ [view.classlike.full]) := by
    refine funext (resolveFrom_below (k := view.classlike.key) (fun n hn => ?_) room
      ⟨view.classlike.full, by simp, rfl⟩)
    rw [classlike?_withInterfaces, if_neg hn]
  have hancestors : ∀ n ∈ { view.classlike with interfaces := interfaces }.ancestors,
      n ∈ view.classlike.ancestors := by
    simp only [ClasslikeSymbol.ancestors, List.mem_append]
    exact fun n hn => hn.imp_right fun hn => hperm.subset hn
  rw [resolve, resolveFrom_of_not_visiting (by simp), classlike?_withInterfaces, if_pos hkey]
  dsimp only
  rw [hbelow]
  exact flattenWith_of_settles (fun n hn => (hlisted n (hancestors n hn)).1)
    fun n hn => (hlisted n (hancestors n hn)).2

/-- Take a resolved classlike, and suppose that clashing constants of the interfaces it implements
are declared by those or by what they extend.  Whatever the order of its interfaces, it has the same
constants, exactly if none of them is overtaken. -/
theorem order_of_interfaces_iff (t : Tables) (maxDepth : Nat) (name : String) (view : FlatClass)
    (h : t.resolve maxDepth name = .ok view)
    (howned : ClashesOwned (view.classlike.interfaces.filterMap (t.flat? maxDepth))) :
    (∀ interfaces view', interfaces.Perm view.classlike.interfaces →
      (t.withInterfaces view.classlike interfaces).resolve maxDepth name = .ok view' →
        ∀ p, p ∈ view'.constantPairs ↔ p ∈ view.constantPairs) ↔
    ∀ p, ¬(stateBefore (t.flat? maxDepth) view.classlike).Overtaken
      (view.classlike.interfaces.filterMap (t.flat? maxDepth)) p := by
  have hpairs : ∀ interfaces, (assembleFrom (t.flat? maxDepth)
      { view.classlike with interfaces := interfaces }).constantPairs =
        ((stateBefore (t.flat? maxDepth) view.classlike).enterAll
          (interfaces.filterMap (t.flat? maxDepth))).constants.map constantPair := by
    intro interfaces
    rw [constantPairs, constants_assembleFrom, stateBefore_relisted]
  have hself : view = assembleFrom (t.flat? maxDepth)
      { view.classlike with interfaces := view.classlike.interfaces } := by
    obtain ⟨c, hc, -, hview⟩ := exists_assembleFrom_of_resolve h
    obtain rfl : view.classlike = c := Option.some.inj ((classlike_of_resolve h).symm.trans hc)
    exact hview
  rw [← ConstantState.same_in_every_order_iff _ (t.flat? maxDepth) _ howned, ← hpairs, ← hself]
  constructor
  · intro hsame l hl p
    rw [← hpairs]
    exact hsame l _ hl (resolve_withInterfaces h hl) p
  · intro hsame l view' hl hview' p
    rw [resolve_withInterfaces h hl] at hview'
    rw [← Except.ok.inj hview', hpairs]
    exact hsame l hl p

/-- A class that implements two unrelated interfaces with a constant of one name. -/
def unrelatedInterfaces : Tables :=
  Tables.empty.withDocument 10
    (Document.ofSource "a.php"
      ("<?php interface I {const X=1;} interface J {const X=2;} " ++
        "class C implements I,J {}")) 0

/-- It has both constants, and so it has with its interfaces turned round. -/
theorem order_of_interfaces_iff_unrelatedInterfaces :
    ∃ view view', unrelatedInterfaces.resolve 10 "C" = .ok view ∧
      view.constantPairs = [("X", "i"), ("X", "j")] ∧
      (unrelatedInterfaces.withInterfaces view.classlike
        view.classlike.interfaces.reverse).resolve 10 "C" = .ok view' ∧
      ∀ p, p ∈ view'.constantPairs ↔ p ∈ view.constantPairs := by
  have hrun : (unrelatedInterfaces.flat? 10 "C").any (fun view =>
      decide (ClashesOwned (view.classlike.interfaces.filterMap (unrelatedInterfaces.flat? 10))) &&
        (stateBefore (unrelatedInterfaces.flat? 10) view.classlike).constants.isEmpty &&
          view.constantPairs == [("X", "i"), ("X", "j")]) = true := by decide +kernel
  obtain ⟨view, hview, hfacts⟩ := (Option.any_eq_true _ _).1 hrun
  simp only [Bool.and_eq_true, decide_eq_true_eq, List.isEmpty_iff, beq_iff_eq] at hfacts
  obtain ⟨⟨howned, hempty⟩, hpairs⟩ := hfacts
  have hok := flat?_eq_some_iff.1 hview
  have hturned := resolve_withInterfaces hok view.classlike.interfaces.reverse_perm
  -- nothing is there before the interfaces that could hide a constant
  have hnone : ∀ p, ¬(stateBefore (unrelatedInterfaces.flat? 10) view.classlike).Overtaken
      (view.classlike.interfaces.filterMap (unrelatedInterfaces.flat? 10)) p := by
    refine fun p hover => hover.hidden fun e he => ?_
    rw [hempty] at he
    cases he
  exact ⟨view, _, hok, hpairs, hturned,
    (order_of_interfaces_iff unrelatedInterfaces 10 "C" view hok howned).2 hnone _ _
      view.classlike.interfaces.reverse_perm hturned⟩

/-- A class that implements an interface of its parent again, behind an unrelated one with a
constant of the same name. -/
def reimplemented : Tables :=
  Tables.empty.withDocument 10
    (Document.ofSource "a.php"
      ("<?php interface I {const X=1;} interface J {const X=2;} " ++
        "class P implements J {} class C extends P implements I,J {}")) 0

/-- The constant that comes from the parent hides that of the unrelated interface, but not if that
interface comes last. -/
theorem not_forall_order_of_interfaces :
    ¬∀ (t : Tables) (maxDepth : Nat) (name : String) (interfaces : List String)
      (view view' : FlatClass), t.resolve maxDepth name = .ok view →
        interfaces.Perm view.classlike.interfaces →
          (t.withInterfaces view.classlike interfaces).resolve maxDepth name = .ok view' →
            ∀ p, p ∈ view'.constantPairs ↔ p ∈ view.constantPairs := by
  intro hall
  have hrun : (reimplemented.flat? 10 "C").any (fun view =>
      view.constantPairs == [("X", "j")] &&
        (assembleFrom (reimplemented.flat? 10) { view.classlike with
          interfaces := view.classlike.interfaces.reverse }).constantPairs ==
            [("X", "j"), ("X", "i")]) = true := by decide +kernel
  obtain ⟨view, hview, hfacts⟩ := (Option.any_eq_true _ _).1 hrun
  simp only [Bool.and_eq_true, beq_iff_eq] at hfacts
  have hok := flat?_eq_some_iff.1 hview
  have hperm := view.classlike.interfaces.reverse_perm
  have hsame := hall reimplemented 10 "C" _ view _ hok hperm (resolve_withInterfaces hok hperm)
    ("X", "i")
  rw [hfacts.1, hfacts.2] at hsame
  simp at hsame

end Tables
end PhpAtlas
