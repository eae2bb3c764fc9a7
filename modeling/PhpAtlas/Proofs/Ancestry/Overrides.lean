import PhpAtlas.Proofs.Ancestry.Offers
import PhpAtlas.Proofs.Index.MemberOwners

/-!
# Which members override themselves

A member that hides another one tells who declares the other.  It notes the first offer of its name
that it notes at all, and does not ask who declares the member that is offered.  So one declaration
that comes to a classlike in two ways is taken for two: the first one to come is inherited, and is
said to override the second, which is itself.

Own members are safe from this, since no ancestor has a member that a descendant declares.

## Main definitions

* `Offer.repeated` — the first offer comes again as one that is noted.

## Main results

* `Entry.foldl_meet_some` — what a run of offers does to the entry that stands for their label.
* `FlatClass.first?_assembleFrom_of_own`, `FlatClass.first?_assembleFrom_of_not_own` — the entry
  that stands for a label in a view, and whose member it hides.
* `FlatClass.hides_itself_iff` — an inherited entry hides a member of its own class just if the
  first offer is repeated.
* `Tables.owner_ne_of_listed` — no ancestor has a member that a descendant declares.
* `Tables.overrides_itself_iff` — whose members are overridden, and which members override
  themselves.
* `Tables.not_forall_overrides_another` — there are such members.
-/

namespace PhpAtlas

open Relation

/-- The first of the offers is entered, and the first later one that an inherited member notes is
declared by the same class. -/
def Offer.repeated : List Offer → Bool
  | [] => false
  | first :: rest => (rest.find? (·.notedBy .inherited)).any fun again =>
      Name.key again.owner == Name.key first.owner

/-- An entry notes the first offer that it notes at all. -/
theorem Entry.foldl_meet_some (n : String) (offers : List Offer) (e : Entry) :
    offers.foldl (meet n) (some e) =
      some { e with
        hides := e.hides.or ((offers.find? (·.notedBy e.origin)).map (·.owner)) } := by
  induction offers generalizing e with
  | nil => simp
  | cons o offers ih =>
    rw [List.foldl_cons, meet, ih, List.find?_cons, origin_noting]
    cases hnoted : o.notedBy e.origin with
    | false => rw [noting_of_not_marks hnoted]
    | true =>
      rw [noting_of_marks hnoted]
      simp

namespace FlatClass

variable {view? : String → Option FlatClass} {c : ClasslikeSymbol} {k : MemberKind} {n : String}

/-! ### Where offers come from -/

theorem exists_of_mem_offered {edge : Edge} {view : FlatClass} {o : Offer}
    (h : o ∈ offered c k edge view n) :
    ∃ m ∈ view.entries k, m.label = n ∧ m.owner = o.owner ∧
      ∀ origin, o.notedBy origin = true → c.notes k edge origin = true := by
  have hhanded : ∃ m ∈ Entry.named n (handed c edge view k), m.owner = o.owner ∧
      ∀ origin, o.notedBy origin = true → c.notes k edge origin = true := by
    cases k with
    | constant => exact Entry.exists_of_mem_offersFirst h
    | property | method =>
      obtain ⟨m, hm, rfl⟩ := List.mem_map.1 h
      exact ⟨m, hm, rfl, fun _ => id⟩
  obtain ⟨m, hm, howner, hnoted⟩ := hhanded
  obtain ⟨hm, hlabel⟩ := List.mem_filter.1 hm
  exact ⟨m, (handed_sublist c edge view k).subset hm, beq_iff_eq.1 hlabel, howner, hnoted⟩

theorem exists_of_mem_aliasOffered {views : List FlatClass} {a : TraitAlias} {o : Offer}
    (h : o ∈ aliasOffered views k a n) :
    ∃ view ∈ views, ∃ m ∈ view.entries k, m.owner = o.owner ∧ o.notedBy = fun _ => false := by
  cases k with
  | constant | property => cases h
  | method =>
    rw [aliasOffered] at h
    split at h
    · obtain ⟨source, hsource, rfl⟩ := Option.map_eq_some_iff.1 (Option.mem_toList.1 h)
      obtain ⟨view, hview, hfound⟩ := List.exists_of_findSome?_eq_some hsource
      have hm := List.mem_of_find?_eq_some hfound
      exact ⟨view, (List.mem_filter.1 hview).1, _, List.mem_map_of_mem hm, rfl, rfl⟩
    · cases h

/-- An offer is a member of what the classlike lists.  Where it is noted, it has the label, and it
comes from a trait or a parent. -/
theorem exists_of_mem_offers {o : Offer} (h : o ∈ offers view? c k n) :
    ∃ edge, ∃ a ∈ c.listed edge, ∃ view, view? a = some view ∧ ∃ m ∈ view.entries k,
      m.owner = o.owner ∧
        ∀ origin, o.notedBy origin = true → edge ≠ .interface ∧ m.label = n := by
  have hedge : ∀ edge, o ∈ ((c.listed edge).filterMap view?).flatMap (offered c k edge · n) →
      ∃ a ∈ c.listed edge, ∃ view, view? a = some view ∧ ∃ m ∈ view.entries k,
        m.owner = o.owner ∧
          ∀ origin, o.notedBy origin = true → edge ≠ .interface ∧ m.label = n := by
    intro edge ho
    obtain ⟨view, hview, ho⟩ := List.mem_flatMap.1 ho
    obtain ⟨a, ha, hview⟩ := List.mem_filterMap.1 hview
    obtain ⟨m, hm, hlabel, howner, hnoted⟩ := exists_of_mem_offered ho
    refine ⟨a, ha, view, hview, m, hm, howner, fun origin horigin => ⟨?_, hlabel⟩⟩
    rintro rfl
    cases k <;> cases hnoted origin horigin
  simp only [offers, List.mem_append] at h
  rcases h with ((h | h) | h) | h
  · exact ⟨.trait, hedge .trait h⟩
  · obtain ⟨a, -, ho⟩ := List.mem_flatMap.1 h
    obtain ⟨view, hview, m, hm, howner, hsilent⟩ := exists_of_mem_aliasOffered ho
    obtain ⟨a, ha, hview⟩ := List.mem_filterMap.1 hview
    refine ⟨.trait, a, ha, view, hview, m, hm, howner, fun origin horigin => ?_⟩
    rw [hsilent] at horigin
    cases horigin
  · exact ⟨.parent, hedge .parent h⟩
  · exact ⟨.interface, hedge .interface h⟩

/-! ### The entry that stands for a label -/

theorem of_mem_entries_ofOwn {e : Entry} (h : e ∈ (ofOwn c).entries k) :
    e.origin = .own ∧ e.hides = none ∧ (c.OwnsMembers → e.owner = c.full) := by
  cases k with
  | constant =>
    obtain ⟨m, hm, rfl⟩ := List.mem_map.1 h
    obtain ⟨d, hd, rfl⟩ := List.mem_map.1 hm
    exact ⟨rfl, rfl, fun howns => howns.constants d hd⟩
  | property =>
    obtain ⟨m, hm, rfl⟩ := List.mem_map.1 h
    obtain ⟨d, hd, rfl⟩ := List.mem_map.1 hm
    exact ⟨rfl, rfl, fun howns => howns.properties d hd⟩
  | method =>
    obtain ⟨m, hm, rfl⟩ := List.mem_map.1 h
    obtain ⟨d, hd, rfl⟩ := List.mem_map.1 hm
    exact ⟨rfl, rfl, fun howns => howns.methods d hd⟩

/-- An own member stands for its label, and hides the first offer that own members note. -/
theorem first?_assembleFrom_of_own {e : Entry}
    (h : Entry.first? n ((ofOwn c).entries k) = some e) :
    Entry.first? n ((assembleFrom view? c).entries k) =
      some { e with
        hides := ((offers view? c k n).find? (·.notedBy .own)).map (·.owner) } := by
  obtain ⟨horigin, hhides, -⟩ := of_mem_entries_ofOwn (List.mem_of_find?_eq_some h)
  rw [(takes_assembleFrom view? c k).first, h, Entry.foldl_meet_some, horigin, hhides,
    Option.none_or]

/-- Without an own member the first offer stands for the label, and hides the first later one that
inherited members note. -/
theorem first?_assembleFrom_of_not_own (h : Entry.first? n ((ofOwn c).entries k) = none) :
    Entry.first? n ((assembleFrom view? c).entries k) =
      (offers view? c k n).head?.map fun first => ⟨n, first.owner, .inherited,
        ((offers view? c k n).tail.find? (·.notedBy .inherited)).map (·.owner)⟩ := by
  rw [(takes_assembleFrom view? c k).first, h]
  cases offers view? c k n with
  | nil => rfl
  | cons first rest =>
    rw [List.foldl_cons, Entry.meet, Entry.foldl_meet_some]
    rfl

/-- Where an entry that stands for a label comes from, and whose member it hides. -/
theorem first?_assembleFrom_cases {e : Entry}
    (h : Entry.first? n ((assembleFrom view? c).entries k) = some e) :
    (e.origin = .own ∧ (c.OwnsMembers → e.owner = c.full) ∧
      e.hides = ((offers view? c k n).find? (·.notedBy .own)).map (·.owner)) ∨
    (e.origin = .inherited ∧ ∃ first rest, offers view? c k n = first :: rest ∧
      e.owner = first.owner ∧ e.hides = (rest.find? (·.notedBy .inherited)).map (·.owner)) := by
  cases hown : Entry.first? n ((ofOwn c).entries k) with
  | some old =>
    obtain ⟨horigin, -, howner⟩ := of_mem_entries_ofOwn (List.mem_of_find?_eq_some hown)
    rw [first?_assembleFrom_of_own hown] at h
    obtain rfl := Option.some.inj h
    exact .inl ⟨horigin, howner, rfl⟩
  | none =>
    rw [first?_assembleFrom_of_not_own hown] at h
    cases hoffers : offers view? c k n with
    | nil =>
      rw [hoffers] at h
      cases h
    | cons first rest =>
      rw [hoffers] at h
      obtain rfl := Option.some.inj h
      exact .inr ⟨rfl, first, rest, rfl, rfl, rfl⟩

/-- An entry that hides a member stands for its label. -/
theorem first?_of_hides {e : Entry} (he : e ∈ (assembleFrom view? c).entries k)
    (hhides : e.hides ≠ none) :
    Entry.first? e.label ((assembleFrom view? c).entries k) = some e := by
  have hown : Entry.FirstHides ((ofOwn c).entries k) := by
    refine List.pairwise_of_forall_mem_list ?_
    intro _ _ b hb _
    exact (of_mem_entries_ofOwn hb).2.1
  exact ((takes_assembleFrom view? c k).hides hown).first? he hhides

/-- What an entry hides was offered and noted. -/
theorem exists_offer_of_hides {e : Entry} (he : e ∈ (assembleFrom view? c).entries k) {d : String}
    (hd : e.hides = some d) :
    ∃ o ∈ offers view? c k e.label, o.notedBy e.origin = true ∧ o.owner = d := by
  have hfirst := first?_of_hides he (by rw [hd]; exact Option.some_ne_none d)
  rcases first?_assembleFrom_cases hfirst with
    ⟨horigin, -, hhides⟩ | ⟨horigin, first, rest, hoffers, -, hhides⟩
  · obtain ⟨o, ho, rfl⟩ := Option.map_eq_some_iff.1 (hhides.symm.trans hd)
    rw [horigin]
    exact ⟨o, List.mem_of_find?_eq_some ho,
      List.find?_some (p := fun o : Offer => o.notedBy .own) ho, rfl⟩
  · obtain ⟨o, ho, rfl⟩ := Option.map_eq_some_iff.1 (hhides.symm.trans hd)
    rw [horigin, hoffers]
    exact ⟨o, List.mem_cons_of_mem _ (List.mem_of_find?_eq_some ho),
      List.find?_some (p := fun o : Offer => o.notedBy .inherited) ho, rfl⟩

/-- An inherited entry that stands for its label hides a member of its own class just if the first
offer is repeated. -/
theorem hides_itself_iff {e : Entry}
    (hfirst : Entry.first? n ((assembleFrom view? c).entries k) = some e)
    (hinherited : e.origin = .inherited) :
    (∃ d, e.hides = some d ∧ Name.key d = Name.key e.owner) ↔
      Offer.repeated (offers view? c k n) = true := by
  rcases first?_assembleFrom_cases hfirst with
    ⟨horigin, -⟩ | ⟨-, first, rest, hoffers, howner, hhides⟩
  · rw [horigin] at hinherited
    cases hinherited
  · rw [hoffers, Offer.repeated, Option.any_eq_true, hhides, howner]
    constructor
    · rintro ⟨d, hd, hsame⟩
      obtain ⟨again, hagain, rfl⟩ := Option.map_eq_some_iff.1 hd
      exact ⟨again, hagain, beq_iff_eq.2 hsame⟩
    · rintro ⟨again, hagain, hsame⟩
      exact ⟨again.owner, Option.map_eq_some_iff.2 ⟨again, hagain, rfl⟩, beq_iff_eq.1 hsame⟩

end FlatClass

namespace Tables

variable {t : Tables} {maxDepth : Nat} {name : String} {view : FlatClass}

/-! ### Who declares the members of a view -/

/-- All members of a view are declared by the classlike or by one that it descends from. -/
theorem exists_ancestor_owner (howned : t.MembersOwned) (h : t.resolve maxDepth name = .ok view)
    {k : MemberKind} {e : Entry} (he : e ∈ view.entries k) :
    ∃ n, ReflTransGen t.Extends name n ∧ Name.key e.owner = Name.key n := by
  have hall : ∀ k, ∀ e ∈ view.entries k,
      ∃ n, ReflTransGen t.Extends name n ∧ Name.key e.owner = Name.key n := by
    refine resolve_induction (P := fun name view => ∀ k, ∀ e ∈ view.entries k,
      ∃ n, ReflTransGen t.Extends name n ∧ Name.key e.owner = Name.key n) ?_ h
    intro name c hc _ ih k e he
    rcases (FlatClass.takes_assembleFrom (t.flat? maxDepth) c k).owners e he with
      ⟨old, hold, hbare⟩ | ⟨-, o, ho, howner⟩
    · obtain ⟨-, -, hown⟩ := FlatClass.of_mem_entries_ofOwn hold
      obtain ⟨-, howner, -⟩ := Entry.mk.inj hbare
      have hkey : c.key = Name.key name := KeyedTable.key_of_get? hc
      rw [← howner, hown (howned.of_classlike? hc)]
      exact ⟨name, .refl, hkey⟩
    · obtain ⟨edge, a, ha, ancestor, hancestor, m, hm, hsame, -⟩ :=
        FlatClass.exists_of_mem_offers ho
      have hlisted := c.listed_subset edge ha
      obtain ⟨n, hn, hkey⟩ := ih a hlisted ancestor hancestor k m hm
      rw [← howner, ← hsame]
      exact ⟨n, .head ⟨c, hc, a, hlisted, rfl⟩ hn, hkey⟩
  exact hall k e he

/-- A classlike that can be resolved does not descend from itself. -/
theorem not_transGen_of_resolve (h : t.resolve maxDepth name = .ok view) {n : String}
    (hkey : Name.key name = Name.key n) : ¬TransGen t.Extends name n := by
  intro hway
  have hcircle : TransGen t.Extends n n := circle_of_transGen hway hkey
  obtain ⟨walk, hwalk, hlength⟩ :=
    exists_walk_of_circle ⟨n, hway.to_reflTransGen, hcircle⟩ maxDepth
  have hle := (length_le_of_resolveFrom_ok h).2 walk hwalk
  omega

/-- No ancestor has a member that a descendant declares. -/
theorem owner_ne_of_listed (howned : t.MembersOwned) (h : t.resolve maxDepth name = .ok view)
    {c : ClasslikeSymbol} (hc : t.classlike? name = some c) {a : String} (ha : a ∈ c.ancestors)
    {ancestor : FlatClass} (hancestor : t.flat? maxDepth a = some ancestor) {k : MemberKind}
    {m : Entry} (hm : m ∈ ancestor.entries k) : Name.key m.owner ≠ Name.key c.full := by
  intro hsame
  have hkey : c.key = Name.key name := KeyedTable.key_of_get? hc
  obtain ⟨n, hn, howner⟩ := exists_ancestor_owner howned (flat?_eq_some_iff.1 hancestor) hm
  have hway : TransGen t.Extends name n := .head' ⟨c, hc, a, ha, rfl⟩ hn
  exact not_transGen_of_resolve h (hkey.symm.trans (hsame.symm.trans howner)) hway

/-- What a member hides is a member of its label in a trait or a parent. -/
theorem exists_listed_of_hides {c : ClasslikeSymbol} {k : MemberKind} {e : Entry}
    (he : e ∈ (FlatClass.assembleFrom (t.flat? maxDepth) c).entries k) {d : String}
    (hd : e.hides = some d) :
    ∃ edge, edge ≠ .interface ∧ ∃ a ∈ c.listed edge, ∃ ancestor,
      t.resolve maxDepth a = .ok ancestor ∧
        ∃ m ∈ ancestor.entries k, m.label = e.label ∧ m.owner = d := by
  obtain ⟨o, ho, hnoted, rfl⟩ := FlatClass.exists_offer_of_hides he hd
  obtain ⟨edge, a, ha, ancestor, hancestor, m, hm, howner, hfits⟩ :=
    FlatClass.exists_of_mem_offers ho
  obtain ⟨hedge, hlabel⟩ := hfits _ hnoted
  exact ⟨edge, hedge, a, ha, ancestor, flat?_eq_some_iff.1 hancestor, m, hm, hlabel, howner⟩

/-- An own member is declared by the classlike, and what it hides by an ancestor. -/
theorem inherited_of_hides_itself (howned : t.MembersOwned) {c : ClasslikeSymbol}
    (hc : t.classlike? name = some c)
    (h : t.resolve maxDepth name = .ok (FlatClass.assembleFrom (t.flat? maxDepth) c))
    {k : MemberKind} {e : Entry}
    (he : e ∈ (FlatClass.assembleFrom (t.flat? maxDepth) c).entries k) {d : String}
    (hd : e.hides = some d) (hsame : Name.key d = Name.key e.owner) : e.origin = .inherited := by
  have hfirst := FlatClass.first?_of_hides he (by rw [hd]; exact Option.some_ne_none d)
  rcases FlatClass.first?_assembleFrom_cases hfirst with ⟨-, hown, -⟩ | ⟨hinherited, -⟩
  · obtain ⟨edge, -, a, ha, ancestor, hancestor, m, hm, -, rfl⟩ := exists_listed_of_hides he hd
    rw [hown (howned.of_classlike? hc)] at hsame
    exact absurd hsame (owner_ne_of_listed howned h hc (c.listed_subset edge ha)
      (flat?_eq_some_iff.2 hancestor) hm)
  · exact hinherited

/-- **Which members override themselves.**  What a member overrides is declared by the class of a
member of its name that a trait or a parent has.  That is the class which declares the member itself
just if the member stands for its name, is inherited, and is offered again as one that is noted. -/
theorem overrides_itself_iff (t : Tables) (howned : t.MembersOwned) (maxDepth : Nat) (name : String)
    (view : FlatClass) (h : t.resolve maxDepth name = .ok view) :
    ∃ c, t.classlike? name = some c ∧ ∀ k, ∀ e ∈ view.entries k,
      (∀ d, e.hides = some d → ∃ edge, edge ≠ .interface ∧ ∃ a ∈ c.listed edge, ∃ ancestor,
        t.resolve maxDepth a = .ok ancestor ∧
          ∃ m ∈ ancestor.entries k, m.label = e.label ∧ m.owner = d) ∧
      ((∃ d, e.hides = some d ∧ Name.key d = Name.key e.owner) ↔
        Entry.first? e.label (view.entries k) = some e ∧ e.origin = .inherited ∧
          Offer.repeated (FlatClass.offers (t.flat? maxDepth) c k e.label) = true) := by
  obtain ⟨c, hc, -, rfl⟩ := exists_assembleFrom_of_resolve h
  refine ⟨c, hc, fun k e he => ⟨fun d hd => exists_listed_of_hides he hd, ?_, ?_⟩⟩
  · rintro ⟨d, hd, hsame⟩
    have hfirst := FlatClass.first?_of_hides he (by rw [hd]; exact Option.some_ne_none d)
    have hinherited := inherited_of_hides_itself howned hc h he hd hsame
    exact ⟨hfirst, hinherited, (FlatClass.hides_itself_iff hfirst hinherited).1 ⟨d, hd, hsame⟩⟩
  · rintro ⟨hfirst, hinherited, hrepeated⟩
    exact (FlatClass.hides_itself_iff hfirst hinherited).2 hrepeated

/-- A class that uses a trait which its parent uses too. -/
def sharedTrait : Tables :=
  Tables.empty.withDocument 10
    (Document.ofSource "a.php"
      ("<?php trait T {public $p; const X=1; function m() {}} " ++
        "class P {use T;} class C extends P {use T;}")) 0

theorem membersOwned_sharedTrait : sharedTrait.MembersOwned :=
  membersOwned_empty.withDocument _ _ _

/-- All that it has from the trait is said to override what it is. -/
theorem exists_view_sharedTrait :
    ∃ view, sharedTrait.resolve 10 "C" = .ok view ∧
      ∀ k, ∃ n, view.entries k = [⟨n, "\\T", .inherited, some "\\T"⟩] := by
  have hrun : ((sharedTrait.flat? 10 "C").map fun view =>
      (view.entries .constant, view.entries .property, view.entries .method)) =
        some ([⟨"X", "\\T", .inherited, some "\\T"⟩], [⟨"p", "\\T", .inherited, some "\\T"⟩],
          [⟨"m", "\\T", .inherited, some "\\T"⟩]) := by
    decide +kernel
  obtain ⟨view, hview, hentries⟩ := Option.map_eq_some_iff.1 hrun
  obtain ⟨hconstants, hothers⟩ := Prod.mk.inj hentries
  obtain ⟨hproperties, hmethods⟩ := Prod.mk.inj hothers
  refine ⟨view, flat?_eq_some_iff.1 hview, fun k => ?_⟩
  cases k with
  | constant => exact ⟨"X", hconstants⟩
  | property => exact ⟨"p", hproperties⟩
  | method => exact ⟨"m", hmethods⟩

/-- It has one member of each kind, which comes from the trait, and again from the parent. -/
theorem overrides_itself_iff_sharedTrait :
    ∃ view c, sharedTrait.resolve 10 "C" = .ok view ∧ sharedTrait.classlike? "C" = some c ∧
      ∀ k, ∃ e ∈ view.entries k, e.hides = some e.owner ∧ e.origin = .inherited ∧
        Offer.repeated (FlatClass.offers (sharedTrait.flat? 10) c k e.label) = true := by
  obtain ⟨view, hok, hentries⟩ := exists_view_sharedTrait
  obtain ⟨c, hc, hall⟩ := overrides_itself_iff sharedTrait membersOwned_sharedTrait 10 "C" view hok
  refine ⟨view, c, hok, hc, fun k => ?_⟩
  obtain ⟨n, hk⟩ := hentries k
  have he : ⟨n, "\\T", .inherited, some "\\T"⟩ ∈ view.entries k := by
    rw [hk]
    exact List.mem_singleton_self _
  obtain ⟨-, hinherited, hrepeated⟩ := (hall k _ he).2.1 ⟨"\\T", rfl, rfl⟩
  exact ⟨_, he, rfl, hinherited, hrepeated⟩

/-- Not all that is overridden is declared by another class, not even where every classlike declares
its members once. -/
theorem not_forall_overrides_another :
    ¬∀ (t : Tables) (maxDepth : Nat) (name : String) (view : FlatClass), t.MembersOwned →
      (∀ c ∈ t.classlikes.values, (c.constants.map (·.name)).Nodup ∧
        (c.properties.map (·.name)).Nodup ∧ (c.methods.map (fold ·.name)).Nodup) →
      t.resolve maxDepth name = .ok view → ∀ k, ∀ e ∈ view.entries k, ∀ d, e.hides = some d →
        Name.key d ≠ Name.key e.owner := by
  intro hall
  obtain ⟨view, hok, hentries⟩ := exists_view_sharedTrait
  obtain ⟨n, hproperties⟩ := hentries .property
  have he : ⟨n, "\\T", .inherited, some "\\T"⟩ ∈ view.entries .property := by
    rw [hproperties]
    exact List.mem_singleton_self _
  exact hall sharedTrait 10 "C" view membersOwned_sharedTrait (by decide +kernel) hok .property _ he
    "\\T" rfl rfl

end Tables
end PhpAtlas
