import PhpAtlas.Proofs.Ancestry.Assembly

/-!
# The maximum depth only rejects

A search carries a bound and the classlikes that it is resolving through all ancestors, and leaves
out an ancestor that is not found.  Running out of room and meeting a classlike again are not taken
for that: they end the whole search.  So where there is a view, nothing in it was cut off.  It is
the view under every larger bound, and each view that was merged on the way, at any depth, is the
one that the ancestor has by itself.

## Main definitions

* `Tables.Merges` — the views that a search merges on its way.

## Main results

* `Tables.Merges.exists_call` — a merged view is the result of a search below.
* `Tables.Merges.resolve_eq` — a merged view is the one that the ancestor has by itself.
* `Tables.bound_and_visiting_only_reject` — the bound and the classlikes being resolved decide
  whether there is a view, but not which.
-/

namespace PhpAtlas

theorem exists_eq_ok {α ε : Type} {r : Except ε α} (h : r.toOption.isSome = true) :
    ∃ a, r = .ok a := by
  cases r with
  | error e => cases h
  | ok a => exact ⟨a, rfl⟩

namespace Tables

variable {t : Tables}

/-- In the search for a name, below the classlikes being resolved and with so much room, the view of
an ancestor is merged: into that of the classlike itself, or into that of one of its ancestors. -/
inductive Merges (t : Tables) :
    (room : Nat) → (visiting : List String) → (name ancestor : String) → FlatClass → Prop
  | listed {room : Nat} {visiting : List String} {name : String} {c : ClasslikeSymbol}
      (hfree : ∀ v ∈ visiting, Name.key v ≠ Name.key name) (hc : t.classlike? name = some c)
      {a : String} (ha : a ∈ c.ancestors) {view : FlatClass}
      (hview : t.resolveFrom room (visiting ++ [c.full]) a = .ok view) :
      Merges t (room + 1) visiting name a view
  | deeper {room : Nat} {visiting : List String} {name : String} {c : ClasslikeSymbol}
      (hfree : ∀ v ∈ visiting, Name.key v ≠ Name.key name) (hc : t.classlike? name = some c)
      {b : String} (hb : b ∈ c.ancestors) {a : String} {view : FlatClass}
      (h : Merges t room (visiting ++ [c.full]) b a view) :
      Merges t (room + 1) visiting name a view

namespace Merges

variable {room d : Nat} {visiting : List String} {name a : String} {view : FlatClass}

/-- A merged view is the result of a search with less room and below more classlikes. -/
theorem exists_call (h : t.Merges room visiting name a view) :
    ∃ rest others, rest < room ∧ visiting <+: others ∧
      t.resolveFrom rest others a = .ok view := by
  induction h with
  | @listed room visiting name c hfree hc a ha view hview =>
    exact ⟨room, _, Nat.lt_succ_self room, List.prefix_append _ _, hview⟩
  | @deeper room visiting name c hfree hc b hb a view h ih =>
    obtain ⟨rest, others, hrest, hothers, hview⟩ := ih
    exact ⟨rest, others, Nat.lt_succ_of_lt hrest, (List.prefix_append _ _).trans hothers, hview⟩

/-- A merged view is the one that the ancestor has by itself. -/
theorem resolve_eq (h : t.Merges room visiting name a view) (hroom : room ≤ d) :
    t.resolve d a = .ok view := by
  obtain ⟨rest, others, hrest, -, hview⟩ := h.exists_call
  have hle : rest ≤ d := by omega
  calc t.resolve d a
      = t.resolveFrom rest others a :=
        resolveFrom_of_settles (.inl ⟨view, hview⟩) hle (List.nil_subset _)
    _ = .ok view := hview

end Merges

/-- What is indexed of the ancestors that a resolved classlike lists is merged into its view. -/
theorem merges_of_resolveFrom {room d : Nat} {visiting : List String} {name : String}
    {view : FlatClass} (h : t.resolveFrom room visiting name = .ok view) (hroom : room ≤ d) :
    ∃ c, t.classlike? name = some c ∧ view = FlatClass.assembleFrom (t.flat? d) c ∧
      ∀ a ∈ c.ancestors, (t.classlike? a).isSome = true →
        ∃ merged, t.flat? d a = some merged ∧ t.Merges room visiting name a merged := by
  have hsettles : Settles (t.resolveFrom room visiting name) := .inl ⟨view, h⟩
  obtain ⟨rest, rfl⟩ : ∃ rest, room = rest + 1 :=
    ⟨room - 1, by have := room_pos_of_settles hsettles; omega⟩
  obtain ⟨c, hc, hlisted, hview⟩ := assembleFrom_of_resolveFrom h (Nat.le_of_succ_le hroom)
  refine ⟨c, hc, hview, fun a ha hindexed => ?_⟩
  obtain ⟨hsettled, halone⟩ := hlisted a ha
  rcases hsettled with ⟨merged, hmerged⟩ | ⟨other, hother⟩
  · refine ⟨merged, ?_, .listed (not_visiting_of_settles hsettles) hc ha hmerged⟩
    rw [← halone, hmerged]
    rfl
  · rw [(unknown_of_resolveFrom hother).1] at hindexed
    cases hindexed

/-- A view that is found under a bound is found under every larger one.  Below any classlikes being
resolved, each view that is merged on the way is the one that the ancestor has by itself; and if
there is a view, it is that of the classlike by itself, put together from these: all that it lists
and that is indexed was merged. -/
theorem bound_and_visiting_only_reject (t : Tables) (name : String) :
    (∀ d d' view, d ≤ d' → t.resolve d name = .ok view → t.resolve d' name = .ok view) ∧
    ∀ d visiting,
      (∀ a merged, t.Merges (d - visiting.length) visiting name a merged →
        t.resolve d a = .ok merged) ∧
      ∀ view, t.resolveFrom (d - visiting.length) visiting name = .ok view →
        t.resolve d name = .ok view ∧
        ∃ c, t.classlike? name = some c ∧ view = FlatClass.assembleFrom (t.flat? d) c ∧
          ∀ a ∈ c.ancestors, (t.classlike? a).isSome = true → ∃ merged,
            t.flat? d a = some merged ∧
              t.Merges (d - visiting.length) visiting name a merged := by
  refine ⟨fun d d' view hle h => ?_, fun d visiting => ⟨fun a merged h => ?_, fun view h => ?_⟩⟩
  · exact (resolveFrom_of_settles (.inl ⟨view, h⟩) hle (List.Subset.refl _)).trans h
  · exact h.resolve_eq (Nat.sub_le _ _)
  · refine ⟨?_, merges_of_resolveFrom h (Nat.sub_le _ _)⟩
    exact (resolveFrom_of_settles (.inl ⟨view, h⟩) (Nat.sub_le _ _) (List.nil_subset _)).trans h

/-- A class that implements an interface by itself and by its parent. -/
def sharedInterface : Tables :=
  Tables.empty.withDocument 10
    (Document.ofSource "a.php"
      ("<?php interface I {const X=1;} class P implements I {} " ++
        "class C extends P implements I {}")) 0

/-- Below another class, the interface is merged into the parent with the view that it has by
itself, and the class has under the bound 9 the view that it has under the bound 3. -/
theorem bound_and_visiting_only_reject_sharedInterface :
    ∃ view merged, sharedInterface.resolve 3 "C" = .ok view ∧
      sharedInterface.resolve 9 "C" = .ok view ∧
      sharedInterface.Merges (4 - ["\\X"].length) ["\\X"] "C" "\\I" merged ∧
      sharedInterface.resolve 4 "\\I" = .ok merged := by
  have hrun : (sharedInterface.resolve 3 "C").toOption.isSome = true ∧
      (sharedInterface.resolveFrom 1 ["\\X", "\\C", "\\P"] "\\I").toOption.isSome = true ∧
      (sharedInterface.classlike? "C").map (fun c => (c.full, c.parents)) =
        some ("\\C", ["\\P"]) ∧
      (sharedInterface.classlike? "\\P").map (fun c => (c.full, c.interfaces)) =
        some ("\\P", ["\\I"]) := by
    decide +kernel
  obtain ⟨hview, hmerged, hclass, hparent⟩ := hrun
  obtain ⟨view, hview⟩ := exists_eq_ok hview
  obtain ⟨merged, hmerged⟩ := exists_eq_ok hmerged
  obtain ⟨c, hc, hnames⟩ := Option.map_eq_some_iff.1 hclass
  obtain ⟨hfull, hparents⟩ := Prod.mk.inj hnames
  obtain ⟨p, hp, hnames'⟩ := Option.map_eq_some_iff.1 hparent
  obtain ⟨hfull', hinterfaces⟩ := Prod.mk.inj hnames'
  have hmerges : sharedInterface.Merges 3 ["\\X"] "C" "\\I" merged := by
    refine .deeper (by decide +kernel) hc
      (c.parents_subset (hparents ▸ List.mem_singleton_self _)) ?_
    rw [hfull]
    refine .listed (by decide +kernel) hp
      (p.interfaces_subset (hinterfaces ▸ List.mem_singleton_self _)) ?_
    rw [hfull']
    exact hmerged
  obtain ⟨hlarger, hbelow⟩ := bound_and_visiting_only_reject sharedInterface "C"
  exact ⟨view, merged, hview, hlarger 3 9 view (by decide) hview, hmerges,
    (hbelow 4 ["\\X"]).1 "\\I" merged hmerges⟩

end Tables
end PhpAtlas
