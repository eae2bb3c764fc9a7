import Mathlib.Data.List.Chain
import Mathlib.Logic.Relation
import PhpAtlas.Ancestry.Resolve
import PhpAtlas.Proofs.Index.Atomicity

/-!
# Which classlikes can be resolved

A classlike is resolved exactly if it is indexed and no walk along traits, parents and interfaces is
longer than the maximum depth.  The search keeps the classlikes that it is resolving; each of them
leads to the next name, so that meeting one of them again closes a circle, and a circle makes walks
of every length.

## Main definitions

* `Tables.Extends` — one step from a classlike to what it lists.
* `Tables.IsWalk` — a walk along such steps.
* `Tables.Settles` — a result that does not end the resolution of a descendant.

## Main results

* `Tables.resolveFrom_cases` — what one step of the search does.
* `Tables.flattenWith_ok_iff` — a classlike is flattened exactly if all it lists settles.
* `Tables.length_le_of_resolveFrom_ok` — a resolved classlike has no walk that is too long.
* `Tables.settles_resolveFrom` — the search settles where no walk is too long.
* `Tables.resolve_ok_iff` — the two together, and what follows for circles.
-/

namespace PhpAtlas

open Relation

/-! ### Results of a list of steps that may fail -/

theorem mapM_ok_iff {α β ε : Type} {f : α → Except ε β} {l : List α} :
    (∃ ys, l.mapM f = .ok ys) ↔ ∀ x ∈ l, ∃ y, f x = .ok y := by
  induction l with
  | nil => exact ⟨fun _ x hx => absurd hx List.not_mem_nil, fun _ => ⟨[], rfl⟩⟩
  | cons x l ih =>
    rw [List.forall_mem_cons, ← ih, List.mapM_cons]
    cases f x with
    | error e => simp [bind, Except.bind]
    | ok y =>
      cases l.mapM f with
      | error e => simp [bind, Except.bind]
      | ok ys => simp [bind, Except.bind, pure, Except.pure]

theorem exists_of_mapM_error {α β ε : Type} {f : α → Except ε β} {l : List α} {e : ε}
    (h : l.mapM f = .error e) : ∃ x ∈ l, f x = .error e := by
  induction l with
  | nil => cases h
  | cons x l ih =>
    rw [List.mapM_cons] at h
    cases hx : f x with
    | error e' =>
      rw [hx] at h
      obtain rfl : e' = e := Except.error.inj h
      exact ⟨x, List.mem_cons_self, hx⟩
    | ok y =>
      cases hl : l.mapM f with
      | error e' =>
        rw [hx, hl] at h
        obtain rfl : e' = e := Except.error.inj h
        obtain ⟨z, hz, hfz⟩ := ih hl
        exact ⟨z, List.mem_cons_of_mem _ hz, hfz⟩
      | ok ys =>
        rw [hx, hl] at h
        cases h

theorem bind_ne_error {α β ε : Type} {x : Except ε α} {f : α → Except ε β} {e : ε}
    (hx : x ≠ .error e) (hf : ∀ a, f a ≠ .error e) : (x >>= f) ≠ .error e := by
  cases x with
  | error e' =>
    intro h
    exact hx (congrArg Except.error (Except.error.inj h))
  | ok a => exact hf a

/-- The names that a classlike lists, in the order in which they are resolved. -/
def ClasslikeSymbol.ancestors (c : ClasslikeSymbol) : List String :=
  c.traits ++ c.parents ++ c.interfaces

namespace ClasslikeSymbol

theorem traits_subset (c : ClasslikeSymbol) : c.traits ⊆ c.ancestors :=
  fun _ hn => List.mem_append_left _ (List.mem_append_left _ hn)

theorem parents_subset (c : ClasslikeSymbol) : c.parents ⊆ c.ancestors :=
  fun _ hn => List.mem_append_left _ (List.mem_append_right _ hn)

theorem interfaces_subset (c : ClasslikeSymbol) : c.interfaces ⊆ c.ancestors :=
  fun _ hn => List.mem_append_right _ hn

end ClasslikeSymbol

namespace Tables

variable {t : Tables}

/-! ### One step of the search -/

/-- A result that does not end the resolution of a descendant: a view, or nothing indexed. -/
def Settles (r : Except ResolutionError FlatClass) : Prop :=
  (∃ view, r = .ok view) ∨ ∃ name, r = .error (.unknown name)

theorem ancestorOf_ok_iff (name : String) (r : Except ResolutionError FlatClass) :
    (∃ a, ancestorOf name r = .ok a) ↔ Settles r := by
  unfold ancestorOf Settles
  split <;> simp_all

theorem ancestorOf_ne_unknown (name other : String) (r : Except ResolutionError FlatClass) :
    ancestorOf name r ≠ .error (.unknown other) := by
  unfold ancestorOf
  split <;> simp_all

/-- A classlike is flattened exactly if all it lists settles. -/
theorem flattenWith_ok_iff (resolve : String → Except ResolutionError FlatClass)
    (c : ClasslikeSymbol) :
    (∃ view, flattenWith resolve c = .ok view) ↔ ∀ n ∈ c.ancestors, Settles (resolve n) := by
  have hlist : ∀ names : List String,
      (∃ ys, names.mapM (fun n => ancestorOf n (resolve n)) = .ok ys) ↔
        ∀ n ∈ names, Settles (resolve n) := by
    intro names
    rw [mapM_ok_iff]
    exact forall₂_congr fun n _ => ancestorOf_ok_iff n (resolve n)
  rw [ClasslikeSymbol.ancestors, List.forall_mem_append, List.forall_mem_append, ← hlist, ← hlist,
    ← hlist]
  simp only [flattenWith]
  cases c.traits.mapM fun n => ancestorOf n (resolve n) with
  | error e => simp [bind, Except.bind]
  | ok traits =>
    cases c.parents.mapM fun n => ancestorOf n (resolve n) with
    | error e => simp [bind, Except.bind]
    | ok parents =>
      cases c.interfaces.mapM fun n => ancestorOf n (resolve n) with
      | error e => simp [bind, Except.bind]
      | ok interfaces => simp [bind, Except.bind, pure, Except.pure]

/-- What is not indexed is left out, so that it is no reason for a failure. -/
theorem flattenWith_ne_unknown (resolve : String → Except ResolutionError FlatClass)
    (c : ClasslikeSymbol) (name : String) :
    flattenWith resolve c ≠ .error (.unknown name) := by
  have hlist : ∀ names : List String,
      names.mapM (fun n => ancestorOf n (resolve n)) ≠ .error (.unknown name) := by
    intro names h
    obtain ⟨n, -, hn⟩ := exists_of_mapM_error h
    exact ancestorOf_ne_unknown n name (resolve n) hn
  refine bind_ne_error (hlist c.traits) fun _ => bind_ne_error (hlist c.parents) fun _ =>
    bind_ne_error (hlist c.interfaces) fun _ h => ?_
  cases h

/-- What one step of the search does. -/
theorem resolveFrom_cases (t : Tables) (room : Nat) (visiting : List String) (name : String) :
    (∃ v ∈ visiting, Name.key v = Name.key name ∧
      ∃ chain, t.resolveFrom room visiting name = .error (.circular name chain)) ∨
    (room = 0 ∧ t.resolveFrom room visiting name = .error (.tooDeep name)) ∨
    (0 < room ∧ t.classlike? name = none ∧
      t.resolveFrom room visiting name = .error (.unknown name)) ∨
    ∃ rest c, room = rest + 1 ∧ t.classlike? name = some c ∧
      t.resolveFrom room visiting name =
        flattenWith (t.resolveFrom rest (visiting ++ [c.full])) c := by
  by_cases hvisiting : (visiting.any fun v => Name.key v == Name.key name) = true
  · obtain ⟨v, hv, hkey⟩ := List.any_eq_true.1 hvisiting
    refine .inl ⟨v, hv, beq_iff_eq.1 hkey, ?_⟩
    rw [resolveFrom.eq_def]
    exact ⟨_, if_pos hvisiting⟩
  · rw [resolveFrom.eq_def]
    dsimp only
    rw [if_neg hvisiting]
    cases room with
    | zero => exact .inr (.inl ⟨rfl, rfl⟩)
    | succ rest =>
      cases hc : t.classlike? name with
      | none => exact .inr (.inr (.inl ⟨Nat.succ_pos rest, rfl, rfl⟩))
      | some c => exact .inr (.inr (.inr ⟨rest, c, rfl, rfl, rfl⟩))

/-- Only what is not indexed is unknown, and only where there is room to look. -/
theorem unknown_of_resolveFrom {room : Nat} {visiting : List String} {name other : String}
    (h : t.resolveFrom room visiting name = .error (.unknown other)) :
    t.classlike? name = none ∧ 0 < room := by
  rcases resolveFrom_cases t room visiting name with
    ⟨_, -, -, chain, heq⟩ | ⟨-, heq⟩ | ⟨hroom, hnone, -⟩ | ⟨rest, c, -, -, heq⟩
  · rw [heq] at h
    cases h
  · rw [heq] at h
    cases h
  · exact ⟨hnone, hroom⟩
  · rw [heq] at h
    exact absurd h (flattenWith_ne_unknown _ c other)

/-! ### Walks -/

/-- The classlike that is found under `a` lists `b` among its traits, parents and interfaces. -/
def Extends (t : Tables) (a b : String) : Prop :=
  ∃ c, t.classlike? a = some c ∧ ∃ n ∈ c.ancestors, Name.key n = Name.key b

theorem extends_iff (t : Tables) (a b : String) :
    t.Extends a b ↔
      ((t.classlike? a).any fun c => c.ancestors.any (Name.key · == Name.key b)) = true := by
  rw [Option.any_eq_true]
  simp only [Extends, List.any_eq_true, beq_iff_eq]

instance (t : Tables) (a b : String) : Decidable (t.Extends a b) :=
  decidable_of_iff' _ (extends_iff t a b)

/-- A walk from a name, along what classlikes list.  Only its last name may not be indexed. -/
def IsWalk (t : Tables) (name : String) (walk : List String) : Prop :=
  walk.head? = some name ∧ walk.IsChain t.Extends

theorem Extends.congr_left {a a' b : String} (h : t.Extends a b) (ha : Name.key a = Name.key a') :
    t.Extends a' b := by
  obtain ⟨c, hc, hn⟩ := h
  refine ⟨c, ?_, hn⟩
  rw [classlike?, ← ha]
  exact hc

theorem circle_of_transGen {a b : String} (h : TransGen t.Extends a b)
    (hab : Name.key a = Name.key b) : TransGen t.Extends b b := by
  obtain ⟨c, hac, hcb⟩ := TransGen.head'_iff.1 h
  exact .head' (hac.congr_left hab) hcb

theorem isWalk_singleton (name : String) : t.IsWalk name [name] := ⟨rfl, .singleton name⟩

theorem IsWalk.cons {a b : String} {walk : List String} (hstep : t.Extends a b)
    (h : t.IsWalk b walk) : t.IsWalk a (a :: walk) := by
  obtain ⟨hhead, hchain⟩ := h
  cases walk with
  | nil => cases hhead
  | cons n rest =>
    obtain rfl : n = b := Option.some.inj hhead
    exact ⟨rfl, hchain.cons_cons hstep⟩

/-- The rest of a walk may as well start at the name as it is listed. -/
theorem IsWalk.cases {a : String} {walk : List String} (h : t.IsWalk a walk) :
    walk = [a] ∨ ∃ c, t.classlike? a = some c ∧ ∃ n ∈ c.ancestors, ∃ rest,
      t.IsWalk n rest ∧ walk.length = rest.length + 1 := by
  obtain ⟨hhead, hchain⟩ := h
  match walk with
  | [] => cases hhead
  | [n] =>
    obtain rfl : n = a := Option.some.inj hhead
    exact .inl rfl
  | n :: b :: rest =>
    obtain rfl : n = a := Option.some.inj hhead
    obtain ⟨⟨c, hc, m, hm, hkey⟩, hchain⟩ := List.isChain_cons_cons.1 hchain
    refine .inr ⟨c, hc, m, hm, m :: rest, ⟨rfl, ?_⟩, rfl⟩
    cases rest with
    | nil => exact .singleton m
    | cons d rest =>
      obtain ⟨hstep, hchain⟩ := List.isChain_cons_cons.1 hchain
      exact hchain.cons_cons (hstep.congr_left hkey.symm)

/-- A circle below a name makes walks of every length. -/
theorem exists_walk_of_circle {a : String}
    (h : ∃ n, ReflTransGen t.Extends a n ∧ TransGen t.Extends n n) (length : Nat) :
    ∃ walk, t.IsWalk a walk ∧ walk.length = length + 1 := by
  induction length generalizing a with
  | zero => exact ⟨[a], isWalk_singleton a, rfl⟩
  | succ length ih =>
    obtain ⟨n, han, hnn⟩ := h
    -- the first step leads along the way to the circle, or along the circle
    obtain ⟨b, hab, hb⟩ : ∃ b, t.Extends a b ∧ ReflTransGen t.Extends b n := by
      rcases ReflTransGen.cases_head han with rfl | ⟨b, hab, hbn⟩
      · exact TransGen.head'_iff.1 hnn
      · exact ⟨b, hab, hbn⟩
    obtain ⟨walk, hwalk, hlength⟩ := ih ⟨n, hb, hnn⟩
    exact ⟨a :: walk, hwalk.cons hab, congrArg Nat.succ hlength⟩

/-! ### Resolving -/

/-- A resolved classlike is indexed, and no walk from it is longer than the room it had. -/
theorem length_le_of_resolveFrom_ok {room : Nat} {visiting : List String} {name : String}
    {view : FlatClass} (h : t.resolveFrom room visiting name = .ok view) :
    (t.classlike? name).isSome ∧ ∀ walk, t.IsWalk name walk → walk.length ≤ room := by
  induction room using Nat.strong_induction_on generalizing visiting name view with
  | _ room ih =>
    rcases resolveFrom_cases t room visiting name with
      ⟨_, -, -, chain, heq⟩ | ⟨-, heq⟩ | ⟨-, -, heq⟩ | ⟨rest, c, rfl, hc, heq⟩
    · rw [heq] at h
      cases h
    · rw [heq] at h
      cases h
    · rw [heq] at h
      cases h
    · rw [heq] at h
      have hsettles := (flattenWith_ok_iff _ c).1 ⟨view, h⟩
      refine ⟨Option.isSome_of_eq_some hc, fun walk hwalk => ?_⟩
      rcases hwalk.cases with rfl | ⟨c', hc', n, hn, tail, htail, hlength⟩
      · exact Nat.succ_pos rest
      · obtain rfl : c = c' := Option.some.inj (hc.symm.trans hc')
        rw [hlength]
        refine Nat.succ_le_succ ?_
        rcases hsettles n hn with ⟨view', hview'⟩ | ⟨other, hother⟩
        · exact (ih rest (Nat.lt_succ_self rest) hview').2 tail htail
        · -- a walk ends with a name that is not indexed
          obtain ⟨hnone, hroom⟩ := unknown_of_resolveFrom hother
          rcases htail.cases with rfl | ⟨c', hc', -⟩
          · exact hroom
          · rw [hnone] at hc'
            cases hc'

/-- Where no walk is longer than the room there is, a name is resolved or not indexed.  Each
classlike being resolved leads to the name. -/
theorem settles_resolveFrom {room : Nat} {visiting : List String} {name : String}
    (hvisiting : ∀ v ∈ visiting, TransGen t.Extends v name)
    (hwalks : ∀ walk, t.IsWalk name walk → walk.length ≤ room) :
    Settles (t.resolveFrom room visiting name) := by
  induction room using Nat.strong_induction_on generalizing visiting name with
  | _ room ih =>
    rcases resolveFrom_cases t room visiting name with
      ⟨v, hv, hkey, -⟩ | ⟨rfl, -⟩ | ⟨-, -, heq⟩ | ⟨rest, c, rfl, hc, heq⟩
    · have hcircle := circle_of_transGen (hvisiting v hv) hkey
      obtain ⟨walk, hwalk, hlength⟩ := exists_walk_of_circle ⟨name, .refl, hcircle⟩ room
      have hle := hwalks walk hwalk
      omega
    · exact absurd (hwalks [name] (isWalk_singleton name)) (Nat.not_succ_le_zero 0)
    · exact .inr ⟨name, heq⟩
    · rw [heq]
      refine .inl ((flattenWith_ok_iff _ c).2 fun n hn => ?_)
      have hstep : t.Extends name n := ⟨c, hc, n, hn, rfl⟩
      -- the classlike is kept under its own name, which is the same to a look-up
      have hself : t.Extends c.full n := hstep.congr_left (KeyedTable.key_of_get? hc).symm
      refine ih rest (Nat.lt_succ_self rest) (fun v hv => ?_) fun walk hwalk => ?_
      · rcases List.mem_append.1 hv with hv | hv
        · exact (hvisiting v hv).tail hstep
        · rw [List.mem_singleton.1 hv]
          exact .single hself
      · exact Nat.le_of_succ_le_succ (hwalks (name :: walk) (hwalk.cons hstep))

/-- A classlike is resolved exactly if it is indexed and no walk from it has more names than the
maximum depth.  So a circle below it is an error. -/
theorem resolve_ok_iff (t : Tables) (maxDepth : Nat) (name : String) :
    ((∃ view, t.resolve maxDepth name = .ok view) ↔
      (t.classlike? name).isSome ∧ ∀ walk, t.IsWalk name walk → walk.length ≤ maxDepth) ∧
    ((∃ n, ReflTransGen t.Extends name n ∧ TransGen t.Extends n n) →
      ∃ e, t.resolve maxDepth name = .error e) := by
  constructor
  · constructor
    · rintro ⟨view, hview⟩
      exact length_le_of_resolveFrom_ok hview
    · rintro ⟨hindexed, hwalks⟩
      have hnone : ∀ v ∈ ([] : List String), TransGen t.Extends v name := by simp
      rcases settles_resolveFrom hnone hwalks with hview | ⟨other, hother⟩
      · exact hview
      · rw [(unknown_of_resolveFrom hother).1] at hindexed
        cases hindexed
  · intro hcircle
    cases hresult : t.resolve maxDepth name with
    | error e => exact ⟨e, rfl⟩
    | ok view =>
      obtain ⟨walk, hwalk, hlength⟩ := exists_walk_of_circle hcircle maxDepth
      have hle := (length_le_of_resolveFrom_ok hresult).2 walk hwalk
      omega

/-- Two classes that are each other's parents. -/
def mutualParents : Tables :=
  Tables.empty.withDocument 10
    (Document.ofSource "a.php" "<?php class A extends B {} class B extends a {}") 0

/-- Such a class is on a circle, and is not resolved. -/
theorem resolve_ok_iff_mutualParents :
    (∃ n, ReflTransGen mutualParents.Extends "A" n ∧ TransGen mutualParents.Extends n n) ∧
      ∃ e, mutualParents.resolve 10 "A" = .error e := by
  have hcircle : TransGen mutualParents.Extends "A" "A" :=
    .tail (b := "B") (.single (by decide +kernel)) (by decide +kernel)
  exact ⟨⟨"A", .refl, hcircle⟩, (resolve_ok_iff mutualParents 10 "A").2 ⟨"A", .refl, hcircle⟩⟩

end Tables
end PhpAtlas
