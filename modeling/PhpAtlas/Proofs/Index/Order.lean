import Mathlib.Data.List.Basic
import PhpAtlas.Proofs.Index.Places

/-!
# The order of declarations

The place of a declaration is its way down from the file: the number of a statement in the file, the
number of a statement in the namespace or block that this one is, or those of a branch and of a
statement in it, and so on, and at last the number of the declaration among those of its statement.
Places are compared like words in a dictionary, which is the order of the source.

## Main definitions

* `DeclaredAt`, `DeclaredIn` — a declaration and its place in a file, and in a statement.
* `Traversal` — all declarations that have a place, in the order of their places.

## Main results

* `exists_traversal` — the declarations of a file are listed in the order of their places.
-/

namespace PhpAtlas

/-! ### Places -/

mutual

/-- A declaration in a statement.  The bodies of functions and methods are not entered. -/
inductive DeclaredIn : Stmt → List Nat → Declaration → Prop
  | own {s : Stmt} {j : Nat} {d : Declaration} (h : s.Declares j d) : DeclaredIn s [j] d
  | space {span : Span} {name : Option String} {braced : Bool} {inner : List Stmt}
      {place : List Nat} {d : Declaration} (h : DeclaredAt inner place d) :
      DeclaredIn (.space span name braced inner) place d
  | block {body : Body Stmt} {place : List Nat} {d : Declaration}
      (h : DeclaredAt body.statements place d) : DeclaredIn (.block body) place d
  | branch {span : Span} {branches : List (Branch Expr Stmt)} {k : Nat} {b : Branch Expr Stmt}
      {place : List Nat} {d : Declaration} (hb : branches[k]? = some b)
      (h : DeclaredAt b.body.statements place d) : DeclaredIn (.cond span branches) (k :: place) d

/-- A declaration in one of some statements. -/
inductive DeclaredAt : List Stmt → List Nat → Declaration → Prop
  | statement {ss : List Stmt} {i : Nat} {s : Stmt} {place : List Nat} {d : Declaration}
      (hs : ss[i]? = some s) (h : DeclaredIn s place d) : DeclaredAt ss (i :: place) d

end

/-- All declarations that have a place, in the order of their places. -/
structure Traversal (R : List Nat → Declaration → Prop) (stops : List (List Nat × Declaration)) :
    Prop where
  ordered : stops.Pairwise fun a b => a.1 < b.1
  mem_iff : ∀ place d, (place, d) ∈ stops ↔ R place d

/-- These are the declarations that have a place, in the order of their places. -/
def Listed (R : List Nat → Declaration → Prop) (ds : List Declaration) : Prop :=
  ∃ stops, Traversal R stops ∧ stops.map Prod.snd = ds

/-- A place in one of some parts, which are counted from `n`. -/
def Among {α : Type} (R : α → List Nat → Declaration → Prop) (n : Nat) (parts : List α)
    (place : List Nat) (d : Declaration) : Prop :=
  ∃ i a rest, parts[i]? = some a ∧ place = (n + i) :: rest ∧ R a rest d

theorem Listed.congr {R S : List Nat → Declaration → Prop} {ds : List Declaration}
    (h : Listed R ds) (hsame : ∀ place d, R place d ↔ S place d) : Listed S ds := by
  obtain ⟨stops, ⟨hordered, hmem⟩, hds⟩ := h
  exact ⟨stops, ⟨hordered, fun place d => (hmem place d).trans (hsame place d)⟩, hds⟩

section Parts

variable {α : Type} {R : α → List Nat → Declaration → Prop} {n : Nat} {a : α} {parts : List α}

theorem among_cons_iff {place : List Nat} {d : Declaration} :
    Among R n (a :: parts) place d ↔
      (∃ rest, place = n :: rest ∧ R a rest d) ∨ Among R (n + 1) parts place d := by
  constructor
  · rintro ⟨i, b, rest, hb, rfl, hR⟩
    cases i with
    | zero =>
      obtain rfl := Option.some.inj hb
      exact .inl ⟨rest, rfl, hR⟩
    | succ i => exact .inr ⟨i, b, rest, hb, by rw [Nat.add_right_comm, Nat.add_assoc], hR⟩
  · rintro (⟨rest, rfl, hR⟩ | ⟨i, b, rest, hb, rfl, hR⟩)
    · exact ⟨0, a, rest, rfl, rfl, hR⟩
    · exact ⟨i + 1, b, rest, hb, by rw [Nat.add_right_comm, Nat.add_assoc], hR⟩

theorem listed_nil : Listed (Among R n []) [] := by
  refine ⟨[], ⟨.nil, fun place d => ⟨nofun, ?_⟩⟩, rfl⟩
  rintro ⟨i, a, rest, ha, -⟩
  cases ha

/-- What is in the first part stands in front of what is in the others. -/
theorem Listed.cons {ds es : List Declaration} (ha : Listed (R a) ds)
    (hparts : Listed (Among R (n + 1) parts) es) : Listed (Among R n (a :: parts)) (ds ++ es) := by
  obtain ⟨front, ⟨hfront, hmem⟩, rfl⟩ := ha
  obtain ⟨back, ⟨hback, hmem'⟩, rfl⟩ := hparts
  refine ⟨front.map (fun stop => (n :: stop.1, stop.2)) ++ back, ⟨?_, fun place d => ?_⟩, ?_⟩
  · refine List.pairwise_append.2 ⟨?_, hback, ?_⟩
    · rw [List.pairwise_map]
      exact hfront.imp fun h => List.cons_lt_cons_iff.2 (.inr ⟨rfl, h⟩)
    · rintro _ hx ⟨place, d⟩ hy
      obtain ⟨⟨rest, e⟩, -, rfl⟩ := List.mem_map.1 hx
      obtain ⟨i, -, rest', -, rfl, -⟩ := (hmem' place d).1 hy
      exact List.cons_lt_cons_iff.2 (.inl (by omega))
  · rw [List.mem_append, among_cons_iff, hmem' place d, List.mem_map]
    refine or_congr_left ⟨?_, ?_⟩
    · rintro ⟨⟨rest, e⟩, hmember, hpair⟩
      obtain ⟨rfl, rfl⟩ := Prod.mk.inj hpair
      exact ⟨rest, rfl, (hmem rest e).1 hmember⟩
    · rintro ⟨rest, rfl, hR⟩
      exact ⟨(rest, d), (hmem rest d).2 hR, rfl⟩
  · rw [List.map_append, List.map_map]
    rfl

end Parts

/-! ### The declarations of a file -/

theorem declaredAt_iff {ss : List Stmt} {place : List Nat} {d : Declaration} :
    DeclaredAt ss place d ↔ Among DeclaredIn 0 ss place d := by
  constructor
  · rintro ⟨hs, h⟩
    exact ⟨_, _, _, hs, by rw [Nat.zero_add], h⟩
  · rintro ⟨i, s, rest, hs, rfl, h⟩
    rw [Nat.zero_add]
    exact .statement hs h

/-- A list of declarations, each of which is a part of its own. -/
theorem listed_each (ds : List Declaration) (n : Nat) :
    Listed (Among (fun e rest d => rest = [] ∧ d = e) n ds) ds := by
  induction ds generalizing n with
  | nil => exact listed_nil
  | cons e ds ih =>
    have hfirst : Listed (fun rest d => rest = [] ∧ d = e) [e] :=
      ⟨[([], e)], ⟨List.pairwise_singleton _ _, fun place d => by simp⟩, rfl⟩
    exact hfirst.cons (ih (n + 1))

/-- What a statement declares by itself is listed as it stands there. -/
theorem listed_own {s : Stmt} (hs : s.isEntered = false) :
    Listed (DeclaredIn s) (declarationsOf s) := by
  refine (listed_each (declarationsOf s) 0).congr fun place d => ⟨?_, fun h => ?_⟩
  · rintro ⟨j, e, rest, he, rfl, rfl, rfl⟩
    rw [Nat.zero_add]
    exact .own ((Stmt.declares_iff hs).2 he)
  · cases h with
    | own h => exact ⟨_, d, [], (Stmt.declares_iff hs).1 h, by rw [Nat.zero_add], rfl, rfl⟩
    | space | block | branch => cases hs

mutual

-- The recursion is that of the search; statements are counted from where the search has come to.

theorem listed_declarations (ss : List Stmt) (n : Nat) :
    Listed (Among DeclaredIn n ss) (declarations ss) := by
  match ss with
  | [] => exact listed_nil
  | s :: rest => exact (listed_declarationsOf s).cons (listed_declarations rest (n + 1))
termination_by structural ss

theorem listed_declarationsOf (s : Stmt) : Listed (DeclaredIn s) (declarationsOf s) := by
  match s with
  | .space _ _ _ inner =>
    refine (listed_declarations inner 0).congr fun place d => declaredAt_iff.symm.trans ?_
    refine ⟨.space, fun h => ?_⟩
    cases h with
    | own h => cases h
    | space h => exact h
  | .block ⟨_, inner⟩ =>
    refine (listed_declarations inner 0).congr fun place d => declaredAt_iff.symm.trans ?_
    refine ⟨fun h => .block h, fun h => ?_⟩
    cases h with
    | own h => cases h
    | block h => exact h
  | .cond _ branches =>
    refine (listed_branchDeclarations branches 0).congr fun place d => ⟨?_, fun h => ?_⟩
    · rintro ⟨k, b, rest, hb, rfl, h⟩
      rw [Nat.zero_add]
      exact .branch hb h
    · cases h with
      | own h => cases h
      | branch hb h => exact ⟨_, _, _, hb, by rw [Nat.zero_add], h⟩
  | .function _ | .constants _ _ | .expression _ _ | .classlike _
  | .openTag _ | .closeTag _ | .html _ | .echoTag _ _ | .empty _ | .ret _ _ | .echo _ _
  | .whileLoop _ _ _ | .doLoop _ _ _ | .forLoop _ _ _ _ _ | .eachLoop _ _ _ _ _ | .switch _ _ _
  | .tryCatch _ _ _ _ _ | .use _ _ | .statics _ _ | .global _ _ | .unset _ _ | .declare _ _
  | .label _ | .goto _ | .jump _ _ => exact listed_own rfl
termination_by structural s

theorem listed_branchDeclarations (branches : List (Branch Expr Stmt)) (n : Nat) :
    Listed (Among (fun b => DeclaredAt b.body.statements) n branches)
      (branchDeclarations branches) := by
  match branches with
  | [] => exact listed_nil
  | ⟨_, ⟨_, inner⟩⟩ :: rest =>
    have hfirst := (listed_declarations inner 0).congr fun _ _ => declaredAt_iff.symm
    exact Listed.cons hfirst (listed_branchDeclarations rest (n + 1))
termination_by structural branches

end

end PhpAtlas
