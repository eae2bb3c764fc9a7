import Mathlib.Data.Finset.Card
import Mathlib.Logic.Relation
import PhpAtlas.Proofs.Deduction.Regions

/-!
# When a deduction ends

The look-up of a variable consults other variables, at its own position or one level deeper.  The
depth is bounded, and the variables that are consulted occur in the document.  So a deduction that
needs more steps than there are variables at every depth meets a variable that consults itself, at
one and the same position.  That does happen: an instance test types its class at the position
itself, and the class may be given by the variable that is tested.

## Main definitions

* `Atlas.Consults` — the look-up of one occurrence asks for another.
* `Atlas.Reaches` — the deduction of an expression comes to an occurrence.
* `Atlas.Circular` — an occurrence that consults itself without leaving its position.

## Main results

* `Atlas.variableIn_of_le` — more steps keep an answer.
* `Atlas.variableIn_eq_none_of_circular` — no number of steps is enough for a circle.
* `Atlas.isSome_variableIn` — consulting ends where no circle is reached, in steps that the document
  bounds.
* `Atlas.deduce?_eq_none_iff` — the steps that a deduction is given are enough: it has no answer
  only if it reaches a circle.
* `Atlas.deduction_settles_iff` — a deduction settles exactly if it reaches no circle.
* `Atlas.selfTest_endless` — a deduction that does not end.
-/

namespace PhpAtlas

open Relation

/-- Types for every occurrence but one. -/
def Variables.allBut (x : Occurrence) : Variables :=
  fun var point => if (⟨var, point⟩ : Occurrence) = x then none else some TypeList.empty

theorem Variables.isSome_allBut (x y : Occurrence) :
    (Variables.allBut x y.var y.point).isSome ↔ y ≠ x := by
  have hy : (⟨y.var, y.point⟩ : Occurrence) = y := rfl
  rw [allBut, hy]
  by_cases h : y = x <;> simp [h]

/-- What a result needs is what it cannot do without. -/
theorem Needs.eq_none_iff {α : Type} {f : Variables → Option α} {ys : List Occurrence}
    (h : Needs f ys) (x : Occurrence) : f (Variables.allBut x) = none ↔ x ∈ ys := by
  rw [← Option.not_isSome_iff_eq_none, h.isSome_iff]
  simp only [Variables.isSome_allBut, not_forall, not_not]
  exact ⟨fun ⟨y, hy, hyx⟩ => hyx ▸ hy, fun hx => ⟨x, hx, rfl⟩⟩

namespace Atlas

variable (a : Atlas) (site : Site)

/-- The look-up of `x` asks for `y`: without types for `y` it has no result. -/
def Consults (x y : Occurrence) : Prop :=
  a.variableWith site (Variables.allBut y) x.var x.point = none

/-- The types of `e` at `p` depend on those of `x`. -/
def DependsOn (e : Expr) (p : Point) (x : Occurrence) : Prop :=
  a.answerWith site (Variables.allBut x) e p = none

/-- The deduction of `e` at `p` comes to the look-up of `y`. -/
def Reaches (e : Expr) (p : Point) (y : Occurrence) : Prop :=
  ∃ x, a.DependsOn site e p x ∧ ReflTransGen (a.Consults site) x y

/-- The look-up of `x` asks for `x` again, by way of variables at the same position and depth. -/
def Circular (x : Occurrence) : Prop :=
  TransGen (fun v w => a.Consults site ⟨v, x.point⟩ ⟨w, x.point⟩) x.var x.var

instance (x y : Occurrence) : Decidable (a.Consults site x y) :=
  inferInstanceAs (Decidable (_ = none))

instance (e : Expr) (p : Point) (x : Occurrence) : Decidable (a.DependsOn site e p x) :=
  inferInstanceAs (Decidable (_ = none))

variable {a site}

/-! ### What one look-up consults -/

theorem needs_consults (a : Atlas) (site : Site) (x : Occurrence) :
    ∃ ys, Needs (fun lookup => a.variableWith site lookup x.var x.point) ys ∧
      ∀ y, a.Consults site x y ↔ y ∈ ys := by
  obtain ⟨ys, hys, -⟩ := a.variableWith_needs site x.point x.var
  exact ⟨ys, hys, hys.eq_none_iff⟩

theorem variableWith_isSome_iff (lookup : Variables) (x : Occurrence) :
    (a.variableWith site lookup x.var x.point).isSome ↔
      ∀ y, a.Consults site x y → (lookup y.var y.point).isSome := by
  obtain ⟨ys, hys, hmem⟩ := needs_consults a site x
  simp only [hmem]
  exact hys.isSome_iff lookup

/-- A look-up depends on nothing but what it consults. -/
theorem variableWith_eq_of_same {lookup lookup' : Variables} {x : Occurrence}
    (h : ∀ y, a.Consults site x y → lookup y.var y.point = lookup' y.var y.point) :
    a.variableWith site lookup x.var x.point = a.variableWith site lookup' x.var x.point := by
  obtain ⟨ys, hys, hmem⟩ := needs_consults a site x
  exact hys.eq_of_same fun y hy => h y ((hmem y).2 hy)

/-- A look-up consults occurrences at its own position or deeper, and none too deep. -/
theorem Consults.near {x y : Occurrence} (h : a.Consults site x y) :
    (y.point = x.point ∨ x.point.depth < y.point.depth) ∧ y.point.depth ≤ a.maxDepth := by
  obtain ⟨ys, hys, hnear⟩ := a.variableWith_needs site x.point x.var
  exact hnear y ((hys.eq_none_iff y).1 h)

/-- A variable that is consulted occurs in the document. -/
theorem Consults.mem_vars {x y : Occurrence} (h : a.Consults site x y) : y.var ∈ site.doc.vars := by
  by_contra hy
  -- without the variables of the document, the types of `y` are not asked for
  have hall : a.variableWith site (Variables.allBut y) x.var x.point =
      a.variableWith site (fun _ _ => some TypeList.empty) x.var x.point := by
    refine variableWith_eq_of_vars (fun v hv p => if_neg fun heq => hy ?_) x.var x.point
    rwa [← heq]
  have hsome : (a.variableWith site (fun _ _ => some TypeList.empty) x.var x.point).isSome :=
    (variableWith_isSome_iff _ x).2 fun _ _ => rfl
  rw [← hall, Option.isSome_iff_ne_none] at hsome
  exact hsome h

theorem answerWith_isSome_iff (lookup : Variables) (e : Expr) (p : Point) :
    (a.answerWith site lookup e p).isSome ↔
      ∀ y, a.DependsOn site e p y → (lookup y.var y.point).isSome := by
  obtain ⟨ys, hys, -⟩ := a.answerWith_needs site p e
  have hmem : ∀ y, a.DependsOn site e p y ↔ y ∈ ys := hys.eq_none_iff
  simp only [hmem]
  exact hys.isSome_iff lookup

/-! ### More steps -/

/-- More steps keep an answer. -/
theorem variableIn_succ {steps : Nat} {x : Occurrence} {types : TypeList}
    (h : a.variableIn site steps x.var x.point = some types) :
    a.variableIn site (steps + 1) x.var x.point = some types := by
  induction steps generalizing x types with
  | zero => cases h
  | succ steps ih =>
    have hsome := (variableWith_isSome_iff (a.variableIn site steps) x).1
      (Option.isSome_of_eq_some h)
    rw [← h]
    refine variableWith_eq_of_same fun y hy => ?_
    obtain ⟨found, hfound⟩ := Option.isSome_iff_exists.1 (hsome y hy)
    rw [hfound]
    exact ih hfound

theorem variableIn_of_le {steps more : Nat} (hle : steps ≤ more) {x : Occurrence}
    {types : TypeList} (h : a.variableIn site steps x.var x.point = some types) :
    a.variableIn site more x.var x.point = some types := by
  induction more, hle using Nat.le_induction with
  | base => exact h
  | succ more _ ih => exact variableIn_succ ih

theorem deduceIn_of_le {steps more : Nat} (hle : steps ≤ more) {e : Expr} {p : Point}
    {types : TypeList} (h : a.deduceIn site steps e p = some types) :
    a.deduceIn site more e p = some types := by
  obtain ⟨ys, hys, -⟩ := a.answerWith_needs site p e
  have hsome := (hys.isSome_iff _).1 (Option.isSome_of_eq_some h)
  rw [← h]
  refine hys.eq_of_same fun y hy => ?_
  obtain ⟨found, hfound⟩ := Option.isSome_iff_exists.1 (hsome y hy)
  rw [hfound]
  exact variableIn_of_le hle hfound

/-! ### Circles do not end -/

/-- An occurrence that consults itself has no answer in any number of steps. -/
theorem variableIn_eq_none_of_transGen (steps : Nat) {x : Occurrence}
    (h : TransGen (a.Consults site) x x) : a.variableIn site steps x.var x.point = none := by
  induction steps generalizing x with
  | zero => rfl
  | succ steps ih =>
    obtain ⟨y, hxy, hyx⟩ := TransGen.head'_iff.1 h
    have hy : a.variableIn site steps y.var y.point = none := ih (.tail' hyx hxy)
    rw [← Option.not_isSome_iff_eq_none]
    intro hsome
    have := (variableWith_isSome_iff _ x).1 hsome y hxy
    rw [hy] at this
    cases this

theorem Circular.transGen {x : Occurrence} (h : a.Circular site x) :
    TransGen (a.Consults site) x x :=
  TransGen.lift (fun v => (⟨v, x.point⟩ : Occurrence)) (fun _ _ h => h) _ _ h

/-- No number of steps is enough for an occurrence that leads to a circle. -/
theorem variableIn_eq_none_of_circular (steps : Nat) {x y : Occurrence}
    (hxy : ReflTransGen (a.Consults site) x y) (hy : a.Circular site y) :
    a.variableIn site steps x.var x.point = none := by
  induction hxy using ReflTransGen.head_induction_on generalizing steps with
  | refl => exact variableIn_eq_none_of_transGen steps hy.transGen
  | head hxz _ ih =>
    cases steps with
    | zero => rfl
    | succ steps =>
      rw [← Option.not_isSome_iff_eq_none]
      intro hsome
      have := (variableWith_isSome_iff _ _).1 hsome _ hxz
      rw [ih steps] at this
      cases this

theorem deduceIn_eq_none_of_circular (steps : Nat) {e : Expr} {p : Point} {y : Occurrence}
    (h : a.Reaches site e p y) (hy : a.Circular site y) : a.deduceIn site steps e p = none := by
  obtain ⟨x, hx, hxy⟩ := h
  rw [← Option.not_isSome_iff_eq_none]
  intro hsome
  have := (answerWith_isSome_iff _ e p).1 hsome x hx
  rw [variableIn_eq_none_of_circular steps hxy hy] at this
  cases this

/-! ### Everything else ends -/

/-- An occurrence that leads to no circle. -/
def Grounded (a : Atlas) (site : Site) (x : Occurrence) : Prop :=
  ∀ y, ReflTransGen (a.Consults site) x y → ¬ a.Circular site y

theorem Grounded.tail {x y : Occurrence} (h : a.Grounded site x) (hxy : a.Consults site x y) :
    a.Grounded site y :=
  fun z hyz => h z (.head hxy hyz)

/-- Steps for all deeper positions, and for the variables at this one that were not yet asked for,
are enough.  The variables in `seen` have led to `x` without leaving its position. -/
theorem isSome_variableIn (steps : Nat) {x : Occurrence} (hx : a.Grounded site x)
    (seen : Finset String) (hseen : seen ⊆ site.doc.vars.toFinset)
    (hlead : ∀ v ∈ seen,
      ReflTransGen (fun v w => a.Consults site ⟨v, x.point⟩ ⟨w, x.point⟩) v x.var)
    (hsteps : (a.maxDepth - x.point.depth) * (site.doc.vars.length + 1) +
      (site.doc.vars.length - seen.card) + 1 ≤ steps) :
    (a.variableIn site steps x.var x.point).isSome := by
  induction steps generalizing x seen with
  | zero => omega
  | succ steps ih =>
    refine (variableWith_isSome_iff _ x).2 fun y hy => ?_
    obtain ⟨hnear, hdepth⟩ := hy.near
    rcases hnear with heq | hlt
    · -- one more variable at the same position
      obtain ⟨v, p⟩ := x
      obtain ⟨w, q⟩ := y
      obtain rfl : q = p := heq
      have hnew : w ∉ seen := fun hw =>
        hx ⟨w, q⟩ (.single hy) (TransGen.tail' (hlead w hw) hy)
      have hsub : insert w seen ⊆ site.doc.vars.toFinset :=
        Finset.insert_subset (List.mem_toFinset.2 hy.mem_vars) hseen
      have hcard := (Finset.card_le_card hsub).trans (List.toFinset_card_le site.doc.vars)
      rw [Finset.card_insert_of_notMem hnew] at hcard
      refine ih (hx.tail hy) (insert w seen) hsub ?_ ?_
      · intro u hu
        rcases Finset.mem_insert.1 hu with rfl | hu
        · exact .refl
        · exact (hlead u hu).tail hy
      · rw [Finset.card_insert_of_notMem hnew]
        simp only at hsteps ⊢
        omega
    · -- a deeper position, where nothing was asked for yet
      refine ih (hx.tail hy) ∅ (Finset.empty_subset _) (fun _ hv => absurd hv (by simp)) ?_
      have hfewer : a.maxDepth - y.point.depth + 1 ≤ a.maxDepth - x.point.depth := by omega
      have hless := Nat.mul_le_mul_right (site.doc.vars.length + 1) hfewer
      rw [Nat.add_mul] at hless
      simp only [Finset.card_empty]
      omega

/-- The steps for a document are enough for an occurrence that leads to no circle. -/
theorem Grounded.isSome {x : Occurrence} (hx : a.Grounded site x) :
    (a.variableIn site (a.stepsFor site.doc) x.var x.point).isSome := by
  refine isSome_variableIn _ hx ∅ (Finset.empty_subset _) (fun _ hv => absurd hv (by simp)) ?_
  have hdepth := Nat.mul_le_mul_right (site.doc.vars.length + 1)
    (Nat.sub_le a.maxDepth x.point.depth)
  rw [stepsFor, Nat.add_mul]
  simp only [Finset.card_empty]
  omega

theorem exists_variableIn {x : Occurrence} (hx : a.Grounded site x) :
    ∃ steps types, a.variableIn site steps x.var x.point = some types :=
  ⟨_, Option.isSome_iff_exists.1 hx.isSome⟩

/-- They are enough for a deduction, unless a circle is reached. -/
theorem isSome_deduceIn {e : Expr} {p : Point}
    (h : ¬ ∃ y, a.Reaches site e p y ∧ a.Circular site y) :
    (a.deduceIn site (a.stepsFor site.doc) e p).isSome :=
  (answerWith_isSome_iff _ e p).2 fun x hx =>
    Grounded.isSome fun y hxy hy => h ⟨y, ⟨x, hx, hxy⟩, hy⟩

theorem exists_deduceIn {e : Expr} {p : Point}
    (h : ¬ ∃ y, a.Reaches site e p y ∧ a.Circular site y) :
    ∃ steps types, a.deduceIn site steps e p = some types :=
  ⟨_, Option.isSome_iff_exists.1 (isSome_deduceIn h)⟩

/-- A deduction has no answer exactly if it reaches a variable that consults itself at one
position: the steps that it is given are enough for all others. -/
theorem deduce?_eq_none_iff (a : Atlas) (doc : Document) (offset : Nat) (e : Expr) :
    a.deduce? doc offset e = none ↔
      ∃ y, a.Reaches (a.siteAt doc offset) e ⟨offset, 0⟩ y ∧
        a.Circular (a.siteAt doc offset) y := by
  constructor
  · intro hnone
    by_contra h
    have hsome := isSome_deduceIn h
    rw [deduce?] at hnone
    rw [Option.isSome_iff_ne_none] at hsome
    exact hsome hnone
  · rintro ⟨y, hreach, hy⟩
    exact deduceIn_eq_none_of_circular _ hreach hy

/-- More steps than a deduction is given bring nothing. -/
theorem deduce?_eq_some_iff (a : Atlas) (doc : Document) (offset : Nat) (e : Expr)
    (types : TypeList) :
    a.deduce? doc offset e = some types ↔
      ∃ steps, a.deduceIn (a.siteAt doc offset) steps e ⟨offset, 0⟩ = some types := by
  refine ⟨fun h => ⟨_, h⟩, fun ⟨steps, hsteps⟩ => ?_⟩
  cases hfound : a.deduce? doc offset e with
  | none =>
    obtain ⟨y, hreach, hy⟩ := (deduce?_eq_none_iff a doc offset e).1 hfound
    rw [deduceIn_eq_none_of_circular steps hreach hy] at hsteps
    cases hsteps
  | some found =>
    -- both numbers of steps settle on what the larger one finds
    have hmore := deduceIn_of_le (Nat.le_max_left steps (a.stepsFor doc)) hsteps
    have hmost := deduceIn_of_le (Nat.le_max_right steps (a.stepsFor doc)) hfound
    rw [hmore] at hmost
    exact hmost.symm

/-- A deduction settles on types, however many more steps it is given, exactly if it reaches no
variable that consults itself at one position; if it reaches one, it does not end. -/
theorem deduction_settles_iff (a : Atlas) (site : Site) (e : Expr) (p : Point) :
    ((∃ types enough, ∀ steps ≥ enough, a.deduceIn site steps e p = some types) ↔
      ¬ ∃ y, a.Reaches site e p y ∧ a.Circular site y) ∧
    ((∀ steps, a.deduceIn site steps e p = none) ↔
      ∃ y, a.Reaches site e p y ∧ a.Circular site y) := by
  refine ⟨⟨?_, ?_⟩, ?_, ?_⟩
  · rintro ⟨types, enough, hsettles⟩ ⟨y, hreach, hy⟩
    have hnone := deduceIn_eq_none_of_circular enough hreach hy
    rw [hsettles enough le_rfl] at hnone
    cases hnone
  · intro h
    obtain ⟨steps, types, htypes⟩ := exists_deduceIn h
    exact ⟨types, steps, fun more hle => deduceIn_of_le hle htypes⟩
  · intro hnone
    by_contra h
    obtain ⟨steps, types, htypes⟩ := exists_deduceIn h
    rw [hnone steps] at htypes
    cases htypes
  · rintro ⟨y, hreach, hy⟩ steps
    exact deduceIn_eq_none_of_circular steps hreach hy

/-- A document that tests whether a variable is an instance of itself. -/
def selfTest : Document := Document.ofSource "a.php" "<?php $x instanceof $x && $x;"

/-- Behind the test, the look-up of the variable consults the variable, so it does not end. -/
theorem selfTest_endless (a : Atlas) (steps : Nat) :
    a.deduceIn (a.siteAt selfTest 27) steps (.var ⟨26, 28⟩ "$x") ⟨27, 0⟩ = none := by
  have hself : a.Consults (a.siteAt selfTest 27) ⟨"$x", ⟨27, 0⟩⟩ ⟨"$x", ⟨27, 0⟩⟩ := by
    unfold Consults
    cbv
  have hstart : a.DependsOn (a.siteAt selfTest 27) (.var ⟨26, 28⟩ "$x") ⟨27, 0⟩
      ⟨"$x", ⟨27, 0⟩⟩ := by
    rw [DependsOn, answerWith, if_neg (Nat.not_lt_zero _)]
    rfl
  exact deduceIn_eq_none_of_circular steps ⟨_, hstart, .refl⟩ (.single hself)

/-- So not every deduction ends. -/
theorem not_forall_exists_deduceIn :
    ¬ ∀ (a : Atlas) (doc : Document) (offset : Nat) (e : Expr),
      ∃ steps, (a.deduceIn (a.siteAt doc offset) steps e ⟨offset, 0⟩).isSome := by
  intro h
  obtain ⟨steps, hsteps⟩ := h ⟨Tables.empty, 10⟩ selfTest 27 (.var ⟨26, 28⟩ "$x")
  rw [selfTest_endless] at hsteps
  cases hsteps

end Atlas
end PhpAtlas
