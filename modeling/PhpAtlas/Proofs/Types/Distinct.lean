import PhpAtlas.TypeList

/-!
# Candidates are added once

Adding candidates to a list leaves those that are there in front and in their order, and adds no
second candidate of a name.  So the names in a list that was made this way are distinct up to ASCII
case, and a list with distinct names is not changed by being made again.

## Main definitions

* `TypeList.Distinct` — no two candidates have one name.

## Main results

* `TypeList.prefix_extend` — earlier candidates stay in front.
* `TypeList.distinct_ofList` — a list that is made from candidates has distinct names.
* `TypeList.ofList_of_distinct` — candidates with distinct names are all kept.
-/

namespace PhpAtlas

namespace TypeList

/-! ### Earlier candidates -/

theorem extend_append (r : TypeList) (a b : List TypeRef) :
    r.extend (a ++ b) = (r.extend a).extend b := List.foldl_append

/-- The earlier candidates stay in front, in their order. -/
theorem prefix_extend (r : TypeList) (more : List TypeRef) :
    r.entries <+: (r.extend more).entries := by
  induction more generalizing r with
  | nil => exact List.prefix_refl _
  | cons t more ih =>
    have hpush : r.entries <+: (r.push t).entries := by
      unfold push
      split
      · exact List.prefix_refl _
      · exact List.prefix_append _ _
    exact hpush.trans (ih (r.push t))

/-- The first candidate is always kept. -/
theorem ofList_ne_nil {ts : List TypeRef} (h : ts ≠ []) : (ofList ts).entries ≠ [] := by
  obtain ⟨t, more, rfl⟩ := List.exists_cons_of_ne_nil h
  have hfirst : (single t).entries <+: (ofList (t :: more)).entries :=
    prefix_extend (single t) more
  exact hfirst.ne_nil (List.cons_ne_nil t [])

/-! ### Distinct names -/

/-- No two candidates have one name, up to ASCII case. -/
def Distinct (ts : List TypeRef) : Prop := ts.Pairwise fun a b => foldEq a.full b.full = false

theorem contains_eq_false_iff {l : TypeList} {full : String} :
    l.contains full = false ↔ ∀ t ∈ l.entries, foldEq t.full full = false := by
  simp [contains]

theorem distinct_push {l : TypeList} (h : Distinct l.entries) (t : TypeRef) :
    Distinct (l.push t).entries := by
  unfold push
  split
  · exact h
  · rename_i hnew
    rw [Bool.not_eq_true, contains_eq_false_iff] at hnew
    refine List.pairwise_append.2 ⟨h, List.pairwise_singleton _ _, fun e he e' he' => ?_⟩
    rw [List.mem_singleton.1 he']
    exact hnew e he

theorem distinct_extend {l : TypeList} (h : Distinct l.entries) (more : List TypeRef) :
    Distinct (l.extend more).entries := by
  induction more generalizing l with
  | nil => exact h
  | cons t more ih => exact ih (distinct_push h t)

/-- A list that is made from candidates has distinct names. -/
theorem distinct_ofList (ts : List TypeRef) : Distinct (ofList ts).entries :=
  distinct_extend List.Pairwise.nil ts

theorem extend_of_distinct {l : TypeList} {more : List TypeRef}
    (h : Distinct (l.entries ++ more)) : l.extend more = ⟨l.entries ++ more⟩ := by
  induction more generalizing l with
  | nil => rw [List.append_nil]; rfl
  | cons t more ih =>
    have hnew : l.contains t.full = false := contains_eq_false_iff.2 fun e he =>
      (List.pairwise_append.1 h).2.2 e he t List.mem_cons_self
    have hpush : l.push t = ⟨l.entries ++ [t]⟩ := by rw [push, hnew]; rfl
    rw [List.append_cons] at h ⊢
    change (l.push t).extend more = _
    rw [hpush]
    exact ih h

/-- Candidates with distinct names are all kept. -/
theorem ofList_of_distinct {ts : List TypeRef} (h : Distinct ts) : ofList ts = ⟨ts⟩ :=
  extend_of_distinct h

end TypeList
end PhpAtlas
