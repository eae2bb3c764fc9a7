import Mathlib.Data.List.Induction
import PhpAtlas.Proofs.Types.Distinct

/-!
# Type lists as ordered sets

A type list is a set of names, up to ASCII case, that keeps the order in which the names came and
the way in which each was first written.  Which names a list has after it was extended is all that
matters for what is added next; the laws of `extend` follow from that.  No operation puts a name
into a list twice, so a list that was made by operations is what collecting its candidates gives.

## Main definitions

* `TypeList.Op`, `TypeList.run` — operations, and what a sequence of them makes of the empty list.
* `TypeList.firsts` — the candidates whose names have not come before.

## Main results

* `TypeList.contains_extend` — the names in a list that was extended.
* `TypeList.distinct_run` — no sequence of operations puts a name into a list twice.
* `TypeList.entries_ofList` — collecting keeps the first candidate of each name.
* `TypeList.extend_entries_extend`, `TypeList.extend_self` — extending is associative, and a list
  absorbs itself.
* `TypeList.filter_extend` — a test on names distributes over extending.
* `TypeList.ordered_set_laws` — these together.
-/

namespace PhpAtlas
namespace TypeList

/-! ### The names in a list -/

theorem contains_congr {a b : String} (h : foldEq a b = true) (l : TypeList) :
    l.contains a = l.contains b := by
  simp only [contains, foldEq, foldEq_iff.1 h]

theorem contains_eq_true_of_mem {l : TypeList} {t : TypeRef} (h : t ∈ l.entries) :
    l.contains t.full = true :=
  List.any_eq_true.2 ⟨t, h, foldEq_refl _⟩

theorem push_of_contains {l : TypeList} {t : TypeRef} (h : l.contains t.full = true) :
    l.push t = l := if_pos h

theorem push_of_not_contains {l : TypeList} {t : TypeRef} (h : l.contains t.full = false) :
    l.push t = ⟨l.entries ++ [t]⟩ := if_neg (ne_true_of_eq_false h)

theorem contains_push (l : TypeList) (t : TypeRef) (full : String) :
    (l.push t).contains full = (l.contains full || foldEq t.full full) := by
  cases hnew : l.contains t.full with
  | false => simp [push_of_not_contains hnew, contains]
  | true =>
    rw [push_of_contains hnew]
    cases hname : foldEq t.full full with
    | false => rw [Bool.or_false]
    | true => rw [← contains_congr hname, hnew, Bool.true_or]

/-- A list that was extended has the names that it had and those that came. -/
theorem contains_extend (l : TypeList) (more : List TypeRef) (full : String) :
    (l.extend more).contains full = (l.contains full || more.any (foldEq ·.full full)) := by
  induction more generalizing l with
  | nil => simp [extend]
  | cons t more ih =>
    change ((l.push t).extend more).contains full = _
    rw [ih, contains_push, List.any_cons, Bool.or_assoc]

/-! ### Sequences of operations -/

/-- An operation on a list of candidates.  Making a list of one candidate, or collecting candidates,
forgets the list that was there. -/
inductive Op
  | push (t : TypeRef)
  | extend (more : List TypeRef)
  | single (t : TypeRef)
  | collect (ts : List TypeRef)
  | remove (full : String)
  | retain (keep : TypeRef → Bool)
  | withoutNull

/-- What an operation makes of a list of candidates. -/
def Op.apply (l : TypeList) : Op → TypeList
  | .push t => l.push t
  | .extend more => l.extend more
  | .single t => TypeList.single t
  | .collect ts => ofList ts
  | .remove full => l.remove full
  | .retain keep => l.filter keep
  | .withoutNull => l.withoutNull

/-- What a sequence of operations makes of the empty list. -/
def run (ops : List Op) : TypeList := ops.foldl Op.apply empty

theorem run_concat (ops : List Op) (op : Op) : run (ops ++ [op]) = op.apply (run ops) := by
  rw [run, List.foldl_append]
  rfl

theorem distinct_filter {l : TypeList} (h : Distinct l.entries) (keep : TypeRef → Bool) :
    Distinct (l.filter keep).entries := h.filter keep

theorem distinct_apply {l : TypeList} (h : Distinct l.entries) (op : Op) :
    Distinct (op.apply l).entries := by
  cases op with
  | push t => exact distinct_push h t
  | extend more => exact distinct_extend h more
  | single t => exact List.pairwise_singleton _ t
  | collect ts => exact distinct_ofList ts
  | remove full => exact distinct_filter h _
  | retain keep => exact distinct_filter h keep
  | withoutNull => exact distinct_filter h _

/-- No sequence of operations puts a name into a list twice. -/
theorem distinct_run (ops : List Op) : Distinct (run ops).entries :=
  List.foldlRecOn (motive := fun l : TypeList => Distinct l.entries) ops _ List.Pairwise.nil
    fun _ h op _ => distinct_apply h op

/-- A list without repetition can be cut down to each of its sublists by a test on single elements:
what a test that remembers earlier elements leaves, one that does not leaves as well. -/
theorem filter_mem_of_sublist {ts kept : List TypeRef} (hts : ts.Nodup) (h : kept.Sublist ts) :
    ts.filter (fun t => decide (t ∈ kept)) = kept := by
  induction h with
  | slnil => rfl
  | cons t hsub ih =>
    obtain ⟨hnew, hrest⟩ := List.nodup_cons.1 hts
    rw [List.filter_cons_of_neg]
    · exact ih hrest
    · rw [decide_eq_true_eq]
      intro hmem
      exact hnew (hsub.subset hmem)
  | cons_cons t hsub ih =>
    obtain ⟨hnew, hrest⟩ := List.nodup_cons.1 hts
    rw [List.filter_cons_of_pos (by simp), ← ih hrest]
    refine congrArg (t :: ·) (List.filter_congr ?_)
    intro e he
    have hother : e ≠ t := by
      rintro rfl
      exact hnew he
    rw [ih hrest]
    simp [hother]

theorem nodup_of_distinct {ts : List TypeRef} (h : Distinct ts) : ts.Nodup := by
  refine h.imp ?_
  rintro t _ hname rfl
  rw [foldEq_refl] at hname
  cases hname

/-! ### Collecting -/

/-- The candidates whose names have not come before, in their order. -/
def firsts (ts : List TypeRef) : List TypeRef :=
  (ts.zipIdx.filter fun p => (ts.take p.2).all fun e => !foldEq e.full p.1.full).map (·.1)

theorem firsts_concat (ts : List TypeRef) (t : TypeRef) :
    firsts (ts ++ [t]) =
      firsts ts ++ if ts.any (foldEq ·.full t.full) then [] else [t] := by
  have hbefore : ∀ p ∈ ts.zipIdx, (ts ++ [t]).take p.2 = ts.take p.2 := by
    intro p hp
    exact List.take_append_of_le_length (Nat.le_of_lt (List.snd_lt_of_mem_zipIdx hp))
  have hold : (ts.zipIdx.filter fun p => ((ts ++ [t]).take p.2).all fun e =>
      !foldEq e.full p.1.full) = ts.zipIdx.filter fun p => (ts.take p.2).all fun e =>
        !foldEq e.full p.1.full := by
    refine List.filter_congr fun p hp => ?_
    rw [hbefore p hp]
  have hlast : ((ts ++ [t]).take ts.length).all (fun e => !foldEq e.full t.full) =
      !ts.any (foldEq ·.full t.full) := by
    rw [List.take_left, List.not_any_eq_all_not]
  rw [firsts, List.zipIdx_append, List.filter_append, hold, List.map_append]
  refine congrArg (firsts ts ++ ·) ?_
  simp only [Nat.zero_add, List.zipIdx_singleton, List.filter_cons, hlast, List.filter_nil]
  cases ts.any (foldEq ·.full t.full) with
  | false => rfl
  | true => rfl

/-- Collecting keeps the first candidate of each name. -/
theorem entries_ofList (ts : List TypeRef) : (ofList ts).entries = firsts ts := by
  -- by induction from the end: a candidate is compared with all that came before it
  induction ts using List.reverseRecOn with
  | nil => rfl
  | append_singleton ts t ih =>
    have hnames : (ofList ts).contains t.full = ts.any (foldEq ·.full t.full) := by
      rw [ofList, contains_extend]
      rfl
    have hstep : ofList (ts ++ [t]) = (ofList ts).push t := extend_append _ _ _
    rw [hstep, firsts_concat, ← hnames, ← ih]
    cases hnew : (ofList ts).contains t.full with
    | false => rw [push_of_not_contains hnew]; rfl
    | true => rw [push_of_contains hnew]; simp

/-! ### Extending -/

theorem extend_of_contained {l : TypeList} {more : List TypeRef}
    (h : ∀ t ∈ more, l.contains t.full = true) : l.extend more = l := by
  induction more with
  | nil => rfl
  | cons t more ih =>
    obtain ⟨ht, hmore⟩ := List.forall_mem_cons.1 h
    change (l.push t).extend more = l
    rw [push_of_contains ht, ih hmore]

/-- A list absorbs itself. -/
theorem extend_self (l : TypeList) : l.extend l.entries = l :=
  extend_of_contained fun _ ht => contains_eq_true_of_mem ht

theorem extend_entries_push (a b : TypeList) (t : TypeRef) :
    a.extend (b.push t).entries = (a.extend b.entries).push t := by
  cases hnew : b.contains t.full with
  | false =>
    rw [push_of_not_contains hnew]
    exact extend_append a b.entries [t]
  | true =>
    have hthere : (a.extend b.entries).contains t.full = true := by
      rw [contains_extend]
      exact Bool.or_eq_true_iff.2 (.inr hnew)
    rw [push_of_contains hnew, push_of_contains hthere]

/-- Extending by a list that was extended is extending by one after the other. -/
theorem extend_entries_extend (a b : TypeList) (more : List TypeRef) :
    a.extend (b.extend more).entries = (a.extend b.entries).extend more := by
  induction more generalizing b with
  | nil => rfl
  | cons t more ih =>
    change a.extend ((b.push t).extend more).entries = ((a.extend b.entries).push t).extend more
    rw [ih, extend_entries_push]

/-! ### Removing -/

section Tests

variable {keep : TypeRef → Bool}

/-- A test on names tells nothing of what it leaves out, so a name that passes is there before
exactly if it is there after. -/
theorem contains_filter (hkeep : ∀ a b, foldEq a.full b.full = true → keep a = keep b)
    (l : TypeList) {t : TypeRef} (ht : keep t = true) :
    (l.filter keep).contains t.full = l.contains t.full := by
  rw [contains, filter, List.any_filter]
  refine List.any_congr rfl ?_
  intro e
  cases hname : foldEq e.full t.full with
  | false => rw [Bool.and_false]
  | true => rw [hkeep e t hname, ht]; rfl

theorem filter_push (hkeep : ∀ a b, foldEq a.full b.full = true → keep a = keep b) (l : TypeList)
    (t : TypeRef) :
    (l.push t).filter keep = (l.filter keep).extend ([t].filter keep) := by
  have hentries : l.contains t.full = false →
      (l.push t).filter keep = ⟨l.entries.filter keep ++ [t].filter keep⟩ := by
    intro hnew
    rw [push_of_not_contains hnew, filter, List.filter_append]
  cases ht : keep t with
  | false =>
    rw [List.filter_cons_of_neg (ne_true_of_eq_false ht)] at hentries ⊢
    cases hnew : l.contains t.full with
    | false => rw [hentries hnew]; simp [extend, filter]
    | true => rw [push_of_contains hnew]; rfl
  | true =>
    have hsame := contains_filter hkeep l ht
    rw [List.filter_cons_of_pos ht] at hentries ⊢
    change _ = (l.filter keep).push t
    cases hnew : l.contains t.full with
    | false => rw [hentries hnew, push_of_not_contains (hsame.trans hnew)]; rfl
    | true => rw [push_of_contains hnew, push_of_contains (hsame.trans hnew)]

/-- A test on names distributes over extending. -/
theorem filter_extend (hkeep : ∀ a b, foldEq a.full b.full = true → keep a = keep b)
    (l : TypeList) (more : List TypeRef) :
    (l.extend more).filter keep = (l.filter keep).extend (more.filter keep) := by
  induction more generalizing l with
  | nil => rfl
  | cons t more ih =>
    change ((l.push t).extend more).filter keep = _
    rw [ih, filter_push hkeep, ← extend_append, ← List.filter_append]
    rfl

end Tests

theorem remove_append (a b : TypeList) (full : String) :
    (a.append b).remove full = (a.remove full).append (b.remove full) := by
  refine filter_extend (fun s t hname => ?_) a b.entries
  simp only [foldEq, foldEq_iff.1 hname]

/-! ### The laws -/

/-- **Type lists are sets of names in the order of their first appearance.**  No sequence of
operations puts a name into a list twice, so that the result is what collecting its candidates
gives, and each selection of them is left by a test on single candidates.  Collecting keeps the
first candidate of each name.  Extending is associative in both ways of bracketing, a list absorbs
itself, and removing a name distributes over extending. -/
theorem ordered_set_laws :
    (∀ ops, Distinct (run ops).entries ∧ ofList (run ops).entries = run ops ∧
      ∀ kept, kept.Sublist (run ops).entries →
        ∃ keep, (run (ops ++ [.retain keep])).entries = kept) ∧
    (∀ ts, (ofList ts).entries = firsts ts) ∧
    (∀ (a : TypeList) (b c : List TypeRef), (a.extend b).extend c = a.extend (b ++ c)) ∧
    (∀ (a b : TypeList) (c : List TypeRef),
      a.extend (b.extend c).entries = (a.extend b.entries).extend c) ∧
    (∀ a : TypeList, a.extend a.entries = a) ∧
    ∀ (a b : TypeList) (full : String),
      (a.extend b.entries).remove full = (a.remove full).extend (b.remove full).entries := by
  refine ⟨fun ops => ⟨distinct_run ops, ofList_of_distinct (distinct_run ops), ?_⟩, entries_ofList,
    fun a b c => (extend_append a b c).symm, extend_entries_extend, extend_self, remove_append⟩
  intro kept hkept
  refine ⟨fun t => decide (t ∈ kept), ?_⟩
  rw [run_concat]
  exact filter_mem_of_sublist (nodup_of_distinct (distinct_run ops)) hkept

end TypeList
end PhpAtlas
