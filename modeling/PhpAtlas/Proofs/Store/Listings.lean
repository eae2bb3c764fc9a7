import Mathlib.Data.List.Sort
import PhpAtlas.Store.Basic

/-!
# Listings of a store

A listing puts the values of a table in the order of a text that belongs to each.  The keys of a
table differ, so where the text settles the key no text occurs twice, and there is just one such
listing: it does not depend on the order in which the table gives its values.

## Main definitions

* `Increasing` — a list whose texts increase strictly.

## Main results

* `Increasing.eq_of_mem_iff` — an increasing list is known by its members.
* `Table.eq_of_get?`, `KeyedTable.eq_of_get?` — so look-ups determine a table.
* `Tables.increasing_classlikeList`, `Tables.increasing_fileList` — the listings increase.
* `Tables.mem_classlikeList`, `Tables.mem_fileList` — they hold what is stored, and nothing else.
* `Tables.mergeSort_classlikes`, `Tables.mergeSort_files` — sorting what is stored gives them,
  whatever order it comes in.
-/

namespace PhpAtlas

variable {α : Type} {text : α → String}

/-- The texts of a list increase strictly. -/
def Increasing (text : α → String) (l : List α) : Prop := l.Pairwise fun a b => text a < text b

/-- An increasing list is known by its members. -/
theorem Increasing.eq_of_mem_iff {l m : List α} (hl : Increasing text l) (hm : Increasing text m)
    (hmem : ∀ a, a ∈ l ↔ a ∈ m) : l = m :=
  haveI : Std.Irrefl fun a b : α => text a < text b := ⟨fun a => String.lt_irrefl (text a)⟩
  haveI : Std.Antisymm fun a b : α => text a < text b :=
    ⟨fun _ _ hab hba => absurd hba (String.lt_asymm hab)⟩
  List.Pairwise.eq_of_mem_iff hl hm hmem

/-- Look-ups determine a table. -/
theorem Table.eq_of_get? {s t : Table α} (h : ∀ key, s.get? key = t.get? key) : s = t := by
  have hs : Increasing Prod.fst s.entries := s.increasing
  refine Table.ext (hs.eq_of_mem_iff t.increasing fun ⟨key, value⟩ => ?_)
  rw [← get?_eq_some_iff, ← get?_eq_some_iff, h]

theorem KeyedTable.eq_of_get? {key : α → String} {s t : KeyedTable key}
    (h : ∀ k, s.get? k = t.get? k) : s = t := by
  obtain ⟨s, hs⟩ := s
  obtain ⟨t, ht⟩ := t
  obtain rfl : s = t := Table.eq_of_get? h
  rfl

theorem Increasing.nodup_texts {l : List α} (hl : Increasing text l) : (l.map text).Nodup := by
  refine List.pairwise_map.2 (List.Pairwise.imp (fun {a b} hlt heq => ?_) hl)
  exact String.lt_irrefl (text b) (heq ▸ hlt)

/-- Sorting by texts that are all different. -/
theorem increasing_mergeSort {l : List α} (hdiff : (l.map text).Nodup) :
    Increasing text (l.mergeSort fun a b => text a ≤ text b) := by
  have hle : (l.mergeSort fun a b => text a ≤ text b).Pairwise fun a b => text a ≤ text b := by
    refine (List.pairwise_mergeSort (fun a b c hab hbc => ?_) (fun a b => ?_) l).imp
      of_decide_eq_true
    · exact decide_eq_true (String.le_trans (of_decide_eq_true hab) (of_decide_eq_true hbc))
    · rw [← Bool.decide_or]
      exact decide_eq_true (String.le_total (text a) (text b))
  have hne : (l.mergeSort fun a b => text a ≤ text b).Pairwise fun a b => text a ≠ text b :=
    List.pairwise_map.1 (((List.mergeSort_perm l _).map text).nodup_iff.2 hdiff)
  refine List.Pairwise.imp₂ (fun a b hab hne => ?_) hle hne
  exact String.not_le.1 fun hba => hne (String.le_antisymm hab hba)

/-- Sorting gives the one increasing list of the same values. -/
theorem Increasing.mergeSort_eq_of_perm {l m : List α} (hm : Increasing text m)
    (hperm : l.Perm m) : (l.mergeSort fun a b => text a ≤ text b) = m := by
  have hdiff : (l.map text).Nodup :=
    (hperm.map text).nodup_iff.2 hm.nodup_texts
  refine (increasing_mergeSort hdiff).eq_of_mem_iff hm fun a => ?_
  rw [(List.mergeSort_perm l _).mem_iff, hperm.mem_iff]

/-! ### The values of a table -/

namespace KeyedTable

variable {key : α → String}

theorem mem_values {t : KeyedTable key} {a : α} : a ∈ t.values ↔ t.get? (key a) = some a := by
  constructor
  · intro ha
    obtain ⟨e, he, rfl⟩ := List.mem_map.1 ha
    exact t.keyed e he ▸ Table.get?_eq_some_iff.2 he
  · intro ha
    exact List.mem_map.2 ⟨(key a, a), Table.get?_eq_some_iff.1 ha, rfl⟩

/-- What is stored at all is stored under its own key. -/
theorem exists_get?_iff {t : KeyedTable key} {a : α} :
    (∃ k, t.get? k = some a) ↔ t.get? (key a) = some a :=
  ⟨fun ⟨_, ha⟩ => key_of_get? ha ▸ ha, fun ha => ⟨key a, ha⟩⟩

theorem increasing_values (t : KeyedTable key) : Increasing key t.values := by
  refine List.pairwise_map.2 (t.table.increasing.imp_of_mem fun {d e} hd he hlt => ?_)
  rwa [t.keyed d hd, t.keyed e he]

/-- Values whose keys are settled by a text have different texts. -/
theorem nodup_texts (t : KeyedTable key) (hkey : ∀ a b, text a = text b → key a = key b) :
    (t.values.map text).Nodup :=
  List.pairwise_map.2 ((List.pairwise_map.1 t.increasing_values.nodup_texts).imp
    fun {a b} hne heq => hne (hkey a b heq))

end KeyedTable

/-! ### The listings of the store -/

namespace Tables

variable (t : Tables)

theorem increasing_fileList : Increasing FileRecord.path t.fileList := t.files.increasing_values

theorem mem_fileList {r : FileRecord} : r ∈ t.fileList ↔ t.file? r.path = some r :=
  KeyedTable.mem_values

/-- Files are listed in the same order, however they are stored. -/
theorem mergeSort_files {l : List FileRecord} (hperm : l.Perm t.files.values) :
    (l.mergeSort fun a b => a.path ≤ b.path) = t.fileList :=
  t.increasing_fileList.mergeSort_eq_of_perm hperm

/-- No two classlikes have one name: their names would have one key. -/
theorem increasing_classlikeList : Increasing ClasslikeSymbol.full t.classlikeList :=
  increasing_mergeSort (t.classlikes.nodup_texts fun _ _ => congrArg Name.key)

theorem mem_classlikeList {c : ClasslikeSymbol} :
    c ∈ t.classlikeList ↔ t.classlike? c.full = some c :=
  (List.mergeSort_perm _ _).mem_iff.trans KeyedTable.mem_values

/-- Classlikes are listed in the same order, however they are stored. -/
theorem mergeSort_classlikes {l : List ClasslikeSymbol} (hperm : l.Perm t.classlikes.values) :
    (l.mergeSort fun a b => a.full ≤ b.full) = t.classlikeList :=
  t.increasing_classlikeList.mergeSort_eq_of_perm (hperm.trans (List.mergeSort_perm _ _).symm)

end Tables
end PhpAtlas
