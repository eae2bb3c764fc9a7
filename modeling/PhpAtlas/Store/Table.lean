/-!
# Tables

A table is a list of entries with strictly increasing keys, so that two tables with the same
entries are equal and listing a table needs no sorting.  Where a value determines its key, the
table holds every value under its own key.

## Main definitions

* `Table` — a finite map from strings.
* `Table.get?`, `Table.insert`, `Table.erase`, `Table.keep` — its operations.
* `Table.values` — the values in the order of their keys.
* `KeyedTable` — a table whose values stand under their own keys.

## Main results

* `Table.get?_insert`, `Table.get?_keep`, `Table.get?_erase` — what the operations do to look-ups.
-/

namespace PhpAtlas

/-- The keys of a list of entries increase strictly. -/
def KeysIncrease {α : Type} (entries : List (String × α)) : Prop :=
  entries.Pairwise fun a b => a.1 < b.1

/-- A finite map from strings. -/
structure Table (α : Type) where
  entries : List (String × α)
  increasing : KeysIncrease entries

namespace Table

variable {α : Type}

/-- The table without entries. -/
def empty : Table α := ⟨[], List.Pairwise.nil⟩

instance : Inhabited (Table α) := ⟨empty⟩

/-- The value under a key. -/
def get? (t : Table α) (key : String) : Option α :=
  (t.entries.find? (·.1 == key)).map (·.2)

/-- Whether there is a value under a key. -/
def contains (t : Table α) (key : String) : Bool := (t.get? key).isSome

/-- The values in the order of their keys. -/
def values (t : Table α) : List α := t.entries.map (·.2)

/-- Put an entry into its place; an entry with the same key is replaced. -/
def insertEntry (key : String) (value : α) : List (String × α) → List (String × α)
  | [] => [(key, value)]
  | e :: rest =>
      if key < e.1 then (key, value) :: e :: rest
      else if e.1 < key then e :: insertEntry key value rest
      else (key, value) :: rest

theorem mem_insertEntry {key : String} {value : α} {entries : List (String × α)}
    {e : String × α} (h : e ∈ insertEntry key value entries) : e = (key, value) ∨ e ∈ entries := by
  induction entries with
  | nil => simpa [insertEntry] using h
  | cons d rest ih =>
    unfold insertEntry at h
    split at h
    · simpa using h
    · split at h
      · rcases List.mem_cons.1 h with rfl | h
        · simp
        · rcases ih h with h | h
          · exact .inl h
          · exact .inr (List.mem_cons_of_mem _ h)
      · rcases List.mem_cons.1 h with rfl | h
        · simp
        · exact .inr (List.mem_cons_of_mem _ h)

theorem increasing_insertEntry (key : String) (value : α) {entries : List (String × α)}
    (h : KeysIncrease entries) : KeysIncrease (insertEntry key value entries) := by
  induction entries with
  | nil => exact List.pairwise_singleton _ _
  | cons d rest ih =>
    obtain ⟨hd, hrest⟩ := List.pairwise_cons.1 h
    unfold insertEntry
    split
    · rename_i hlt
      refine List.pairwise_cons.2 ⟨fun e he => ?_, h⟩
      rcases List.mem_cons.1 he with rfl | he
      · exact hlt
      · exact String.lt_trans hlt (hd e he)
    · rename_i hle
      split
      · rename_i hlt
        refine List.pairwise_cons.2 ⟨fun e he => ?_, ih hrest⟩
        rcases mem_insertEntry he with rfl | he
        · exact hlt
        · exact hd e he
      · -- Neither key is smaller, so the entry is replaced.
        rename_i hge
        have heq : d.1 = key := String.le_antisymm (String.not_lt.1 hle) (String.not_lt.1 hge)
        exact List.pairwise_cons.2 ⟨fun e he => heq ▸ hd e he, hrest⟩

/-- Enter a value under a key. -/
def insert (t : Table α) (key : String) (value : α) : Table α :=
  ⟨insertEntry key value t.entries, increasing_insertEntry key value t.increasing⟩

/-- Keep the entries that satisfy `p`. -/
def keep (p : String → α → Bool) (t : Table α) : Table α :=
  ⟨t.entries.filter fun e => p e.1 e.2, t.increasing.filter _⟩

/-- Remove the entry under a key. -/
def erase (t : Table α) (key : String) : Table α := t.keep fun k _ => k != key

@[ext] theorem ext {s t : Table α} (h : s.entries = t.entries) : s = t := by
  cases s
  cases t
  cases h
  rfl

/-! ### Look-ups -/

/-- In a list of entries with increasing keys the first entry of a key is the only one. -/
theorem find?_eq_some_iff {entries : List (String × α)} (h : KeysIncrease entries)
    {key : String} {value : α} :
    (entries.find? (·.1 == key)).map (·.2) = some value ↔ (key, value) ∈ entries := by
  induction entries with
  | nil => simp
  | cons d rest ih =>
    obtain ⟨hd, hrest⟩ := List.pairwise_cons.1 h
    obtain ⟨k, a⟩ := d
    by_cases hk : k = key
    · subst hk
      constructor
      · intro hfind
        simp only [List.find?_cons, BEq.rfl, Option.map_some, Option.some.injEq] at hfind
        exact hfind ▸ List.mem_cons_self
      · intro hmem
        rcases List.mem_cons.1 hmem with heq | hmem
        · obtain ⟨-, rfl⟩ := Prod.mk.injEq .. ▸ heq
          simp
        · exact absurd (hd _ hmem) (String.lt_irrefl k)
    · have hne : (k == key) = false := beq_eq_false_iff_ne.2 hk
      rw [List.find?_cons]
      simp only [hne]
      rw [ih hrest, List.mem_cons]
      constructor
      · exact .inr
      · rintro (heq | hmem)
        · exact absurd (congrArg Prod.fst heq).symm hk
        · exact hmem

theorem get?_eq_some_iff {t : Table α} {key : String} {value : α} :
    t.get? key = some value ↔ (key, value) ∈ t.entries :=
  find?_eq_some_iff t.increasing

@[simp] theorem get?_empty (key : String) : (empty : Table α).get? key = none := rfl

theorem get?_insertEntry (key : String) (value : α) (j : String) {entries : List (String × α)}
    (h : KeysIncrease entries) :
    ((insertEntry key value entries).find? (·.1 == j)).map (·.2) =
      if j = key then some value else (entries.find? (·.1 == j)).map (·.2) := by
  induction entries with
  | nil =>
    by_cases hj : j = key
    · simp [insertEntry, hj]
    · simp [insertEntry, hj, Ne.symm hj]
  | cons d rest ih =>
    obtain ⟨-, hrest⟩ := List.pairwise_cons.1 h
    unfold insertEntry
    split
    · by_cases hj : j = key
      · simp [hj]
      · have hne : (key == j) = false := beq_eq_false_iff_ne.2 fun heq => hj heq.symm
        rw [List.find?_cons]
        simp only [hne, if_neg hj]
    · rename_i hle
      split
      · rename_i hlt
        rw [List.find?_cons, List.find?_cons]
        by_cases hd : d.1 = j
        · have hj : j ≠ key := by
            rintro rfl
            exact String.lt_irrefl d.1 (hd.symm ▸ hlt)
          simp [hd, hj]
        · have hne : (d.1 == j) = false := beq_eq_false_iff_ne.2 hd
          simp only [hne]
          exact ih hrest
      · rename_i hge
        have heq : d.1 = key := String.le_antisymm (String.not_lt.1 hle) (String.not_lt.1 hge)
        rw [List.find?_cons, List.find?_cons, heq]
        by_cases hj : j = key
        · simp [hj]
        · have hne : (key == j) = false := beq_eq_false_iff_ne.2 fun heq => hj heq.symm
          simp only [hne, if_neg hj]

@[simp] theorem get?_insert (t : Table α) (key : String) (value : α) (j : String) :
    (t.insert key value).get? j = if j = key then some value else t.get? j :=
  get?_insertEntry key value j t.increasing

@[simp] theorem get?_keep (p : String → α → Bool) (t : Table α) (key : String) :
    (t.keep p).get? key = (t.get? key).filter (p key) := by
  apply Option.ext
  intro value
  rw [get?_eq_some_iff, Option.filter_eq_some_iff, get?_eq_some_iff]
  exact List.mem_filter

@[simp] theorem get?_erase (t : Table α) (key j : String) :
    (t.erase key).get? j = if j = key then none else t.get? j := by
  rw [erase, get?_keep]
  by_cases hj : j = key
  · cases t.get? j <;> simp [hj]
  · cases t.get? j <;> simp [hj]

end Table

/-! ### Tables of values that determine their keys -/

/-- A table whose values stand under their own keys. -/
structure KeyedTable {α : Type} (key : α → String) where
  table : Table α
  keyed : ∀ e ∈ table.entries, key e.2 = e.1

namespace KeyedTable

variable {α : Type} {key : α → String}

/-- The table without values. -/
def empty : KeyedTable key := ⟨Table.empty, fun _ h => absurd h List.not_mem_nil⟩

instance : Inhabited (KeyedTable key) := ⟨empty⟩

/-- The value under a key. -/
def get? (t : KeyedTable key) (k : String) : Option α := t.table.get? k

/-- The values in the order of their keys. -/
def values (t : KeyedTable key) : List α := t.table.values

/-- Enter a value under its key. -/
def put (t : KeyedTable key) (value : α) : KeyedTable key where
  table := t.table.insert (key value) value
  keyed e he := by
    rcases Table.mem_insertEntry he with rfl | he
    · rfl
    · exact t.keyed e he

/-- Keep the values that satisfy `p`. -/
def keep (p : α → Bool) (t : KeyedTable key) : KeyedTable key where
  table := t.table.keep fun _ => p
  keyed e he := t.keyed e (List.mem_filter.1 he).1

/-- Remove the value under a key. -/
def erase (t : KeyedTable key) (k : String) : KeyedTable key where
  table := t.table.erase k
  keyed e he := t.keyed e (List.mem_filter.1 he).1

/-- What is found under a key has that key. -/
theorem key_of_get? {t : KeyedTable key} {k : String} {value : α} (h : t.get? k = some value) :
    key value = k :=
  t.keyed (k, value) (Table.get?_eq_some_iff.1 h)

@[simp] theorem get?_empty (k : String) : (empty : KeyedTable key).get? k = none := rfl

@[simp] theorem get?_put (t : KeyedTable key) (value : α) (k : String) :
    (t.put value).get? k = if k = key value then some value else t.get? k :=
  Table.get?_insert t.table (key value) value k

@[simp] theorem get?_keep (p : α → Bool) (t : KeyedTable key) (k : String) :
    (t.keep p).get? k = (t.get? k).filter p :=
  Table.get?_keep (fun _ => p) t.table k

@[simp] theorem get?_erase (t : KeyedTable key) (k j : String) :
    (t.erase k).get? j = if j = k then none else t.get? j :=
  Table.get?_erase t.table k j

end KeyedTable
end PhpAtlas
