import PhpAtlas.Proofs.Doc.TypeNames

/-!
# Types that allow `null`

There are two ways to tell whether a documentation type allows `null`: by its outermost operators,
and by looking for `null` among its single names.  A type that allows `null` by its operators always
has the name.  The converse is due to reading.  Only the keyword `null` is spelled so, whatever the
case in which it was written; the name of an element of an array or of a value ends with brackets;
and an iterable class has a name of its own.

## Main results

* `DocType.null_mem_flatten_of_isNullable` — one direction, for every tree.
* `DocType.Reads.isNullable` — the other one, for what is read.
* `DocType.isNullable_iff_null_mem_flatten` — both together.
-/

namespace PhpAtlas
namespace DocType

/-! ### Unions -/

theorem anyNullable_eq_true {members : List DocType} :
    anyNullable members = true ↔ ∃ m ∈ members, m.isNullable = true := by
  induction members with
  | nil => simp [anyNullable]
  | cons m members ih => simp [anyNullable, ih]

/-- A union that is spread keeps whether it allows `null`. -/
theorem isNullable_iff_alternative {t : DocType} :
    t.isNullable = true ↔ ∃ m ∈ alternatives t, m.isNullable = true := by
  cases t with
  | union members => rw [isNullable, anyNullable_eq_true, alternatives]
  | _ => simp [alternatives]

/-! ### From the operators to the names -/

/-- A type that allows `null` by its operators has the name, however the tree was made. -/
theorem null_mem_flatten_of_isNullable : (t : DocType) → t.isNullable = true → "null" ∈ t.flatten
  | .nullable inner, _ => by
    rw [flatten, mem_addNew]
    exact .inr (List.mem_singleton_self _)
  | .keyword text, h => by
    rw [isNullable, beq_iff_eq] at h
    rw [flatten, h]
    exact List.mem_singleton_self _
  | .union members, h => by
    rw [isNullable, anyNullable_eq_true] at h
    obtain ⟨m, hm, hnull⟩ := h
    exact mem_flatten_iff_alternative.2 ⟨m, hm, m.null_mem_flatten_of_isNullable hnull⟩
  | .named _, h | .array _, h | .iterable _ _, h | .special _, h => by cases h

/-! ### From the names to the operators -/

/-- The name of an element is not `null`. -/
theorem null_not_mem_brackets (names : List String) : "null" ∉ names.map (· ++ "[]") := by
  rw [List.mem_map]
  rintro ⟨s, -, hs⟩
  have hlast : (s ++ "[]").toList.getLast? = some ']' := by
    rw [String.toList_append, List.getLast?_append]
    rfl
  rw [hs] at hlast
  exact absurd hlast (by decide)

theorem flatten_asWritten (x : Text) : (asWritten x).flatten = [String.ofList x] := by
  unfold asWritten
  split
  · rw [flatten]
  · rw [flatten]

theorem eq_of_null_mem_asWritten {x : Text} (h : "null" ∈ (asWritten x).flatten) :
    x = "null".toList := by
  rw [flatten_asWritten, List.mem_singleton] at h
  rw [h, String.toList_ofList]

/-- An atom with the name `null` is the keyword: every spelling of it is a known word. -/
theorem isNullable_ofAtom {x : Text} (h : "null" ∈ (ofAtom x).flatten) :
    (ofAtom x).isNullable = true := by
  rcases ofAtom_cases x with ⟨p, -, -, hatom⟩ | ⟨w, hw, -, hatom⟩ | hatom
  · rw [hatom, flatten, List.mem_singleton] at h
    rw [hatom, ← h]
    rfl
  · rw [hatom, flatten, List.mem_singleton] at h
    exact absurd (h ▸ hw) (by decide)
  · rw [hatom] at h
    rw [eq_of_null_mem_asWritten h]
    decide

/-- An iterable class has another name. -/
theorem IsContainer.null_not_mem {base : Text} (h : IsContainer base) :
    "null" ∉ (parse base).flatten := by
  rw [h.parse_eq]
  intro hnull
  rw [eq_of_null_mem_asWritten hnull] at h
  exact h.not_scalar ("null", "null") (by decide) (by decide)

/-- What is read and has the name `null` allows it by its operators. -/
theorem Reads.isNullable {x : Text} {t : DocType} (h : Reads x t) (hnull : "null" ∈ t.flatten) :
    t.isNullable = true := by
  induction h with
  | blank =>
    rw [flatten] at hnull
    exact absurd hnull (by decide)
  | atom => exact isNullable_ofAtom hnull
  | union _ _ _ _ ih =>
    -- the name comes from a part, which allows `null` and hands that on when it is spread
    obtain ⟨m, hm, hnull⟩ := mem_flatten_iff_alternative.1 hnull
    obtain ⟨p, hp, hm⟩ := List.mem_flatMap.1 hm
    have hpart := ih p hp (mem_flatten_iff_alternative.2 ⟨m, hm, hnull⟩)
    obtain ⟨m, hm, hnullable⟩ := isNullable_iff_alternative.1 hpart
    exact isNullable_iff_alternative.2 ⟨m, List.mem_flatMap.2 ⟨p, hp, hm⟩, hnullable⟩
  | front _ _ ih | group _ _ _ ih => exact ih hnull
  | nullable => rfl
  | array | list =>
    rw [flatten] at hnull
    exact absurd hnull (null_not_mem_brackets _)
  | values hbase =>
    rw [flatten, mem_addNew] at hnull
    rcases hnull with hnull | hnull
    · exact absurd hnull hbase.null_not_mem
    · exact absurd hnull (null_not_mem_brackets _)

/-- **A type that is read allows `null` exactly if `null` is one of its names.** -/
theorem isNullable_iff_null_mem_flatten (s : String) :
    (ofString s).isNullable = true ↔ "null" ∈ (ofString s).flatten :=
  ⟨null_mem_flatten_of_isNullable (ofString s), (reads_parse s.toList).isNullable⟩

/-- A class of that name cannot be read; it would have the name without allowing it. -/
example : (named "null").isNullable = false ∧ "null" ∈ (named "null").flatten := by decide

end DocType
end PhpAtlas
