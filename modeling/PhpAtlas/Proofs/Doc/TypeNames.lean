import PhpAtlas.Proofs.Doc.Reading

/-!
# The single names of a documentation type

A documentation type is flattened into single type names.  No name appears twice, whatever the tree:
each operator adds only what is not there yet, or changes all names in the same way.  That there is
a name at all is due to reading: it makes no union without members.

## Main results

* `DocType.nodup_flatten` — no name appears twice.
* `DocType.flatten_ne_nil_of_reads` — what is read has a name.
-/

namespace PhpAtlas

namespace DocType

/-! ### Names are added once -/

theorem addNew_cons (names : List String) (s : String) (more : List String) :
    addNew names (s :: more) = addNew (if names.contains s then names else names ++ [s]) more := rfl

theorem mem_addNew {s : String} {names more : List String} :
    s ∈ addNew names more ↔ s ∈ names ∨ s ∈ more := by
  induction more generalizing names with
  | nil => simp [addNew]
  | cons m more ih =>
    rw [addNew_cons, ih, List.mem_cons]
    split
    · rename_i hm
      have hm : m ∈ names := by simpa using hm
      exact ⟨Or.imp_right .inr, fun h => by rcases h with h | rfl | h <;> simp [*]⟩
    · rw [List.mem_append, List.mem_singleton, or_assoc]

theorem nodup_addNew {names : List String} (h : names.Nodup) (more : List String) :
    (addNew names more).Nodup := by
  induction more generalizing names with
  | nil => exact h
  | cons m more ih =>
    rw [addNew_cons]
    split
    · exact ih h
    · rename_i hm
      have hm : m ∉ names := by simpa using hm
      exact ih (List.nodup_append.2 ⟨h, List.nodup_singleton m, by grind⟩)

theorem nodup_map_brackets {names : List String} (h : names.Nodup) :
    (names.map (· ++ "[]")).Nodup :=
  h.map fun _ _ heq => String.append_left_inj _ |>.1 heq

/-- No name appears twice. -/
theorem nodup_flatten : (t : DocType) → t.flatten.Nodup
  | .named _ | .special _ | .keyword _ => List.nodup_singleton _
  | .array element => by
    rw [flatten]
    exact nodup_map_brackets element.nodup_flatten
  | .union members => by
    rw [flatten]
    exact nodup_addNew List.nodup_nil _
  | .nullable inner => by
    rw [flatten]
    exact nodup_addNew inner.nodup_flatten _
  | .iterable container value => by
    rw [flatten]
    exact nodup_addNew container.nodup_flatten _

/-! ### There is a name -/

theorem addNew_ne_nil {names more : List String} (h : names ≠ [] ∨ more ≠ []) :
    addNew names more ≠ [] := by
  obtain ⟨s, hs⟩ : ∃ s, s ∈ names ∨ s ∈ more := by
    rcases h with h | h
    · obtain ⟨s, hs⟩ := List.exists_mem_of_ne_nil _ h
      exact ⟨s, .inl hs⟩
    · obtain ⟨s, hs⟩ := List.exists_mem_of_ne_nil _ h
      exact ⟨s, .inr hs⟩
  exact List.ne_nil_of_mem (mem_addNew.2 hs)

theorem flattenAll_eq_flatMap (members : List DocType) :
    flattenAll members = members.flatMap flatten := by
  induction members with
  | nil => rfl
  | cons m members ih => rw [flattenAll, ih, List.flatMap_cons]

/-- A union that is spread keeps its names. -/
theorem mem_flatten_iff_alternative {s : String} {t : DocType} :
    s ∈ t.flatten ↔ ∃ m ∈ alternatives t, s ∈ m.flatten := by
  cases t with
  | union members =>
    rw [flatten, mem_addNew, flattenAll_eq_flatMap, List.mem_flatMap, alternatives]
    exact or_iff_right List.not_mem_nil
  | _ => simp [alternatives]

theorem exists_alternative_ne_nil {t : DocType} (h : t.flatten ≠ []) :
    ∃ m ∈ alternatives t, m.flatten ≠ [] := by
  obtain ⟨s, hs⟩ := List.exists_mem_of_ne_nil _ h
  obtain ⟨m, hm, hsm⟩ := mem_flatten_iff_alternative.1 hs
  exact ⟨m, hm, List.ne_nil_of_mem hsm⟩

theorem flatten_union_ne_nil {members : List DocType} (h : ∃ m ∈ members, m.flatten ≠ []) :
    (union members).flatten ≠ [] := by
  obtain ⟨m, hm, hne⟩ := h
  rw [flatten, flattenAll_eq_flatMap]
  exact addNew_ne_nil (.inr fun hnil => hne (List.flatMap_eq_nil_iff.1 hnil m hm))

theorem flatten_ofAtom_ne_nil (t : Text) : (ofAtom t).flatten ≠ [] := by
  rw [ofAtom]
  split
  · simp [flatten]
  · split
    · simp [flatten]
    · split <;> simp [flatten]

/-- What is read has a name. -/
theorem flatten_ne_nil_of_reads {x : Text} {t : DocType} (h : Reads x t) : t.flatten ≠ [] := by
  induction h with
  | blank => simp [flatten]
  | atom => exact flatten_ofAtom_ne_nil _
  | @union x parts read _ hlength _ _ ih =>
    obtain ⟨p, hp⟩ := List.exists_mem_of_length_pos (by omega : 0 < parts.length)
    obtain ⟨m, hm, hne⟩ := exists_alternative_ne_nil (ih p hp)
    exact flatten_union_ne_nil ⟨m, List.mem_flatMap.2 ⟨p, hp, hm⟩, hne⟩
  | front _ _ ih | group _ _ _ ih => exact ih
  | nullable _ _ _ ih =>
    rw [flatten]
    exact addNew_ne_nil (.inl ih)
  | array _ _ _ _ ih | list _ _ _ ih =>
    rw [flatten]
    exact fun hnil => ih (List.map_eq_nil_iff.1 hnil)
  | values _ _ _ _ ih =>
    rw [flatten]
    exact addNew_ne_nil (.inr fun hnil => ih (List.map_eq_nil_iff.1 hnil))

theorem flatten_parse_ne_nil (x : Text) : (parse x).flatten ≠ [] :=
  flatten_ne_nil_of_reads (reads_parse x)

end DocType
end PhpAtlas
