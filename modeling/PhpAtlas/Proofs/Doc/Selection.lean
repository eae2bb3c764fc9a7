import Mathlib
import PhpAtlas.Doc.Comment

/-!
# Reading a part of a comment

A comment can be read for some kinds of information only, and for one item only.  Both merely leave
out: what is read is the part of the whole reading that was asked for, and the annotation of a
variable is the same whether it was asked for by name or looked up later.

## Main definitions

* `DocComment.select` — the part of a comment that belongs to some kinds of tags.
* `Tag.var?` — the annotation of a tag.

## Main results

* `DocComment.select_enter` — what entering a tag does to a part.
* `DocComment.vars_read_some` — which annotations are left when an item is named.
* `DocComment.read_selects` — **kinds and items only filter.**
-/

namespace PhpAtlas

namespace DocComment

/-! ### Kinds -/

/-- The fields that belong to the kinds; the others have their defaults. -/
def select (kinds : List TagKind) (c : DocComment) : DocComment :=
  let blank : DocComment := {}
  { short := if kinds.contains .description then c.short else blank.short
    long := if kinds.contains .description then c.long else blank.long
    deprecated := if kinds.contains .deprecated then c.deprecated else blank.deprecated
    inheritDoc := if kinds.contains .inheritDoc then c.inheritDoc else blank.inheritDoc
    params := if kinds.contains .param then c.params else blank.params
    returns := if kinds.contains .returns then c.returns else blank.returns
    vars := if kinds.contains .var then c.vars else blank.vars
    throws := if kinds.contains .throws then c.throws else blank.throws
    properties := if kinds.contains .property then c.properties else blank.properties
    methods := if kinds.contains .method then c.methods else blank.methods }

/-- A tag changes a part only if its kind belongs to it. -/
theorem select_enter (kinds : List TagKind) (c : DocComment) (tag : Tag) :
    (c.enter tag).select kinds =
      if kinds.contains tag.kind then (c.select kinds).enter tag else c.select kinds := by
  by_cases h : kinds.contains tag.kind = true
  · rw [if_pos h]
    cases tag with
    | _ =>
      rw [Tag.kind] at h
      simp only [select, enter, h, if_true]
  · rw [if_neg h]
    rw [Bool.not_eq_true] at h
    cases tag with
    | _ =>
      rw [Tag.kind] at h
      simp only [select, enter, h, Bool.false_eq_true, if_false]

theorem select_foldl (kinds : List TagKind) (tags : List Tag) (c : DocComment) :
    (tags.foldl enter c).select kinds =
      (tags.filter fun tag => kinds.contains tag.kind).foldl enter (c.select kinds) := by
  induction tags generalizing c with
  | nil => rfl
  | cons tag tags ih =>
    rw [List.foldl_cons, ih, select_enter, List.filter_cons]
    split <;> rfl

theorem contains_all (kind : TagKind) : TagKind.all.contains kind = true := by
  cases kind <;> decide

/-- The mark in the description and the tag feed one field, which belongs to one kind. -/
theorem select_ofDescription (kinds : List TagKind) (lines : List Text) :
    (ofDescription TagKind.all lines).select kinds = ofDescription kinds lines := by
  have hinherit : (if kinds.contains .inheritDoc = true then marksInherit lines else false) =
      (kinds.contains .inheritDoc && marksInherit lines) := by
    cases kinds.contains .inheritDoc <;> rfl
  simp only [select, ofDescription, contains_all, if_true, Bool.true_and, hinherit, ite_self]

theorem read_eq_select (t : Text) (kinds : List TagKind) (item : Option String) :
    read t kinds item = (read t TagKind.all item).select kinds := by
  simp only [read, select_foldl, select_ofDescription, List.filter_filter, contains_all,
    Bool.true_and]

end DocComment

/-! ### Items -/

/-- The annotation of a tag. -/
def Tag.var? : Tag → Option VarTag
  | .var tag => some tag
  | _ => none

namespace DocComment

theorem vars_foldl (tags : List Tag) (c : DocComment) :
    (tags.foldl enter c).vars = c.vars ++ tags.filterMap Tag.var? := by
  induction tags generalizing c with
  | nil => simp
  | cons tag tags ih =>
    rw [List.foldl_cons, ih, List.filterMap_cons]
    cases tag with
    | var tag => simp [enter, Tag.var?]
    | _ => rfl

/-- The annotations that concern an item are those that name it or none. -/
theorem filterMap_var?_concerns (wanted : Tag → Bool) (x : String) (tags : List Tag) :
    (tags.filter fun tag => wanted tag && tag.concerns (some x)).filterMap Tag.var? =
      ((tags.filter fun tag => wanted tag && tag.concerns none).filterMap Tag.var?).filter
        fun v => v.name.isNone || v.name == some x := by
  rw [List.filterMap_filter, List.filterMap_filter, List.filter_filterMap]
  refine List.filterMap_congr fun tag _ => ?_
  cases tag with
  | var tag => cases wanted (.var tag) <;> simp [Tag.concerns, Tag.var?, Option.filter]
  | _ => simp [Tag.concerns, Tag.var?]

/-- Naming an item leaves the annotations that name it or none. -/
theorem vars_read_some (t : Text) (kinds : List TagKind) (x : String) :
    (read t kinds (some x)).vars =
      (read t kinds none).vars.filter fun v => v.name.isNone || v.name == some x := by
  simp only [read, vars_foldl, ofDescription, List.nil_append]
  exact filterMap_var?_concerns (fun tag => kinds.contains tag.kind) x _

theorem varFor?_read_some (t : Text) (kinds : List TagKind) (x : String) :
    (read t kinds (some x)).varFor? x = (read t kinds none).varFor? x := by
  rw [varFor?, varFor?, vars_read_some, List.find?_filter, List.find?_filter]
  congr 2
  · funext v
    cases v.name == some x <;> simp
  · funext v
    cases v.name <;> simp

/-- **Kinds and items only filter.**  Reading for some kinds gives the fields of these kinds as
reading for all does, and the annotation of a variable is the same with and without its name. -/
theorem read_selects (t : Text) (kinds : List TagKind) (item : Option String) :
    read t kinds item = (read t TagKind.all item).select kinds ∧
      ∀ x, (read t kinds (some x)).varFor? x = (read t kinds none).varFor? x :=
  ⟨read_eq_select t kinds item, varFor?_read_some t kinds⟩

end DocComment
end PhpAtlas
