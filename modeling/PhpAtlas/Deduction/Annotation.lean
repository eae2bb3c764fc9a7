import PhpAtlas.Deduction.Narrowing

/-!
# Annotations and assignments of a variable

## Main definitions

* `Lookup.annotation?`, `Lookup.namedAnnotation?` — the types of a comment in front of an offset.
* `Lookup.override` — the effect of a comment in front of the position.
* `Lookup.assigned` — the effect of an assignment.
* `TypeList.elements` — the types of the elements of arrays.
-/

namespace PhpAtlas

/-- Later candidates take the place of earlier ones, unless they may not have been reached. -/
def TypeList.update (old : TypeList) (conditional : Bool) (new : TypeList) : TypeList :=
  if conditional then old.append new else new

/-- The type of the elements of an array type. -/
def TypeRef.element? (t : TypeRef) : Option TypeRef :=
  let brackets := ['[', ']']
  (Text.stripEnd? brackets t.full.toList).map fun full =>
    ⟨String.ofList ((Text.stripEnd? brackets t.written.toList).getD t.written.toList),
      String.ofList full⟩

/-- The types of the elements of arrays. -/
def TypeList.elements (l : TypeList) : TypeList :=
  TypeList.ofList (l.entries.filterMap TypeRef.element?)

namespace Lookup

/-- The types of an annotation in the comment that starts at an offset, if there are any. -/
def annotated? (l : Lookup) (start : Nat) (tag : VarTag) : Option TypeList :=
  let types := l.known.resolveDocType (l.site.contextAt start) l.site.cls tag.type
  if types.isEmpty then none else some types

/-- The types of the annotation in front of an offset, which names the variable or none. -/
def annotation? (l : Lookup) (offset : Nat) : Option TypeList := do
  let (text, start) ← inlineComment? l.site.doc.text offset
  l.annotated? start (← (DocComment.read text [.var] (some l.var)).varFor? l.var)

/-- The types of the annotation in front of an offset that names the variable. -/
def namedAnnotation? (l : Lookup) (offset : Nat) : Option TypeList := do
  let (text, start) ← inlineComment? l.site.doc.text offset
  l.annotated? start
    (← (DocComment.read text [.var] none).vars.find? fun tag => tag.name == some l.var)

/-- An annotation in front of the position decides, if it stands in the scope. -/
def override (l : Lookup) (p : Point) (scopeStart : Nat) (types : TypeList) : TypeList :=
  match inlineComment? l.site.doc.text p.offset with
  | none => types
  | some (_, start) =>
      if start < scopeStart then types else (l.namedAnnotation? p.offset).getD types

/-- The candidates behind the annotation in front of a statement. -/
def annotate (l : Lookup) (start : Nat) (conditional : Bool) (types : TypeList) : TypeList :=
  match l.namedAnnotation? start with
  | some new => types.update conditional new
  | none => types

/-- The candidates behind an expression that may assign to the variable, alone or in a chain of
assignments.  An annotation in front of the statement wins over the assigned value. -/
def assigned (l : Lookup) (p : Point) (start : Nat) (conditional : Bool) (types : TypeList) :
    Expr → Option TypeList
  | .assign span true target value =>
      if target.varName? == some l.var then
        match l.annotation? start with
        | some new => some (types.update conditional new)
        | none => (l.ask value (p.deeper span.start)).map (types.update conditional)
      else l.assigned p start conditional types value
  | _ => some types

end Lookup
end PhpAtlas
