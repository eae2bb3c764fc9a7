import PhpAtlas.Atlas

/-!
# The types of members

A member is looked up in every classlike among the types of its owner.  In the type of a member,
`static` and `$this` stand for the classlike on which it was accessed.

## Main definitions

* `MemberKey` — a member by its kind and name.
* `FlatClass.memberTypes?` — the types of a member of one classlike.
* `Atlas.memberTypes` — the types of a member of any of several owners.
* `Atlas.functionTypes`, `Atlas.constantTypes` — the types of global symbols.
-/

namespace PhpAtlas

/-- A member by its kind and name. -/
inductive MemberKey
  | method (name : String)
  | property (name : String)
  | constant (name : String)

/-- The declared types of a member. -/
def FlatClass.memberTypes? (f : FlatClass) : MemberKey → Option TypeList
  | .method name => (f.method? name).map (·.member.returns)
  | .property name => (f.property? name).map (·.member.types)
  | .constant name => (f.constant? name).map (·.member.types)

/-- A late-bound type stands for the owner on which the member was accessed. -/
def TypeRef.bindTo (owner t : TypeRef) : TypeRef :=
  let (base, brackets) := Known.splitBrackets t.full
  if foldEq base "static" || base == "$this" then
    ⟨owner.written ++ brackets, owner.full ++ brackets⟩
  else t

/-- Whether a type may name a classlike. -/
def TypeRef.mayOwn (t : TypeRef) : Bool :=
  !(TypeRef.isBuiltin t.full || Text.endsWith ['[', ']'] t.full.toList)

/-- Add `null` to known types. -/
def TypeList.orNull (l : TypeList) : TypeList :=
  if l.isEmpty then l else l.push (TypeRef.keyword "null")

/-- What an access that is skipped on `null` yields. -/
def TypeList.skipping (nullSafe : Bool) (l : TypeList) : TypeList :=
  if nullSafe then l.orNull else l

namespace Atlas

/-- The types of a member of one owner. -/
def ownerTypes (a : Atlas) (key : MemberKey) (owner : TypeRef) : List TypeRef :=
  if owner.mayOwn then
    match (a.flat? owner.full).bind (·.memberTypes? key) with
    | some types => types.entries.map owner.bindTo
    | none => []
  else []

/-- The types of a member of any of several owners. -/
def memberTypes (a : Atlas) (key : MemberKey) (owners : TypeList) : TypeList :=
  TypeList.ofList (owners.entries.flatMap (a.ownerTypes key))

/-- The types of the result of a function. -/
def functionTypes (a : Atlas) (c : NameContext) (name : String) : TypeList :=
  match a.tables.function? (a.known.resolve c .function name) with
  | some f => f.returns
  | none => TypeList.empty

/-- The types of a global constant. -/
def constantTypes (a : Atlas) (c : NameContext) (name : String) : TypeList :=
  match a.tables.constant? (a.known.resolve c .constant name) with
  | some k => k.types
  | none => TypeList.empty

end Atlas
end PhpAtlas
