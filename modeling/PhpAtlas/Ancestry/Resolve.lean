import PhpAtlas.Ancestry.Flat
import PhpAtlas.Store.Basic

/-!
# Resolving the ancestry of a classlike

The ancestors of a classlike are resolved before it, by a recursion on the depth that is left.  The
classlikes being resolved are kept in order: meeting one of them again is a circular dependency.
An ancestor that is not indexed is left out.

## Main definitions

* `ResolutionError`, `ResolutionError.message` — why there is no view.
* `Tables.resolveFrom` — resolve below a list of classlikes being resolved.
* `Tables.resolve` — resolve a classlike.
* `Tables.flat?` — the view, if there is one.
-/

namespace PhpAtlas

/-- Why a classlike has no flat view. -/
inductive ResolutionError
  | unknown (name : String)
  /-- Resolving a classlike asked for itself; the chain leads from it to itself. -/
  | circular (name : String) (chain : List String)
  | tooDeep (name : String)
  deriving DecidableEq, Repr

/-- The text of an error. -/
def ResolutionError.message : ResolutionError → String
  | .unknown name => "unknown classlike " ++ name
  | .circular name chain =>
      "circular dependency while resolving " ++ name ++ ": " ++ String.intercalate " -> " chain
  | .tooDeep name => "resolution of " ++ name ++ " exceeded the maximum depth"

/-- An ancestor that is not indexed is no error. -/
def ancestorOf (name : String) (r : Except ResolutionError FlatClass) :
    Except ResolutionError FlatClass.Ancestor :=
  match r with
  | .ok view => .ok ⟨name, some view⟩
  | .error (.unknown _) => .ok ⟨name, none⟩
  | .error e => .error e

namespace Tables

/-- Flatten a classlike, given how to resolve a name. -/
def flattenWith (resolve : String → Except ResolutionError FlatClass) (c : ClasslikeSymbol) :
    Except ResolutionError FlatClass := do
  let ancestors := fun (names : List String) => names.mapM fun n => ancestorOf n (resolve n)
  let traits ← ancestors c.traits
  let parents ← ancestors c.parents
  let interfaces ← ancestors c.interfaces
  return FlatClass.assemble c traits parents interfaces

/-- Resolve a classlike below those being resolved, outermost first, with `room` levels left. -/
def resolveFrom (t : Tables) : (room : Nat) → (visiting : List String) → (name : String) →
    Except ResolutionError FlatClass
  | room, visiting, name =>
      if visiting.any fun v => Name.key v == Name.key name then
        .error (.circular name
          (visiting.dropWhile (fun v => Name.key v != Name.key name) ++ [name]))
      else
        match room with
        | 0 => .error (.tooDeep name)
        | room + 1 =>
            match t.classlike? name with
            | none => .error (.unknown name)
            | some c => flattenWith (resolveFrom t room (visiting ++ [c.full])) c

/-- Resolve a classlike. -/
def resolve (t : Tables) (maxDepth : Nat) (name : String) : Except ResolutionError FlatClass :=
  t.resolveFrom maxDepth [] name

/-- The flat view of a classlike, if it can be resolved. -/
def flat? (t : Tables) (maxDepth : Nat) (name : String) : Option FlatClass :=
  (t.resolve maxDepth name).toOption

end Tables
end PhpAtlas
