import PhpAtlas.Name
import PhpAtlas.Symbol

/-!
# Classlikes with inherited members

The flat view of a classlike has its own members and those of its traits, parents and interfaces.
When several of them supply a member of one name, the order is own members, traits, the parent
chain, interfaces.  Method names are compared without regard to ASCII case.

Between traits an `insteadof` picks the winner, else the first one wins.  Interface constants are
united: a name that comes from two unrelated interfaces appears twice.

## Main definitions

* `FlatMember`, `FlatClass` — members as seen from a classlike.
* `FlatClass.method?`, `FlatClass.property?`, `FlatClass.constant?` — the first member of a name.
* `FlatClass.isSubtypeOf` — whether a name is among the ancestors of a view.
* `FlatClass.mergeTraits`, `FlatClass.mergeParent`, `FlatClass.mergeInterface` — one step each.
* `FlatClass.assemble` — the whole view, from the views of the ancestors.
-/

namespace PhpAtlas

/-- Where a member of a view comes from. -/
inductive Origin
  | own
  | inherited
  deriving DecidableEq, Repr

/-- A member as seen from a classlike. -/
structure FlatMember (α : Type) where
  member : α
  origin : Origin
  /-- The classlike whose member of the same name this one hides. -/
  overrides : Option String
  deriving DecidableEq, Repr

namespace FlatMember

variable {α : Type}

/-- A member that the classlike declares itself. -/
def own (member : α) : FlatMember α := ⟨member, .own, none⟩

/-- A member that comes from another classlike. -/
def inherited (member : α) : FlatMember α := ⟨member, .inherited, none⟩

/-- Note that a member hides one of another classlike; the first note counts. -/
def shadowing (m : FlatMember α) (owner : String) : FlatMember α :=
  { m with overrides := m.overrides.or (some owner) }

end FlatMember

/-- A classlike with everything that it inherits. -/
structure FlatClass where
  classlike : ClasslikeSymbol
  /-- The ancestor classes, or the parent interfaces. -/
  parents : List String
  interfaces : List String
  traits : List String
  constants : List (FlatMember ClassConstantSymbol)
  properties : List (FlatMember PropertySymbol)
  methods : List (FlatMember MethodSymbol)
  deriving DecidableEq, Repr

namespace FlatClass

/-! ### Look-ups -/

/-- The fully qualified name of the classlike. -/
def full (f : FlatClass) : String := f.classlike.full

/-- The method of this name, up to ASCII case. -/
def method? (f : FlatClass) (name : String) : Option (FlatMember MethodSymbol) :=
  f.methods.find? fun m => foldEq m.member.name name

/-- The property of this name, which may be given with its `$`. -/
def property? (f : FlatClass) (name : String) : Option (FlatMember PropertySymbol) :=
  let bare := String.ofList ((Text.stripStart? ['$'] name.toList).getD name.toList)
  f.properties.find? fun p => p.member.name == bare

/-- The constant of exactly this name; of several, the first. -/
def constant? (f : FlatClass) (name : String) : Option (FlatMember ClassConstantSymbol) :=
  f.constants.find? fun c => c.member.name == name

/-- Whether the classlike is, extends or implements another. -/
def isSubtypeOf (f : FlatClass) (name : String) : Bool :=
  (f.full :: (f.parents ++ f.interfaces)).any fun n => foldEq n name

/-! ### Merging -/

/-- Add a name unless it is present, up to ASCII case. -/
def addName (names : List String) (name : String) : List String :=
  if names.any fun n => foldEq n name then names else names ++ [name]

/-- Add names one after the other. -/
def addNames (names more : List String) : List String := more.foldl addName names

/-- Whether two names stand for one class; leading backslashes do not count. -/
def sameClass (a b : String) : Bool :=
  foldEq (String.ofList (Text.dropLeading Name.separator a.toList))
    (String.ofList (Text.dropLeading Name.separator b.toList))

/-- Change the first element that satisfies `p`. -/
def changeFirst {α : Type} (p : α → Bool) (f : α → α) : List α → List α
  | [] => []
  | a :: as => if p a then f a :: as else a :: changeFirst p f as

/-- Add an element unless one satisfies `p`; then change the first that does. -/
def addOr {α : Type} (p : α → Bool) (change : α → α) (new : α) (l : List α) : List α :=
  if l.any p then changeFirst p change l else l ++ [new]

/-- Whether a method has this name, up to ASCII case. -/
def namedLike (name : String) (m : FlatMember MethodSymbol) : Bool := foldEq m.member.name name

/-- The text of an ancestor in the place of a mark that asks for it. -/
def fillDoc (own ancestor : Documentation) : Documentation :=
  if own.inherits && ancestor.present then ancestor else own

/-- A method whose documentation asks for that of an ancestor gets it. -/
def fillMethod (ancestor : Documentation) (m : FlatMember MethodSymbol) :
    FlatMember MethodSymbol :=
  { m with member := { m.member with documentation := fillDoc m.member.documentation ancestor } }

/-- A property whose documentation asks for that of an ancestor gets it. -/
def fillProperty (ancestor : Documentation) (p : FlatMember PropertySymbol) :
    FlatMember PropertySymbol :=
  { p with member := { p.member with documentation := fillDoc p.member.documentation ancestor } }

/-! ### Traits -/

/-- Whether an `insteadof` of the classlike excludes a method of a trait. -/
def excluded (precedences : List TraitPrecedence) (trait method : String) : Bool :=
  precedences.any fun p => foldEq p.method method && p.insteadOf.any (sameClass · trait)

/-- Enter a method of a trait.  An own method hides it; that of an earlier trait stays. -/
def addTraitMethod (methods : List (FlatMember MethodSymbol)) (m : FlatMember MethodSymbol) :
    List (FlatMember MethodSymbol) :=
  addOr (namedLike m.member.name)
    (fun e => if e.origin = .own then e.shadowing m.member.owner else e)
    (.inherited m.member) methods

/-- Enter a property of a trait, unless one of its name is there. -/
def addTraitProperty (properties : List (FlatMember PropertySymbol))
    (p : FlatMember PropertySymbol) : List (FlatMember PropertySymbol) :=
  addOr (·.member.name == p.member.name) (·.shadowing p.member.owner) (.inherited p.member)
    properties

/-- Enter a constant of a trait, unless one of its name is there. -/
def addTraitConstant (constants : List (FlatMember ClassConstantSymbol))
    (c : FlatMember ClassConstantSymbol) : List (FlatMember ClassConstantSymbol) :=
  addOr (·.member.name == c.member.name) id (.inherited c.member) constants

/-- Enter the members of one trait. -/
def mergeTrait (f view : FlatClass) : FlatClass :=
  let kept := view.methods.filter fun m =>
    !excluded f.classlike.precedences view.full m.member.name
  { f with
    methods := kept.foldl addTraitMethod f.methods
    properties := view.properties.foldl addTraitProperty f.properties
    constants := view.constants.foldl addTraitConstant f.constants }

/-- The method that an alias copies: of the trait that it names, else of the first that has it. -/
def aliasSource? (views : List FlatClass) (a : TraitAlias) : Option (FlatMember MethodSymbol) :=
  let candidates := views.filter fun v =>
    match a.owner with
    | none => true
    | some owner => sameClass owner v.full
  candidates.findSome? (·.method? a.method)

/-- Enter one alias: a copy under a new name if that is free, or a change of visibility. -/
def applyAlias (views : List FlatClass) (f : FlatClass) (a : TraitAlias) : FlatClass :=
  match aliasSource? views a with
  | none => f
  | some source =>
      match a.newName with
      | some name =>
          if (f.method? name).isSome then f
          else
            let copy := { source.member with
              name := name
              visibility := a.visibility.getD source.member.visibility }
            { f with methods := f.methods ++ [.inherited copy] }
      | none =>
          match a.visibility with
          | none => f
          | some v =>
              { f with
                methods :=
                  changeFirst (fun m => m.origin = .inherited && foldEq m.member.name a.method)
                    (fun m => { m with member := { m.member with visibility := v } }) f.methods }

/-- Enter the members of all traits, then the aliases. -/
def mergeTraits (f : FlatClass) (views : List FlatClass) : FlatClass :=
  f.classlike.aliases.foldl (applyAlias views) (views.foldl mergeTrait f)

/-! ### Parents -/

/-- Enter a method of a parent. -/
def addParentMethod (methods : List (FlatMember MethodSymbol)) (m : FlatMember MethodSymbol) :
    List (FlatMember MethodSymbol) :=
  addOr (namedLike m.member.name)
    (fun e => fillMethod m.member.documentation (e.shadowing m.member.owner))
    (.inherited m.member) methods

/-- Enter a property of a parent. -/
def addParentProperty (properties : List (FlatMember PropertySymbol))
    (p : FlatMember PropertySymbol) : List (FlatMember PropertySymbol) :=
  addOr (·.member.name == p.member.name)
    (fun e => fillProperty p.member.documentation (e.shadowing p.member.owner))
    (.inherited p.member) properties

/-- Enter a constant of a parent.  Only constants that were there before the parent hide it, so the
united interface constants of the parent all stay. -/
def addParentConstant
    (state : List (FlatMember ClassConstantSymbol) × List (FlatMember ClassConstantSymbol))
    (c : FlatMember ClassConstantSymbol) :
    List (FlatMember ClassConstantSymbol) × List (FlatMember ClassConstantSymbol) :=
  let (closer, added) := state
  if closer.any (·.member.name == c.member.name) then
    (changeFirst (·.member.name == c.member.name) (·.shadowing c.member.owner) closer, added)
  else (closer, added ++ [.inherited c.member])

/-- Enter the members of a parent that are not private. -/
def mergeInherited (f view : FlatClass) : FlatClass :=
  let constants := (view.constants.filter (·.member.visibility ≠ .priv)).foldl addParentConstant
    (f.constants, [])
  { f with
    methods := (view.methods.filter (·.member.visibility ≠ .priv)).foldl addParentMethod f.methods
    properties := (view.properties.filter (·.member.visibility ≠ .priv)).foldl addParentProperty
      f.properties
    constants := constants.1 ++ constants.2 }

/-! ### Interfaces -/

/-- Enter a method of an interface. -/
def addInterfaceMethod (methods : List (FlatMember MethodSymbol)) (m : FlatMember MethodSymbol) :
    List (FlatMember MethodSymbol) :=
  addOr (namedLike m.member.name) (fillMethod m.member.documentation) (.inherited m.member) methods

/-- Whether a constant hides one of an interface: it is declared by the same classlike, or by one
that is no interface merged so far. -/
def hidesConstant (sources : List String) (c e : FlatMember ClassConstantSymbol) : Bool :=
  e.member.name == c.member.name &&
    (sameClass e.member.owner c.member.owner || !sources.contains (Name.key e.member.owner))

/-- Enter a constant of an interface, unless it is hidden. -/
def addInterfaceConstant (sources : List String)
    (constants : List (FlatMember ClassConstantSymbol)) (c : FlatMember ClassConstantSymbol) :
    List (FlatMember ClassConstantSymbol) :=
  if constants.any (hidesConstant sources c) then constants
  else constants ++ [.inherited c.member]

/-- Enter the members of an interface.  `sources` are the keys of the interfaces merged so far. -/
def mergeInterface (sources : List String) (f view : FlatClass) : FlatClass :=
  { f with
    methods := view.methods.foldl addInterfaceMethod f.methods
    constants := view.constants.foldl (addInterfaceConstant sources) f.constants }

/-! ### The whole view -/

/-- An ancestor with its view; one that is not indexed has none. -/
structure Ancestor where
  name : String
  view : Option FlatClass

/-- A view in the making, with the keys of the interfaces merged so far. -/
structure Merge where
  flat : FlatClass
  sources : List String

/-- The own members alone. -/
def ofOwn (c : ClasslikeSymbol) : FlatClass :=
  { classlike := c, parents := [], interfaces := [], traits := []
    constants := c.constants.map .own
    properties := c.properties.map .own
    methods := c.methods.map .own }

/-- The names of the used traits, each followed by the traits that it uses. -/
def traitNames (traits : List Ancestor) : List String :=
  traits.foldl
    (fun names a => addNames (addName names a.name) ((a.view.map (·.traits)).getD [])) []

/-- Enter a parent.  A parent of an interface is merged like an implemented interface. -/
def addParent (m : Merge) (a : Ancestor) : Merge :=
  let f := { m.flat with parents := addName m.flat.parents a.name }
  match a.view with
  | none => { m with flat := f }
  | some view =>
      let f := { f with
        parents := addNames f.parents view.parents
        interfaces := addNames f.interfaces view.interfaces
        traits := addNames f.traits view.traits }
      if f.classlike.kind = .interface then
        let sources := m.sources ++ Name.key view.full :: view.parents.map Name.key
        ⟨mergeInterface sources f view, sources⟩
      else ⟨mergeInherited f view, m.sources⟩

/-- Enter an implemented interface. -/
def addInterface (m : Merge) (a : Ancestor) : Merge :=
  let f := { m.flat with interfaces := addName m.flat.interfaces a.name }
  match a.view with
  | none => { m with flat := f }
  | some view =>
      let names := view.parents ++ view.interfaces
      let f := { f with interfaces := addNames f.interfaces names }
      let sources := m.sources ++ Name.key view.full :: names.map Name.key
      ⟨mergeInterface sources f view, sources⟩

/-- The view of a classlike from those of its traits, parents and interfaces. -/
def assemble (c : ClasslikeSymbol) (traits parents interfaces : List Ancestor) : FlatClass :=
  let f := { ofOwn c with traits := traitNames traits }
  let f := f.mergeTraits (traits.filterMap (·.view))
  let m := parents.foldl addParent ⟨f, []⟩
  (interfaces.foldl addInterface m).flat

end FlatClass
end PhpAtlas
