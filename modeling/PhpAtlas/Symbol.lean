import PhpAtlas.Source.Token
import PhpAtlas.TypeList

/-!
# Symbols

What is known of a declaration once its file was read.  Names are fully qualified, lines count from
one, and a symbol remembers the file it comes from.

## Main definitions

* `Documentation` — the text of a documentation comment.
* `ParameterSymbol`, `FunctionSymbol`, `ConstantSymbol` — global symbols.
* `MethodSymbol`, `PropertySymbol`, `ClassConstantSymbol` — members.
* `ClasslikeSymbol` — a class, interface or trait with its own members.
* `FileRecord` — a file that was indexed.
-/

namespace PhpAtlas

/-- Who may use a member. -/
inductive Visibility
  | pub
  | prot
  | priv
  deriving DecidableEq, Repr

/-- The text of a documentation comment. -/
structure Documentation where
  short : String := ""
  long : String := ""
  deprecated : Bool := false
  /-- Whether there is a comment at all. -/
  present : Bool := false
  /-- Whether the text is to be taken from an ancestor. -/
  inherits : Bool := false
  deriving DecidableEq, Repr, Inhabited

/-- A parameter of a function or method. -/
structure ParameterSymbol where
  /-- The name with its `$`. -/
  name : String
  types : TypeList
  /-- The text of the default value. -/
  default : Option String
  nullable : Bool
  byRef : Bool
  variadic : Bool
  description : String
  deriving DecidableEq, Repr

/-- A global function. -/
structure FunctionSymbol where
  full : String
  name : String
  file : String
  startLine : Nat
  endLine : Nat
  parameters : List ParameterSymbol
  returns : TypeList
  throws : TypeList
  documentation : Documentation
  deriving DecidableEq, Repr

/-- A global constant. -/
structure ConstantSymbol where
  full : String
  name : String
  file : String
  line : Nat
  /-- The text of the value. -/
  value : String
  types : TypeList
  documentation : Documentation
  deriving DecidableEq, Repr

/-- A method, declared or documented. -/
structure MethodSymbol where
  name : String
  /-- The classlike that declares the method. -/
  owner : String
  visibility : Visibility
  static : Bool
  abstract : Bool
  final : Bool
  /-- Whether the method exists by documentation only. -/
  magic : Bool
  line : Nat
  parameters : List ParameterSymbol
  returns : TypeList
  throws : TypeList
  documentation : Documentation
  deriving DecidableEq, Repr

/-- A property, declared or documented. -/
structure PropertySymbol where
  /-- The name without its `$`. -/
  name : String
  owner : String
  visibility : Visibility
  static : Bool
  /-- Whether the property exists by documentation only. -/
  magic : Bool
  readable : Bool
  writable : Bool
  line : Nat
  default : Option String
  types : TypeList
  documentation : Documentation
  deriving DecidableEq, Repr

/-- A class constant or a case of an enumeration. -/
structure ClassConstantSymbol where
  name : String
  owner : String
  visibility : Visibility
  line : Nat
  value : String
  types : TypeList
  documentation : Documentation
  deriving DecidableEq, Repr

/-- What a classlike is.  Enumerations are classes. -/
inductive ClassKind
  | cls
  | interface
  | trait
  deriving DecidableEq, Repr

/-- A trait method under another name or with another visibility. -/
structure TraitAlias where
  /-- The trait, if the declaration names it. -/
  owner : Option String
  method : String
  newName : Option String
  visibility : Option Visibility
  deriving DecidableEq, Repr

/-- A trait method that wins over those of other traits. -/
structure TraitPrecedence where
  owner : String
  method : String
  insteadOf : List String
  deriving DecidableEq, Repr

/-- A class, interface or trait with its own members. -/
structure ClasslikeSymbol where
  full : String
  name : String
  kind : ClassKind
  file : String
  startLine : Nat
  endLine : Nat
  documentation : Documentation
  abstract : Bool
  final : Bool
  enumeration : Bool
  parents : List String
  interfaces : List String
  traits : List String
  aliases : List TraitAlias
  precedences : List TraitPrecedence
  constants : List ClassConstantSymbol
  properties : List PropertySymbol
  methods : List MethodSymbol
  deriving DecidableEq, Repr

/-- The own method of this name, up to ASCII case. -/
def ClasslikeSymbol.method? (c : ClasslikeSymbol) (name : String) : Option MethodSymbol :=
  c.methods.find? fun m => foldEq m.name name

/-- A file that was indexed, with the time of indexing. -/
structure FileRecord where
  path : String
  indexedAt : Nat
  diagnostics : List Diagnostic
  deriving DecidableEq, Repr

end PhpAtlas
