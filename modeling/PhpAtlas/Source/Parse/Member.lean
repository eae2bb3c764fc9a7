import PhpAtlas.Source.Parse.Signature

/-!
# Reading classlikes

Methods, properties, constants, cases and trait uses, and the declarations that hold them.

## Main definitions

* `Reader.member` — one member.
* `Reader.classBody` — the members in braces.
* `Reader.classDecl` — a class, interface, trait or enumeration with a name.
* `Reader.functionDecl` — a function with a name.
-/

namespace PhpAtlas
namespace Reader

/-- The start of a declaration that its attributes belong to. -/
def attributedStart : Reader Nat := do
  let start ← offset
  skipAttributes
  return start

/-- A constant with its value. -/
def constItem (g : Grammar) : Reader (Item Expr) := do
  let name ← memberName
  let _ ← expectMark "="
  return ⟨name, some (← g.expr 0)⟩

/-- A property with its default. -/
def propertyItem (g : Grammar) : Reader (Item Expr) := do
  let name ← expect .var
  let value ← assigned g
  return ⟨nameRef name, value⟩

/-! ### Trait uses -/

/-- The visibility that an alias asks for. -/
def aliasVisibility : Reader (Option Modifier) := do
  match ← modifier? with
  | some m =>
      if m = .pub || m = .prot || m = .priv then
        let _ ← next
        return some m
      else return none
  | none => return none

/-- The method that is adapted, and its trait if it is named.  The first name is a trait if a method
name follows it. -/
def adaptedMethod : Reader (Option String × String) := do
  let first ← match ← kindAt 0 with
    | some (.reserved _) => memberName
    | _ => anyName
  if ← eatMark "::" then return (some first.text, (← memberName).text)
  else return (none, first.text)

/-- The new name of a method, if there is one. -/
def aliasName : Reader (Option NameRef) := do
  match ← kindAt 0 with
  | some kind => if isMemberName kind then some <$> memberName else return none
  | none => return none

/-- What is done to a method. -/
def adaptationOf (owner : Option String) (method : String) : Reader Adaptation := do
  if ← eatReserved "insteadof" then
    let others ← commaList1 anyName
    return .insteadOf (owner.getD "") method (others.map (·.text))
  else
    let _ ← expect (.reserved "as")
    let visibility ← aliasVisibility
    let newName ← aliasName
    return .rename owner method (newName.map (·.text)) visibility

/-- An adaptation of a trait method. -/
def adaptation : Reader Adaptation := do
  let (owner, method) ← adaptedMethod
  let result ← adaptationOf owner method
  let _ ← terminator
  return result

/-- The adaptations behind the names of a trait use. -/
def adaptations : Reader (List Adaptation) := do
  if ← eatMark "\x7b" then
    let list ← repeatFrom [] fun (as : List Adaptation) => do
      if (← atMark "\x7d") || (← atEnd) then return .inr as
      else return .inl (as ++ [← adaptation])
    let _ ← expectMark "\x7d"
    return list
  else
    let _ ← terminator
    return []

/-! ### Members -/

/-- The body of a method, or the terminator in its place. -/
def methodBody (g : Grammar) : Reader (Option (Body Stmt)) := do
  if ← atMark "\x7b" then some <$> block g
  else
    let _ ← terminator
    return none

/-- A method behind its modifiers. -/
def method (g : Grammar) (start : Nat) (ms : List Modifier) : Reader (Member Expr Stmt) := do
  let _ ← expect (.reserved "function")
  let _ ← eatMark "&"
  let name ← memberName
  let ps ← parameters g
  let returns ← returnHint
  let body ← methodBody g
  return .method
    { span := ⟨start, ← lastStop⟩, modifiers := ms, name := name, parameters := ps,
      returns := returns, body := body }

/-- A type, unless a test says that there is none. -/
def hintUnless (test : Reader Bool) : Reader (Option Hint) := do
  if ← test then return none else some <$> hint

/-- Class constants behind their modifiers.  A type stands in front of the first name unless an
equals sign follows the first word. -/
def classConstants (g : Grammar) (start : Nat) (ms : List Modifier) :
    Reader (Member Expr Stmt) := do
  let _ ← expect (.reserved "const")
  let h ← hintUnless (isAt 1 (.mark "="))
  let items ← commaList1 (constItem g)
  return .constant ⟨start, ← terminator⟩ ms h items

/-- Properties behind their modifiers. -/
def properties (g : Grammar) (start : Nat) (ms : List Modifier) : Reader (Member Expr Stmt) := do
  let h ← hintUnless (isAt 0 .var)
  let items ← commaList1 (propertyItem g)
  if ← atMark "\x7b" then
    let hooks ← accessors g
    return .property ⟨start, ← lastStop⟩ ms h items hooks
  else return .property ⟨start, ← terminator⟩ ms h items []

/-- A case of an enumeration. -/
def enumCase (g : Grammar) (start : Nat) : Reader (Member Expr Stmt) := do
  let _ ← expect (.reserved "case")
  let name ← memberName
  let value ← assigned g
  return .enumCase ⟨start, ← terminator⟩ ⟨name, value⟩

/-- One member of a classlike.  The attributes of constants are not part of them. -/
def member (g : Grammar) : Reader (Member Expr Stmt) := do
  let start ← attributedStart
  let inner ← offset
  if ← eatReserved "use" then
    let names ← commaList1 anyName
    let list ← adaptations
    return .traitUse ⟨start, ← lastStop⟩ names list
  else if ← atReserved "case" then enumCase g start
  else
    let ms ← modifiers
    match ← kindAt 0 with
    | some (.reserved "function") => method g start ms
    | some (.reserved "const") => classConstants g inner ms
    | _ => properties g start ms

/-- The members in braces. -/
def classBody (g : Grammar) : Reader (List (Member Expr Stmt)) := do
  let _ ← expectMark "\x7b"
  let members ← repeatFrom [] fun (ms : List (Member Expr Stmt)) => do
    if (← atMark "\x7d") || (← atEnd) then return .inr ms else return .inl (ms ++ [← member g])
  let _ ← expectMark "\x7d"
  return members

/-! ### Declarations -/

/-- The names behind a word such as `extends`. -/
def namesAfter (word : String) : Reader (List NameRef) := do
  if ← eatReserved word then commaList1 anyName else return []

/-- The form of the classlike that the next word declares. -/
def classForm? : Reader (Option ClassForm) := do
  match ← kindAt 0 with
  | some (.reserved "class") => return some .cls
  | some (.reserved "interface") => return some .interface
  | some (.reserved "trait") => return some .trait
  | some .word =>
      return if (← wordAt 0) == some "enum" && (← isAt 1 .word) then some (.enum false) else none
  | _ => return none

/-- A classlike with a name, behind its attributes.  Modifiers come first. -/
def classDecl (g : Grammar) (start : Nat) : Reader (ClassDecl Expr Stmt) := do
  let ms ← modifiers
  match ← classForm? with
  | none => throw (← missing ["Class"])
  | some form =>
      let _ ← next
      let name ← declaredName
      let backing ← returnHint
      let parents ← namesAfter "extends"
      let interfaces ← namesAfter "implements"
      let members ← classBody g
      let form := match form with
        | .enum _ => .enum backing.isSome
        | other => other
      return { span := ⟨start, ← lastStop⟩, form := form, modifiers := ms, name := name.text,
               parents := parents, interfaces := interfaces, members := members }

/-- A class without a name behind the words `new class`. -/
def anonymousClass (g : Grammar) (start : Nat) (ms : List Modifier) :
    Reader (ClassDecl Expr Stmt) := do
  let parents ← namesAfter "extends"
  let interfaces ← namesAfter "implements"
  let members ← classBody g
  return { span := ⟨start, ← lastStop⟩, form := .cls, modifiers := ms, name := "",
           parents := parents, interfaces := interfaces, members := members }

/-- A function with a name, behind its attributes. -/
def functionDecl (g : Grammar) (start : Nat) : Reader (FunctionDecl Expr Stmt) := do
  let _ ← expect (.reserved "function")
  let _ ← eatMark "&"
  let name ← declaredName
  let ps ← parameters g
  let returns ← returnHint
  let body ← block g
  return { span := ⟨start, ← lastStop⟩, modifiers := [], name := name, parameters := ps,
           returns := returns, body := some body }

end Reader
end PhpAtlas
