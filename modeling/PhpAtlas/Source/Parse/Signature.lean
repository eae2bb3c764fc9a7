import PhpAtlas.Source.Parse.Basic

/-!
# Reading signatures

Types, modifiers, parameters, return types and blocks: the parts that functions, methods, closures
and accessors share.

## Main definitions

* `Reader.hint` — a native type.
* `Reader.modifiers` — the words in front of a declaration.
* `Reader.parameters` — a parameter list.
* `Reader.block`, `Reader.statements` — statements in braces.
-/

namespace PhpAtlas
namespace Reader

/-! ### Types -/

/-- The words that name a type of the language. -/
def hintWords : List String :=
  ["void", "never", "float", "bool", "int", "string", "object", "mixed", "iterable", "null",
    "true", "false", "self", "parent"]

/-- Whether a type can start here. -/
def isHintStart : TokenKind → Bool
  | .word | .qualified | .rooted => true
  | .reserved "array" | .reserved "callable" | .reserved "static" => true
  | .mark "?" | .mark "(" => true
  | _ => false

/-- A type without operators between types. -/
def atomicHint : Reader Hint := do
  let t ← next
  match t.kind with
  | .word =>
      if hintWords.contains (fold t.text) then return .keyword t.text
      else return .name (nameRef t)
  | .qualified | .rooted => return .name (nameRef t)
  | .reserved _ => return .keyword t.text
  | _ =>
      let f : Parse.Failure := ⟨⟨"Unexpected token `" ++ t.kind.label ++ "`", t.span⟩, false⟩
      throw f

/-- What is being read of a type: each open bracket keeps the type to the left of it. -/
structure HintFrame where
  /-- The type so far, with `true` for a union and `false` for an intersection. -/
  left : Option (Bool × Hint)
  /-- How many question marks stand in front. -/
  nullable : Nat

/-- Put a type behind the operator in front of it. -/
def HintFrame.close (f : HintFrame) (h : Hint) : Hint :=
  let h := (List.replicate f.nullable ()).foldl (fun h _ => Hint.nullable h) h
  match f.left with
  | none => h
  | some (true, l) => .union l h
  | some (false, l) => .intersection l h

/-- Whether the operator `&` continues a type: in front of a variable it marks a reference. -/
def ampersandContinues : Reader Bool := do
  match ← kindAt 1 with
  | some .var | some (.mark "...") | some (.mark "&") => return false
  | _ => return true

/-- A type.  Brackets are kept on a stack of frames, innermost first. -/
def hint : Reader Hint :=
  repeatFrom (([⟨none, 0⟩], none) : List HintFrame × Option Hint) fun (frames, done) => do
    match frames, done with
    | [], some h => return .inr h
    | [], none => throw (← missing ["Identifier"])
    | f :: outer, none =>
        -- An operand is to be read.
        if ← eatMark "?" then return .inl (⟨f.left, f.nullable + 1⟩ :: outer, none)
        else if ← eatMark "(" then return .inl (⟨none, 0⟩ :: f :: outer, none)
        else return .inl (f :: outer, some (f.close (← atomicHint)))
    | f :: outer, some h =>
        -- An operand was read.
        if ← eatMark "|" then return .inl (⟨some (true, h), 0⟩ :: outer, none)
        else if (← atMark "&") && (← ampersandContinues) then
          let _ ← next
          return .inl (⟨some (false, h), 0⟩ :: outer, none)
        else
          match outer with
          | [] => return .inr h
          | g :: outer =>
              let _ := f
              let _ ← expectMark ")"
              return .inl (g :: outer, some (g.close (.group h)))

/-- A type, if one starts here. -/
def hint? : Reader (Option Hint) := do
  match ← kindAt 0 with
  | some kind => if isHintStart kind then some <$> hint else return none
  | none => return none

/-- A return type, if there is one. -/
def returnHint : Reader (Option ReturnHint) := do
  match ← eat (.mark ":") with
  | some colon => return some ⟨colon.span.start, ← hint⟩
  | none => return none

/-! ### Modifiers -/

/-- The modifier at the front, if there is one. -/
def modifier? : Reader (Option Modifier) := do
  match ← kindAt 0 with
  | some (.reserved "public") => return some .pub
  | some (.reserved "protected") => return some .prot
  | some (.reserved "private") => return some .priv
  | some (.reserved "static") => return some .static
  | some (.reserved "abstract") => return some .abstract
  | some (.reserved "final") => return some .final
  | some (.reserved "var") => return some .var
  | some .word => return if (← wordAt 0) == some "readonly" then some .readonly else none
  | _ => return none

/-- The modifier for writing that `(set)` makes of a visibility. -/
def Modifier.ofSet : Modifier → Modifier
  | .pub => .pubSet
  | .prot => .protSet
  | .priv => .privSet
  | m => m

/-- Whether `(set)` follows the next token. -/
def setFollows : Reader Bool := do
  return (← isAt 1 (.mark "(")) && (← wordAt 2) == some "set" && (← isAt 3 (.mark ")"))

/-- The words in front of a declaration. -/
def modifiers : Reader (List Modifier) :=
  repeatFrom [] fun (ms : List Modifier) => do
    match ← modifier? with
    | none => return .inr ms
    | some m =>
        if ← setFollows then
          let _ ← next; let _ ← next; let _ ← next; let _ ← next
          return .inl (ms ++ [Modifier.ofSet m])
        else
          let _ ← next
          return .inl (ms ++ [m])

/-! ### Blocks -/

/-- Statements up to a token for which `stop` holds or the end.  A failing statement is noted and
left out; if it read nothing, one token is dropped. -/
def statements (g : Grammar) (stop : TokenKind → Bool) : Reader (List Stmt) :=
  repeatFrom [] fun (ss : List Stmt) => do
    match ← kindAt 0 with
    | none => return .inr ss
    | some kind =>
        if stop kind then return .inr ss
        else
          let before := (← get).tokens.length
          try
            let s ← g.stmt
            return .inl (ss ++ [s])
          catch f =>
            note f
            if (← get).tokens.length == before then
              let _ ← next
            return .inl ss

/-- Statements in braces. -/
def block (g : Grammar) : Reader (Body Stmt) := do
  let opening ← expectMark "\x7b"
  let ss ← statements g (· == .mark "\x7d")
  let closing ← expectMark "\x7d"
  return ⟨opening.span.through closing.span, ss⟩

/-! ### Accessors and parameters -/

/-- The value behind an equals sign, if there is one. -/
def assigned (g : Grammar) : Reader (Option Expr) := do
  if ← eatMark "=" then some <$> g.expr 0 else return none

/-- The body of an accessor: nothing, a value behind an arrow, or a block. -/
def accessorBody (g : Grammar) : Reader (Option (Body Stmt)) := do
  if ← eatMark ";" then return none
  else if ← eatMark "=>" then
    let value ← g.expr 0
    let stop ← terminator
    let span : Span := ⟨value.span.start, stop⟩
    return some ⟨span, [.ret span (some value)]⟩
  else return some (← block g)

/-- A parameter without accessors.  A missing name is noted, and then there is no parameter. -/
def plainParameter (g : Grammar) : Reader (Option (Parameter Expr)) := do
  let start ← offset
  skipAttributes
  let ms ← modifiers
  let h ← hint?
  let byRef ← eatMark "&"
  let variadic ← eatMark "..."
  match ← eat .var with
  | none =>
      note (← missing ["Variable"])
      return none
  | some name =>
      let value ← assigned g
      return some
        { span := ⟨start, ← lastStop⟩, modifiers := ms, hint := h, byRef := byRef,
          variadic := variadic, name := name.text, default := value, hooked := false }

/-- A parameter list in brackets. -/
def parametersWith (parameter : Reader (Option (Parameter Expr))) :
    Reader (List (Parameter Expr)) := do
  let _ ← expectMark "("
  let ps ← commaList (· == .mark ")") parameter
  wantMark ")"
  return ps.filterMap id

/-- The parameters of an accessor, if there are any. -/
def accessorParameters (g : Grammar) : Reader (List (Parameter Expr)) := do
  if ← atMark "(" then parametersWith (plainParameter g) else return []

/-- One accessor of a property. -/
def accessor (g : Grammar) : Reader (FunctionDecl Expr Stmt) := do
  let start ← offset
  skipAttributes
  let ms ← modifiers
  let _ ← eatMark "&"
  let name ← memberName
  let ps ← accessorParameters g
  let body ← accessorBody g
  return { span := ⟨start, ← lastStop⟩, modifiers := ms, name := name, parameters := ps,
           returns := none, body := body }

/-- The accessors of a property, in braces. -/
def accessors (g : Grammar) : Reader (List (FunctionDecl Expr Stmt)) := do
  let _ ← expectMark "\x7b"
  let decls ← repeatFrom [] fun (ds : List (FunctionDecl Expr Stmt)) => do
    if (← atMark "\x7d") || (← atEnd) then return .inr ds else return .inl (ds ++ [← accessor g])
  let _ ← expectMark "\x7d"
  return decls

/-- A parameter, possibly with accessors. -/
def parameter (g : Grammar) : Reader (Option (Parameter Expr)) := do
  match ← plainParameter g with
  | none => return none
  | some p =>
      if ← atMark "\x7b" then
        let _ ← accessors g
        return some { p with hooked := true }
      else return some p

/-- The parameters between their brackets, with accessors where there are any. -/
def parameters (g : Grammar) : Reader (List (Parameter Expr)) := parametersWith (parameter g)

end Reader
end PhpAtlas
