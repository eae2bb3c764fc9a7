import PhpAtlas.Doc.TypeExpr

/-!
# Documentation comments

A documentation comment is free text followed by tags.  Each line is stripped of its decoration; a
line that begins with `@` opens a tag, which runs to the next one, and the lines before the first
tag are the description.  Reading collects the tags into a record; a set of tag kinds and an
optional item name select which tags are kept.

## Main definitions

* `TagKind`, `Tag` — the tags that are understood.
* `DocComment` — what a comment says.
* `DocComment.sections` — the description lines and the tag texts.
* `Tag.read` — one tag.
* `DocComment.read` — a whole comment.
* `DocComment.param?`, `DocComment.varFor?` — look-ups.
-/

namespace PhpAtlas

/-- The kinds of information that can be asked of a comment. -/
inductive TagKind
  | description
  | deprecated
  | inheritDoc
  | var
  | param
  | returns
  | throws
  | property
  | method
  deriving DecidableEq, Repr

namespace TagKind

/-- All kinds, in the order of their declaration. -/
def all : List TagKind :=
  [.description, .deprecated, .inheritDoc, .var, .param, .returns, .throws, .property, .method]

end TagKind

/-- A documented parameter. -/
structure ParamTag where
  /-- The name with its `$`. -/
  name : String
  type : Option DocType
  description : String
  variadic : Bool
  byRef : Bool
  deriving Repr

/-- A type with a description, for returned values and for exceptions. -/
structure TypeTag where
  type : DocType
  description : String
  deriving Repr

/-- A variable annotation. -/
structure VarTag where
  /-- The name with its `$`, when the tag names a variable. -/
  name : Option String
  type : DocType
  description : String
  deriving Repr

/-- A property that exists by documentation only. -/
structure PropertyTag where
  /-- The name without its `$`. -/
  name : String
  type : Option DocType
  readable : Bool
  writable : Bool
  description : String
  deriving Repr

/-- A parameter of a documented method. -/
structure MethodTagParam where
  name : String
  type : Option DocType
  default : Option String
  variadic : Bool
  byRef : Bool
  deriving Repr

/-- A method that exists by documentation only. -/
structure MethodTag where
  name : String
  static : Bool
  returns : Option DocType
  parameters : List MethodTagParam
  description : String
  deriving Repr

/-- One tag of a comment. -/
inductive Tag
  | deprecated
  | inheritDoc
  | param (tag : ParamTag)
  | returns (tag : TypeTag)
  | var (tag : VarTag)
  | throws (tag : TypeTag)
  | property (tag : PropertyTag)
  | method (tag : MethodTag)
  deriving Repr

/-- What a documentation comment says. -/
structure DocComment where
  short : String := ""
  long : String := ""
  deprecated : Bool := false
  inheritDoc : Bool := false
  params : List ParamTag := []
  returns : Option TypeTag := none
  vars : List VarTag := []
  throws : List TypeTag := []
  properties : List PropertyTag := []
  methods : List MethodTag := []
  deriving Repr

namespace Tag

/-- The kind of a tag. -/
def kind : Tag → TagKind
  | .deprecated => .deprecated
  | .inheritDoc => .inheritDoc
  | .param _ => .param
  | .returns _ => .returns
  | .var _ => .var
  | .throws _ => .throws
  | .property _ => .property
  | .method _ => .method

/-! ### Reading one tag -/

/-- The first word and what follows the blank behind it. -/
def firstWord (t : Text) : Text × Text := (Text.splitOnce? Text.isBlank t).getD (t, [])

/-- The trimmed text as a string. -/
def trimmed (t : Text) : String := String.ofList (Text.trim t)

/-- The type of a text, unless it is empty. -/
def typeOf? (t : Text) : Option DocType := if t.isEmpty then none else some (DocType.parse t)

/-- A type, a name with optional `&` and `...`, and a description.  The type may be missing. -/
def readParam (t : Text) : Option ParamTag :=
  let untyped := t.head? == some '$' || t.head? == some '&' || Text.startsWith ['.', '.', '.'] t
  let (type, rest) := if untyped then ([], t) else DocType.splitToken t
  let (word, description) := firstWord (Text.trimStart rest)
  let afterRef := Text.dropLeading '&' word
  let name := Text.dropLeadingCopies ['.', '.', '.'] afterRef.length afterRef
  if name.head? == some '$' && 2 ≤ name.length then
    some
      { name := String.ofList (Text.dropTrailing ',' name)
        type := typeOf? type
        description := trimmed description
        variadic := Text.startsWith ['.', '.', '.'] afterRef
        byRef := word.head? == some '&' }
  else none

/-- A type and a description. -/
def readType (t : Text) : Option TypeTag :=
  if t.isEmpty then none
  else
    let (type, description) := DocType.splitToken t
    some { type := DocType.parse type, description := trimmed description }

/-- A type, optionally the name of a variable, and a description. -/
def readVar (t : Text) : Option VarTag :=
  if t.isEmpty || t.head? == some '$' then none
  else
    let (type, rest) := DocType.splitToken t
    let rest := Text.trimStart rest
    let (word, description) := firstWord rest
    if word.head? == some '$' then
      some
        { name := some (String.ofList word)
          type := DocType.parse type
          description := trimmed description }
    else some { name := none, type := DocType.parse type, description := trimmed rest }

/-- A type, the name of a property, and a description.  The type may be missing. -/
def readProperty (readable writable : Bool) (t : Text) : Option PropertyTag :=
  let (type, rest) :=
    if t.head? == some '$' then (none, t)
    else
      let (type, rest) := DocType.splitToken t
      (some (DocType.parse type), rest)
  let (word, description) := firstWord (Text.trimStart rest)
  match word with
  | '$' :: c :: cs =>
      some
        { name := String.ofList (c :: cs)
          type := type
          readable := readable
          writable := writable
          description := trimmed description }
  | _ => none

/-- One parameter of a documented method: a type, `&`, `...`, a name, and a default after `=`. -/
def readMethodParam (t : Text) : Option MethodTagParam :=
  let (decl, default) :=
    match Text.splitOnce? (· == '=') t with
    | some (decl, default) => (Text.trim decl, some (trimmed default))
    | none => (t, none)
  match Text.splitOnce? (· == '$') decl with
  | none => none
  | some (front, name) =>
      let front := Text.trim front
      let beforeDots := Text.trimEnd (Text.dropTrailingCopies ['.', '.', '.'] front)
      let type := Text.trimEnd (Text.dropTrailing '&' beforeDots)
      some
        { name := trimmed ('$' :: name)
          type := typeOf? type
          default := default
          variadic := Text.endsWith ['.', '.', '.'] front
          byRef := Text.endsWith ['&'] beforeDots }

/-- Split the words before the parameter list of a method into the flag `static`, the words of the
return type, and the name. -/
def methodHead (t : Text) : Option (Bool × List Text × Text) :=
  let words := Text.words t
  match words.getLast? with
  | none => none
  | some name =>
      match words.dropLast with
      | [] => some (false, [], name)
      | w :: ws =>
          if Text.fold w == "static".toList then some (true, ws, name)
          else some (false, w :: ws, name)

/-- A method signature and a description.  The parameter list ends at the first closing bracket. -/
def readMethod (t : Text) : Option MethodTag :=
  match Text.splitOnce? (· == '(') t with
  | none => none
  | some (head, rest) =>
  match Text.splitOnce? (· == ')') rest with
  | none => none
  | some (inside, description) =>
  match methodHead head with
  | none => none
  | some (static, type, name) =>
      let parts := ((Text.splitAll (· == ',') inside).map Text.trim).filter (!·.isEmpty)
      some
        { name := String.ofList name
          static := static
          returns := typeOf? (Text.join [' '] type)
          parameters := parts.filterMap readMethodParam
          description := trimmed description }

/-- Read the text of a tag, which begins with `@`. -/
def read (t : Text) : Option Tag :=
  let (word, rest) := firstWord t
  let rest := Text.trim rest
  match String.ofList (Text.fold word) with
  | "@deprecated" => some .deprecated
  | "@inheritdoc" => some .inheritDoc
  | "@param" | "@phpstan-param" | "@psalm-param" => (readParam rest).map .param
  | "@return" | "@phpstan-return" | "@psalm-return" => (readType rest).map .returns
  | "@var" | "@phpstan-var" | "@psalm-var" => (readVar rest).map .var
  | "@throws" => (readType rest).map .throws
  | "@property" => (readProperty true true rest).map .property
  | "@property-read" => (readProperty true false rest).map .property
  | "@property-write" => (readProperty false true rest).map .property
  | "@method" => (readMethod rest).map .method
  | _ => none

/-- Whether a tag concerns the item: a variable annotation that names another variable does not. -/
def concerns (item : Option String) : Tag → Bool
  | .var tag => tag.name.isNone || item.isNone || tag.name == item
  | _ => true

end Tag

namespace DocComment

/-! ### Sections -/

/-- A line without blanks and stars at its front and blanks at its end. -/
def undecorate (line : Text) : Text := Text.trim (Text.dropLeading '*' (Text.trim line))

/-- The text between the comment marks, in undecorated lines. -/
def bodyLines (t : Text) : List Text :=
  let inner := Text.trim t
  let inner := (Text.stripStart? ['/', '*', '*'] inner).getD inner
  let inner := (Text.stripEnd? ['*', '/'] inner).getD inner
  (Text.lines inner).map undecorate

/-- A tag line with its continuation lines, joined by spaces. -/
def joinTag (line : Text) (more : List Text) : Text :=
  line ++ (more.filter (!·.isEmpty)).flatMap (' ' :: ·)

/-- The lines before the first tag, and the tags with their continuation lines. -/
def gather : List Text → List Text × List Text
  | [] => ([], [])
  | line :: rest =>
      let (free, tags) := gather rest
      if line.head? == some '@' then ([], joinTag line free :: tags) else (line :: free, tags)

/-- The description lines and the tag texts of a comment. -/
def sections (t : Text) : List Text × List Text := gather (bodyLines t)

/-- The first paragraph of the description. -/
def summary (lines : List Text) : String :=
  Tag.trimmed (Text.join [' '] ((lines.dropWhile (·.isEmpty)).takeWhile (!·.isEmpty)))

/-- The description behind its first paragraph. -/
def details (lines : List Text) : String :=
  let rest := ((lines.dropWhile (·.isEmpty)).dropWhile (!·.isEmpty)).dropWhile (·.isEmpty)
  String.ofList (Text.trimEnd (Text.join ['\n'] rest))

/-- The mark in a description that asks for the text of the ancestor. -/
def inheritMark : Text := "{@inheritdoc}".toList

/-- Whether the description asks for the text of the ancestor. -/
def marksInherit (lines : List Text) : Bool :=
  lines.any fun line => Text.hasInfix inheritMark (Text.fold line)

/-! ### Collecting -/

/-- Enter one tag.  A parameter replaces an earlier one of its name, the last return type wins, and
the other tags accumulate. -/
def enter (c : DocComment) : Tag → DocComment
  | .deprecated => { c with deprecated := true }
  | .inheritDoc => { c with inheritDoc := true }
  | .param tag => { c with params := c.params.filter (·.name != tag.name) ++ [tag] }
  | .returns tag => { c with returns := some tag }
  | .var tag => { c with vars := c.vars ++ [tag] }
  | .throws tag => { c with throws := c.throws ++ [tag] }
  | .property tag => { c with properties := c.properties ++ [tag] }
  | .method tag => { c with methods := c.methods ++ [tag] }

/-- What the description alone says. -/
def ofDescription (kinds : List TagKind) (lines : List Text) : DocComment :=
  { short := if kinds.contains .description then summary lines else ""
    long := if kinds.contains .description then details lines else ""
    inheritDoc := kinds.contains .inheritDoc && marksInherit lines }

/-- Read a comment, keeping the tags of the given kinds that concern the item. -/
def read (t : Text) (kinds : List TagKind) (item : Option String) : DocComment :=
  let (lines, tags) := sections t
  let kept := (tags.filterMap Tag.read).filter fun tag =>
    kinds.contains tag.kind && tag.concerns item
  kept.foldl enter (ofDescription kinds lines)

/-! ### Look-ups -/

/-- The tag of the parameter with this name. -/
def param? (c : DocComment) (name : String) : Option ParamTag := c.params.find? (·.name == name)

/-- The annotation that names the variable, else the first that names none. -/
def varFor? (c : DocComment) (name : String) : Option VarTag :=
  (c.vars.find? (·.name == some name)).or (c.vars.find? (·.name.isNone))

end DocComment

end PhpAtlas
