import PhpAtlas.Name

/-!
# Types written in documentation comments

A documentation type such as `int|Foo[]` is free text.  Reading never fails: a fragment that makes
no sense is kept as a keyword with its raw text.  Reading a text is a recursion on its length: each
step takes the text apart at its outermost operator (`TypeForm.of`) and reads the pieces, which are
all shorter.

## Main definitions

* `DocType` — the tree of a documentation type.
* `TypeForm.of` — the outermost operator of a text, with its pieces.
* `DocType.parse`, `DocType.print` — from text to tree and back.
* `DocType.flatten` — the single type names of a tree.
* `DocType.isNullable` — whether `null` is among them.
* `DocType.splitToken` — the type at the front of a longer text.
-/

namespace PhpAtlas

/-- A documentation type. -/
inductive DocType
  /-- A classlike name as written. -/
  | named (name : String)
  /-- A list of elements, written with brackets or as a generic list. -/
  | array (element : DocType)
  /-- Alternatives. -/
  | union (members : List DocType)
  /-- A type or `null`. -/
  | nullable (inner : DocType)
  /-- An iterable class and the type of its values. -/
  | iterable (container value : DocType)
  /-- A word whose meaning depends on where it stands, such as `self`. -/
  | special (word : String)
  /-- A scalar, or a text that could not be understood. -/
  | keyword (text : String)
  deriving Repr, Inhabited

/-! ### The outermost operator -/

/-- How a character changes the depth of nesting. -/
def nesting (c : Char) : Int :=
  if c == '<' || c == '(' || c == '\x7b' || c == '[' then 1
  else if c == '>' || c == ')' || c == '\x7d' || c == ']' then -1
  else 0

/-- Cut at the separators that are not inside brackets, starting at the given depth. -/
def splitOuter (sep : Char) : (depth : Int) → Text → List Text
  | _, [] => [[]]
  | depth, c :: cs =>
      if c == sep && nesting c == 0 && depth == 0 then [] :: splitOuter sep 0 cs
      else
        match splitOuter sep (depth + nesting c) cs with
        | [] => [[c]]
        | w :: ws => (c :: w) :: ws

/-- The trimmed pieces of a text between its outer separators. -/
def outerParts (sep : Char) (t : Text) : List Text := (splitOuter sep 0 t).map Text.trim

/-- Whether the round bracket that brings the depth back to zero is the last character. -/
def closesAtEnd : (depth : Nat) → Text → Bool
  | _, [] => false
  | depth, c :: cs =>
      if c == '(' then closesAtEnd (depth + 1) cs
      else if c == ')' then if depth ≤ 1 then cs.isEmpty else closesAtEnd (depth - 1) cs
      else closesAtEnd depth cs

/-- The outermost operator of a trimmed text, with the pieces it joins. -/
inductive TypeForm
  | blank
  | union (parts : List Text)
  /-- Of an intersection only the first member counts. -/
  | intersection (first : Text)
  | nullable (rest : Text)
  | array (base : Text)
  | group (inner : Text)
  | generic (base : Text) (arguments : List Text)
  /-- A shape such as `array{id: int}`, of which only the base counts. -/
  | shape (base : Text)
  | atom
  deriving Repr

namespace TypeForm

/-- The text between round brackets that enclose all of it. -/
def group? (t : Text) : Option Text :=
  match t with
  | '(' :: rest => if closesAtEnd 0 t then some rest.dropLast else none
  | _ => none

/-- The base and the arguments of a generic type. -/
def generic? (t : Text) : Option (Text × List Text) :=
  match Text.splitOnce? (· == '<') t, Text.stripEnd? ['>'] t with
  | some (base, rest), some _ => some (base, outerParts ',' rest.dropLast)
  | _, _ => none

/-- What the single operand of a text without outer separators is. -/
def ofOperand (t : Text) : TypeForm :=
  match Text.stripStart? ['?'] t with
  | some rest => .nullable rest
  | none =>
  match Text.stripEnd? ['[', ']'] t with
  | some base => .array base
  | none =>
  match group? t with
  | some inner => .group inner
  | none =>
  match generic? t with
  | some (base, arguments) => .generic base arguments
  | none =>
  match Text.splitOnce? (· == '\x7b') t with
  | some (base, _) => .shape base
  | none => .atom

/-- Classify a trimmed text.  Alternatives bind weakest, then intersections. -/
def of (t : Text) : TypeForm :=
  if t.isEmpty then .blank
  else
    match outerParts '|' t with
    | p :: q :: ps => .union (p :: q :: ps)
    | _ =>
    match outerParts '&' t with
    | p :: _ :: _ => .intersection p
    | _ => ofOperand t

/-- The pieces that are read in turn. -/
def pieces : TypeForm → List Text
  | .blank => []
  | .union parts => parts
  | .intersection first => [first]
  | .nullable rest => [rest]
  | .array base => [base]
  | .group inner => [inner]
  | .generic base arguments => base :: arguments
  | .shape base => [base]
  | .atom => []

end TypeForm

/-! ### Pieces are shorter -/

theorem length_mem_splitOuter (sep : Char) (t : Text) (depth : Int) :
    ∀ w ∈ splitOuter sep depth t, w.length ≤ t.length := by
  induction t generalizing depth with
  | nil => simp [splitOuter]
  | cons c cs ih =>
    unfold splitOuter
    split
    · intro w hw
      rcases List.mem_cons.1 hw with rfl | hw
      · simp
      · have := ih 0 w hw
        simp only [List.length_cons]
        omega
    · split
      · simp
      · rename_i w ws heq
        intro v hv
        have hmem := ih (depth + nesting c)
        rw [heq] at hmem
        rcases List.mem_cons.1 hv with rfl | hv
        · have := hmem w (List.mem_cons_self ..)
          simp only [List.length_cons]
          omega
        · have := hmem v (List.mem_cons_of_mem _ hv)
          simp only [List.length_cons]
          omega

theorem splitOuter_ne_nil (sep : Char) (depth : Int) (t : Text) : splitOuter sep depth t ≠ [] := by
  cases t with
  | nil => simp [splitOuter]
  | cons c cs =>
    unfold splitOuter
    split
    · simp
    · split <;> simp

/-- With a separator found, every piece lacks at least that character. -/
theorem length_mem_splitOuter_lt (sep : Char) (t : Text) (depth : Int)
    (h : 2 ≤ (splitOuter sep depth t).length) :
    ∀ w ∈ splitOuter sep depth t, w.length < t.length := by
  induction t generalizing depth with
  | nil => simp [splitOuter] at h
  | cons c cs ih =>
    unfold splitOuter at h ⊢
    split at h
    · rename_i hsep
      rw [if_pos hsep]
      intro w hw
      rcases List.mem_cons.1 hw with rfl | hw
      · simp
      · have := length_mem_splitOuter sep cs 0 w hw
        simp only [List.length_cons]
        omega
    · rename_i hsep
      rw [if_neg hsep]
      have hlt := ih (depth + nesting c)
      have hle := length_mem_splitOuter sep cs (depth + nesting c)
      revert h
      cases hs : splitOuter sep (depth + nesting c) cs with
      | nil => simp
      | cons w ws =>
        intro h
        rw [hs] at hlt
        have hlt := hlt h
        intro v hv
        rcases List.mem_cons.1 hv with rfl | hv
        · have := hlt w (List.mem_cons_self ..)
          simp only [List.length_cons]
          omega
        · have := hlt v (List.mem_cons_of_mem _ hv)
          simp only [List.length_cons]
          omega

theorem length_mem_outerParts (sep : Char) (t : Text) :
    ∀ w ∈ outerParts sep t, w.length ≤ t.length := by
  intro w hw
  obtain ⟨v, hv, rfl⟩ := List.mem_map.1 hw
  exact Nat.le_trans (Text.length_trim_le v) (length_mem_splitOuter sep t 0 v hv)

theorem length_mem_outerParts_lt (sep : Char) (t : Text) (h : 2 ≤ (outerParts sep t).length) :
    ∀ w ∈ outerParts sep t, w.length < t.length := by
  intro w hw
  obtain ⟨v, hv, rfl⟩ := List.mem_map.1 hw
  have hv := length_mem_splitOuter_lt sep t 0 (by simpa [outerParts] using h) v hv
  exact Nat.lt_of_le_of_lt (Text.length_trim_le v) hv

namespace TypeForm

theorem length_splitOnce? {p : Char → Bool} {t a b : Text} (h : Text.splitOnce? p t = some (a, b)) :
    a.length + b.length + 1 = t.length := by
  induction t generalizing a b with
  | nil => simp [Text.splitOnce?] at h
  | cons c cs ih =>
    unfold Text.splitOnce? at h
    split at h
    · simp only [Option.some.injEq, Prod.mk.injEq] at h
      obtain ⟨rfl, rfl⟩ := h
      simp
    · obtain ⟨⟨a', b'⟩, h', heq⟩ := Option.map_eq_some_iff.1 h
      simp only [Prod.mk.injEq] at heq
      obtain ⟨rfl, rfl⟩ := heq
      have := ih h'
      simp only [List.length_cons]
      omega

theorem length_group? {t inner : Text} (h : group? t = some inner) : inner.length < t.length := by
  unfold group? at h
  split at h
  · split at h
    · cases h
      simp only [List.length_dropLast, List.length_cons]
      omega
    · simp at h
  · simp at h

theorem length_generic? {t base : Text} {arguments : List Text}
    (h : generic? t = some (base, arguments)) :
    base.length < t.length ∧ ∀ a ∈ arguments, a.length < t.length := by
  unfold generic? at h
  split at h
  · rename_i base' rest' inner hsplit hend
    simp only [Option.some.injEq, Prod.mk.injEq] at h
    obtain ⟨rfl, rfl⟩ := h
    have := length_splitOnce? hsplit
    refine ⟨by omega, fun a ha => ?_⟩
    have := length_mem_outerParts ',' rest'.dropLast a ha
    simp only [List.length_dropLast] at this
    omega
  · simp at h

theorem length_pieces_ofOperand (t : Text) : ∀ w ∈ (ofOperand t).pieces, w.length < t.length := by
  intro w hw
  unfold ofOperand at hw
  split at hw
  · rename_i rest h
    have := Text.length_stripStart? h
    simp only [pieces, List.mem_singleton] at hw
    subst hw
    simp only [List.length_singleton] at this
    omega
  split at hw
  · rename_i base h
    have := Text.length_stripEnd? h
    simp only [pieces, List.mem_singleton] at hw
    subst hw
    simp only [List.length_cons] at this
    omega
  split at hw
  · rename_i inner h
    simp only [pieces, List.mem_singleton] at hw
    subst hw
    exact length_group? h
  split at hw
  · rename_i base arguments h
    rcases List.mem_cons.1 hw with rfl | hw
    · exact (length_generic? h).1
    · exact (length_generic? h).2 w hw
  split at hw
  · rename_i base rest h
    have := length_splitOnce? h
    simp only [pieces, List.mem_singleton] at hw
    subst hw
    omega
  · simp [pieces] at hw

/-- Every piece of a text is shorter than the text. -/
theorem length_pieces_of (t : Text) : ∀ w ∈ (of t).pieces, w.length < t.length := by
  intro w hw
  unfold of at hw
  split at hw
  · simp [pieces] at hw
  split at hw
  · rename_i p q ps h
    exact length_mem_outerParts_lt '|' t (by simp [h]) w (h ▸ hw)
  split at hw
  · rename_i p q ps h
    refine length_mem_outerParts_lt '&' t (by simp [h]) w ?_
    simp only [pieces, List.mem_singleton] at hw
    simp [h, hw]
  · exact length_pieces_ofOperand t w hw

theorem length_pieces_trim (t : Text) : ∀ w ∈ (of (Text.trim t)).pieces, w.length < t.length :=
  fun w hw => Nat.lt_of_lt_of_le (length_pieces_of _ w hw) (Text.length_trim_le t)

end TypeForm

namespace DocType

/-! ### Atoms -/

/-- Scalar words with their canonical spelling. -/
def scalarWords : List (String × String) :=
  [("int", "int"), ("integer", "int"), ("float", "float"), ("double", "float"),
    ("string", "string"), ("bool", "bool"), ("boolean", "bool"), ("array", "array"),
    ("callable", "callable"), ("iterable", "iterable"), ("object", "object"),
    ("resource", "resource"), ("null", "null"), ("true", "true"), ("false", "false"),
    ("array-key", "array-key"), ("scalar", "scalar"), ("numeric", "numeric"),
    ("class-string", "class-string"), ("callable-string", "callable-string"),
    ("numeric-string", "numeric-string"), ("non-empty-string", "non-empty-string"),
    ("positive-int", "positive-int"), ("negative-int", "negative-int")]

/-- Words whose meaning depends on where they stand. -/
def specialWords : List String := ["self", "static", "parent", "$this", "mixed", "void", "never"]

/-- Generic containers whose last argument is the element type. -/
def listWords : List String := ["array", "list", "iterable", "non-empty-array", "non-empty-list"]

/-- Classes whose arguments name what a loop over them yields. -/
def iterableClasses : List String :=
  ["Traversable", "Iterator", "IteratorAggregate", "Generator", "ArrayIterator", "ArrayObject"]

/-- Whether a text is one segment of a name. -/
def isSegment : Text → Bool
  | [] => false
  | c :: cs => Name.isStart c && cs.all Name.isRest

/-- Whether a text is a classlike name, possibly qualified. -/
def isClassName (t : Text) : Bool :=
  let body := (Text.stripStart? ['\\'] t).getD t
  !body.isEmpty && (Text.splitAll (· == '\\') body).all isSegment

/-- Read a text without operators. -/
def ofAtom (t : Text) : DocType :=
  let folded := String.ofList (Text.fold t)
  match scalarWords.find? (·.1 == folded) with
  | some (_, canonical) => .keyword canonical
  | none =>
      if specialWords.contains folded then .special folded
      else if isClassName t then .named (String.ofList t)
      else .keyword (String.ofList t)

/-! ### Reading -/

/-- The members that a type adds to a union: nested unions are spread. -/
def alternatives : DocType → List DocType
  | .union members => members
  | other => [other]

/-- What the arguments of a generic type say about its values. -/
inductive Elements
  /-- A list of the type of this text. -/
  | list (element : Text)
  /-- An iterable class with values of the type of this text. -/
  | values (value : Text)
  /-- Nothing. -/
  | unknown

/-- The argument that names the values of an iterable class: the second one of a generator that has
it, else the last. -/
def valueArgument (name : String) (arguments : List Text) : Text :=
  match arguments with
  | _ :: second :: rest =>
      if foldEq name "Generator" then second else (second :: rest).getLast?.getD []
  | args => args.getLast?.getD []

/-- What the arguments of a generic type say, by its base.  Lists take their last argument, and an
iterable class needs a value argument that is not empty. -/
def elementsOf (base : Text) (arguments : List Text) : Elements :=
  if foldMem (String.ofList base) listWords then .list (arguments.getLast?.getD [])
  else
    let name := String.ofList (Text.dropLeading '\\' base)
    let value := valueArgument name arguments
    if foldMem name iterableClasses && !value.isEmpty then .values value else .unknown

theorem getLast?_getD_mem (args : List Text) :
    args.getLast?.getD [] = [] ∨ args.getLast?.getD [] ∈ args := by
  cases h : args.getLast? with
  | none => exact .inl rfl
  | some a => exact .inr (List.mem_of_getLast? h)

theorem valueArgument_mem (name : String) (arguments : List Text) :
    valueArgument name arguments = [] ∨ valueArgument name arguments ∈ arguments := by
  unfold valueArgument
  split
  · rename_i first second rest
    split
    · simp
    · rcases getLast?_getD_mem (second :: rest) with h | h
      · exact .inl h
      · exact .inr (List.mem_cons_of_mem _ h)
  · exact getLast?_getD_mem arguments

theorem elementsOf_list_mem {base element : Text} {arguments : List Text}
    (h : elementsOf base arguments = .list element) : element = [] ∨ element ∈ arguments := by
  unfold elementsOf at h
  split at h
  · cases h
    exact getLast?_getD_mem arguments
  · dsimp only at h
    split at h <;> cases h

theorem elementsOf_values_mem {base value : Text} {arguments : List Text}
    (h : elementsOf base arguments = .values value) : value ∈ arguments := by
  unfold elementsOf at h
  split at h
  · cases h
  · dsimp only at h
    split at h
    · rename_i hv
      cases h
      refine (valueArgument_mem _ arguments).resolve_left fun hnil => ?_
      simp [hnil] at hv
    · cases h

/-- Read a documentation type.  The empty text means `mixed`. -/
def parse (t : Text) : DocType :=
  match _h : TypeForm.of (Text.trim t) with
  | .blank => .special "mixed"
  | .union parts => .union (parts.attach.flatMap fun part => alternatives (parse part.1))
  | .intersection first => parse first
  | .nullable rest => .nullable (parse rest)
  | .array base => .array (parse base)
  | .group inner => parse inner
  | .generic base arguments =>
      match _hv : elementsOf base arguments with
      | .list element => .array (parse element)
      | .values value => .iterable (parse base) (parse value)
      | .unknown => parse base
  | .shape base => parse base
  | .atom => ofAtom (Text.trim t)
termination_by t.length
decreasing_by
  all_goals
    have shorter := TypeForm.length_pieces_trim t
    rw [_h] at shorter
    simp only [TypeForm.pieces, List.mem_cons, List.not_mem_nil, or_false, forall_eq_or_imp,
      forall_eq] at shorter
  · exact shorter _ part.2
  · exact shorter
  · exact shorter
  · exact shorter
  · exact shorter
  · rcases elementsOf_list_mem _hv with rfl | hm
    · have := shorter.1
      simp only [List.length_nil]
      omega
    · exact shorter.2 _ hm
  · exact shorter.1
  · exact shorter.2 _ (elementsOf_values_mem _hv)
  · exact shorter.1
  · exact shorter

/-- Read a documentation type from a string. -/
def ofString (s : String) : DocType := parse s.toList

/-! ### Writing -/

/-- Whether brackets go around the type under `[]`. -/
def isOperand : DocType → Bool
  | .union _ | .nullable _ => true
  | _ => false

/-- Whether brackets go around the type under `?`. -/
def isUnion : DocType → Bool
  | .union _ => true
  | _ => false

mutual

/-- Write a type.  Brackets keep a union or a nullable type together under `[]`, and a union under
`?`. -/
def print : DocType → Text
  | .named name => name.toList
  | .special word => word.toList
  | .keyword text => text.toList
  | .array element =>
      (if isOperand element then '(' :: print element ++ [')'] else print element) ++ ['[', ']']
  | .union members => Text.join ['|'] (printAll members)
  | .nullable inner =>
      '?' :: (if isUnion inner then '(' :: print inner ++ [')'] else print inner)
  | .iterable container value => print container ++ '<' :: print value ++ ['>']

/-- Write each of several types. -/
def printAll : List DocType → List Text
  | [] => []
  | m :: ms => print m :: printAll ms

end

/-- The text of a type. -/
def display (t : DocType) : String := String.ofList t.print

/-! ### Single type names -/

/-- Add the names that are not yet there, in order. -/
def addNew (names more : List String) : List String :=
  more.foldl (fun acc s => if acc.contains s then acc else acc ++ [s]) names

mutual

/-- The single type names of a type: unions are spread, a nullable type adds `null`, an array
appends `[]` to each name of its element, and an iterable class is followed by its values as an
array. -/
def flatten : DocType → List String
  | .named name => [name]
  | .special word => [word]
  | .keyword text => [text]
  | .array element => (flatten element).map (· ++ "[]")
  | .union members => addNew [] (flattenAll members)
  | .nullable inner => addNew (flatten inner) ["null"]
  | .iterable container value => addNew (flatten container) ((flatten value).map (· ++ "[]"))

/-- The names of several types, one after the other. -/
def flattenAll : List DocType → List String
  | [] => []
  | m :: ms => flatten m ++ flattenAll ms

end

mutual

/-- Whether the type allows `null` by its outermost operators. -/
def isNullable : DocType → Bool
  | .nullable _ => true
  | .keyword text => text == "null"
  | .union members => anyNullable members
  | _ => false

/-- Whether one of several types is nullable. -/
def anyNullable : List DocType → Bool
  | [] => false
  | m :: ms => isNullable m || anyNullable ms

end

/-! ### The type at the front of a text -/

/-- How a character changes the depth of nesting inside a tag.  Square brackets do not count. -/
def tagNesting (c : Char) : Int :=
  if c == '<' || c == '(' || c == '\x7b' then 1
  else if c == '>' || c == ')' || c == '\x7d' then -1
  else 0

/-- The type token at the front of a text without leading blanks.  It ends at a blank outside of
brackets, unless the blank stands beside a bar.  `afterBar` tells whether the last character that
was not blank is a bar. -/
def takeToken : (depth : Int) → (afterBar : Bool) → Text → Text × Text
  | _, _, [] => ([], [])
  | depth, afterBar, c :: cs =>
      let beforeBar := (Text.trimStart cs).head? == some '|'
      if Text.isBlank c && depth == 0 && !afterBar && !beforeBar then ([], c :: cs)
      else
        let (token, rest) :=
          takeToken (depth + tagNesting c) (if Text.isBlank c then afterBar else c == '|') cs
        (c :: token, rest)

/-- Split off the type at the front of a text. -/
def splitToken (t : Text) : Text × Text := takeToken 0 false (Text.trimStart t)

end DocType

end PhpAtlas
