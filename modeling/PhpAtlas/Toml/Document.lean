import PhpAtlas.Toml.Scalar

/-!
# Reading settings

A document is a sequence of lines: headers of tables, headers of elements, and keys with values.
Arrays and tables in braces may run over several lines.

## Main definitions

* `Toml.readKey` — a key, perhaps with dots.
* `Toml.readValue` — a value.
* `Toml.readLine` — a line.
* `Toml.parse` — the table of a document.
-/

namespace PhpAtlas
namespace Toml

/-! ### Blanks -/

/-- The blanks that do not end a line. -/
def isLineBlank (c : Char) : Bool := c == ' ' || c == '\t'

/-- Drop blanks on a line. -/
def skipBlanks (t : Text) : Text := t.dropWhile isLineBlank

/-- Drop blanks, line breaks and comments. -/
def skipGap (inComment : Bool) : Text → Option Text
  | [] => some []
  | '\n' :: r => skipGap false r
  | '\r' :: '\n' :: r => skipGap false r
  | c :: r =>
      if inComment then if isPlain c then skipGap true r else none
      else if isLineBlank c then skipGap false r
      else if c == '#' then skipGap true r
      else some (c :: r)

/-- The rest behind the end of a line, in front of which only a comment may stand. -/
def endLine (inComment : Bool) : Text → Option Text
  | [] => some []
  | '\n' :: r => some r
  | '\r' :: '\n' :: r => some r
  | c :: r =>
      if inComment then if isPlain c then endLine true r else none
      else if isLineBlank c then endLine false r
      else if c == '#' then endLine true r
      else none

/-! ### Keys -/

/-- The characters of a key without quotes. -/
def isKeyChar (c : Char) : Bool := c.isAlphanum || c == '_' || c == '-'

/-- A part of a key. -/
def readKeyPart : Text → Option (String × Text)
  | '"' :: r => (readBasic r).map fun (cs, r) => (String.ofList cs, r)
  | '\'' :: r => (readLiteral r).map fun (cs, r) => (String.ofList cs, r)
  | t =>
      let word := t.takeWhile isKeyChar
      if word.isEmpty then none else some (String.ofList word, t.dropWhile isKeyChar)

/-- A key: parts with dots between them.  The path of all parts but the last, and the last. -/
def readKeyIn : (room : Nat) → Text → Option ((List String × String) × Text)
  | 0, _ => none
  | room + 1, t => do
      let (part, r) ← readKeyPart (skipBlanks t)
      match skipBlanks r with
      | '.' :: r => do
          let ((path, last), r) ← readKeyIn room r
          return ((part :: path, last), r)
      | r => return (([], part), r)

/-- A key with the blanks around it. -/
def readKey (t : Text) : Option ((List String × String) × Text) := readKeyIn (t.length + 1) t

/-! ### Values -/

/-- How deep arrays and tables in braces may be nested. -/
def depthLimit : Nat := 80

/-- A string that was read, as a value. -/
def textValue (r : Option (Text × Text)) : Option (Toml × Text) :=
  r.map fun (cs, r) => (.scalar (.text (String.ofList cs)), r)

mutual

/-- A value at a depth.  `room` bounds the number of steps. -/
def readValueIn : (room : Nat) → (depth : Nat) → Text → Option (Toml × Text)
  | 0, _, _ => none
  | room + 1, depth, t =>
      match t with
      | '"' :: '"' :: '"' :: r => textValue (readLongBasic r)
      | '"' :: r => textValue (readBasic r)
      | '\'' :: '\'' :: '\'' :: r => textValue (readLongLiteral r)
      | '\'' :: r => textValue (readLiteral r)
      | '[' :: r =>
          if depth < depthLimit then do
            let (items, r) ← readItems room (depth + 1) (← skipGap false r)
            return (.array items, r)
          else none
      | c :: r =>
          if c == Char.ofNat 123 then
            if depth < depthLimit then do
              let (t, r) ← readPairs room (depth + 1) (TomlTable.empty .inline)
                (← skipGap false r)
              return (.table t, r)
            else none
          else (readWord (c :: r)).map fun (s, r) => (.scalar s, r)
      | [] => none

/-- The values of an array up to its closing bracket. -/
def readItems : (room : Nat) → (depth : Nat) → Text → Option (List Toml × Text)
  | 0, _, _ => none
  | room + 1, depth, t =>
      match t with
      | ']' :: r => some ([], r)
      | t => do
          let (v, r) ← readValueIn room depth t
          match ← skipGap false r with
          | ',' :: r => do
              let (vs, r) ← readItems room depth (← skipGap false r)
              return (v :: vs, r)
          | ']' :: r => return ([v], r)
          | _ => none

/-- The keys and values of a table up to its closing brace. -/
def readPairs : (room : Nat) → (depth : Nat) → TomlTable → Text → Option (TomlTable × Text)
  | 0, _, _, _ => none
  | room + 1, depth, pairs, t =>
      if t.head? == some (Char.ofNat 125) then some (pairs, t.tail)
      else do
        let ((path, key), r) ← readKey t
        match r with
        | '=' :: r => do
            let (v, r) ← readValueIn room depth (skipBlanks r)
            let pairs ← TomlTable.putPair path key v pairs
            match ← skipGap false r with
            | ',' :: r => readPairs room depth pairs (← skipGap false r)
            | c :: r => if c == Char.ofNat 125 then some (pairs, r) else none
            | [] => none
        | _ => none

end

/-- A value. -/
def readValue (t : Text) : Option (Toml × Text) := readValueIn (2 * t.length + 2) 0 t

/-! ### Lines -/

/-- A document up to some line: its table, and the path of the table that lines go into. -/
structure Draft where
  root : TomlTable := TomlTable.empty .header
  current : List String := []

/-- Read a line and what it does to a document. -/
def readLine (d : Draft) (t : Text) : Option (Draft × Text) :=
  match skipBlanks t with
  | [] | '\n' :: _ | '\r' :: _ | '#' :: _ => (endLine false t).map (d, ·)
  | '[' :: '[' :: r => do
      let ((path, key), r) ← readKey r
      let r ← Text.stripStart? [']', ']'] r
      let root ← TomlTable.openElement path key d.root
      return (⟨root, path ++ [key]⟩, ← endLine false r)
  | '[' :: r => do
      let ((path, key), r) ← readKey r
      let r ← Text.stripStart? [']'] r
      let root ← TomlTable.openTable path key d.root
      return (⟨root, path ++ [key]⟩, ← endLine false r)
  | t => do
      let ((path, key), r) ← readKey t
      let r ← Text.stripStart? ['='] r
      let (v, r) ← readValue (skipBlanks r)
      let root ← TomlTable.enter false (TomlTable.putPair path key v) d.current d.root
      return ({ d with root := root }, ← endLine false r)

/-- Read lines to the end. -/
def readLines : (room : Nat) → Draft → Text → Option Draft
  | _, d, [] => some d
  | 0, _, _ => none
  | room + 1, d, t => do
      let (d, r) ← readLine d t
      readLines room d r

/-- The table of a document; a byte order mark may stand in front. -/
def parse (source : String) : Option TomlTable :=
  let t := Text.dropLeadingCopies [Char.ofNat 65279] 1 source.toList
  (readLines t.length {} t).map (·.root)

end Toml
end PhpAtlas
