import PhpAtlas.Proofs.Doc.Tokens

/-!
# Tags that are written line by line

A tag that gives a type is written on one line of a comment: its word, the type, perhaps a name, and
a description.  On the way back the text is cut into lines, each line loses its decoration, the word
decides how the rest is read, and the type is what stands in front of the first blank.  Nothing is
lost on this way.

## Main definitions

* `TypedTag` — the tags that give a type.
* `TypedTag.line`, `DocComment.write` — a tag as a line, and tags as a comment.
* `TypedTag.Writable` — the tags that can be written on one line.
* `DocComment.collect` — what tags say together.

## Main results

* `Tag.readType_append`, `Tag.readParam_append`, `Tag.readProperty_append` — reading each form.
* `TypedTag.Writable.read` — a tag is read back from its line.
* `DocComment.bodyLines_flatMap`, `DocComment.gather_concat_nil` — the lines and tags of a comment.
* `DocComment.read_write` — **tags are read back from the comment they are written in.**
-/

namespace PhpAtlas

open Text

namespace Tag

/-! ### Reading one tag -/

variable {type : DocType} {name d : Text}

theorem head?_marks (byRef variadic : Bool) (rest : Text) :
    (marks byRef variadic ++ '$' :: rest).head? ≠ some '|' := by
  cases byRef <;> cases variadic <;> simp [marks]

theorem readType_append (htype : type.Unbroken) (hd : Tight d) (hbar : d.head? ≠ some '|') :
    readType (type.print ++ behind d) = some ⟨type, String.ofList d⟩ := by
  have hne : (type.print ++ behind d).isEmpty = false := by simp [htype.isToken.ne_nil]
  rw [readType, hne, DocType.splitToken_append_behind htype.isToken htype.solid hd hbar]
  simp [trimmed, trim_behind hd, htype.parse_print]

/-- The type of a tag that names something: it ends at the space in front of the name. -/
theorem splitToken_name (htype : type.Unbroken) {w : Text} (hw : Solid w) (hne : w ≠ [])
    (hbar : w.head? ≠ some '|') (hd : Tight d) :
    DocType.splitToken (type.print ++ ' ' :: (w ++ behind d)) =
      (type.print, ' ' :: (w ++ behind d)) := by
  rw [← behind_of_ne_nil (by simp [hne])]
  refine DocType.splitToken_append_behind htype.isToken htype.solid
    (tight_append_behind hw.tight hne hd) ?_
  rwa [List.head?_append_of_ne_nil _ hne]

/-- The name and the description behind the type. -/
theorem firstWord_name {w : Text} (hw : Solid w) (hne : w ≠ []) (d : Text) :
    firstWord (trimStart (' ' :: (w ++ behind d))) = (w, d) := by
  have hstart : trimStart (w ++ behind d) = w ++ behind d := by
    refine dropWhile_of_head fun c hc => ?_
    rw [List.head?_append_of_ne_nil _ hne] at hc
    exact hw.tight.1 c hc
  rw [← behind_of_ne_nil (by simp [hne]), trimStart_behind, hstart, firstWord_append_behind hw]

theorem readProperty_append (readable writable : Bool) (htype : type.Unbroken)
    (hhead : type.print.head? ≠ some '$') (hname : Solid name) (hne : name ≠ []) (hd : Tight d) :
    readProperty readable writable (type.print ++ ' ' :: ('$' :: name ++ behind d)) =
      some ⟨String.ofList name, some type, readable, writable, String.ofList d⟩ := by
  have hw : Solid ('$' :: name) := Solid.cons (by decide) hname
  have hstart : ((type.print ++ ' ' :: ('$' :: name ++ behind d)).head? == some '$') = false := by
    rw [List.head?_append_of_ne_nil _ htype.isToken.ne_nil]
    simpa using hhead
  obtain ⟨c, cs, rfl⟩ := List.exists_cons_of_ne_nil hne
  simp only [readProperty, hstart, splitToken_name htype hw (by simp) (by simp) hd,
    firstWord_name hw (by simp), Bool.false_eq_true, if_false, htype.parse_print, trimmed,
    hd.trim_eq]

theorem dropLeading_marks (byRef variadic : Bool) (rest : Text) :
    dropLeading '&' (marks byRef variadic ++ '$' :: rest) =
      marks false variadic ++ '$' :: rest := by
  cases byRef <;> cases variadic <;> simp [marks, dropLeading]

theorem dropLeadingCopies_marks (variadic : Bool) (rest : Text) :
    dropLeadingCopies ['.', '.', '.'] (marks false variadic ++ '$' :: rest).length
      (marks false variadic ++ '$' :: rest) = '$' :: rest := by
  cases variadic <;> simp [marks, dropLeadingCopies, stripStart?]

theorem readParam_append (byRef variadic : Bool) (htype : type.Unbroken)
    (hhead : type.print.head? ≠ some '$') (hname : Solid name) (hne : name ≠ [])
    (hcomma : name.getLast? ≠ some ',') (hd : Tight d) :
    readParam (type.print ++ ' ' :: (marks byRef variadic ++ '$' :: name ++ behind d)) =
      some ⟨String.ofList ('$' :: name), some type, String.ofList d, variadic, byRef⟩ := by
  have hw : Solid (marks byRef variadic ++ '$' :: name) :=
    (solid_marks byRef variadic).append (Solid.cons (by decide) hname)
  have htyped : ∀ rest, ((type.print ++ rest).head? == some '$' ||
      (type.print ++ rest).head? == some '&' ||
      startsWith ['.', '.', '.'] (type.print ++ rest)) = false := by
    intro rest
    obtain ⟨c, cs, hprint⟩ := List.exists_cons_of_ne_nil htype.isToken.ne_nil
    have hmem : c ∈ type.print := by simp [hprint]
    have hne : ∀ e, DocType.isTypeChar e = false → c ≠ e := by
      rintro e he rfl
      exact htype.isToken.not_mem he hmem
    rw [hprint] at hhead ⊢
    have hdollar : c ≠ '$' := by simpa using hhead
    simp [hdollar, hne '&' (by decide), Ne.symm (hne '.' (by decide)), startsWith, stripStart?]
  have hcomma' : dropTrailing ',' ('$' :: name) = '$' :: name := by
    refine dropTrailing_of_getLast? ?_
    rwa [← List.singleton_append, List.getLast?_append_of_ne_nil _ hne]
  simp only [readParam, htyped, Bool.false_eq_true, if_false,
    splitToken_name htype hw (by simp) (head?_marks byRef variadic name) hd,
    firstWord_name hw (by simp), dropLeading_marks, dropLeadingCopies_marks, hcomma', typeOf?,
    htype.parse_print, trimmed, hd.trim_eq]
  cases byRef <;> cases variadic <;>
    simp [marks, startsWith, stripStart?, htype.isToken.ne_nil, hne]

end Tag

/-- A tag that gives the type of a value. -/
inductive TypedTag
  | param (tag : ParamTag)
  | returns (tag : TypeTag)
  | throws (tag : TypeTag)
  | property (tag : PropertyTag)

namespace TypedTag

/-! ### Writing -/

/-- The tag itself. -/
def toTag : TypedTag → Tag
  | .param tag => .param tag
  | .returns tag => .returns tag
  | .throws tag => .throws tag
  | .property tag => .property tag

/-- The parameter that a tag documents. -/
def param? : TypedTag → Option ParamTag
  | .param tag => some tag
  | _ => none

/-- The result that a tag documents. -/
def returns? : TypedTag → Option TypeTag
  | .returns tag => some tag
  | _ => none

/-- The exception that a tag documents. -/
def throws? : TypedTag → Option TypeTag
  | .throws tag => some tag
  | _ => none

/-- The property that a tag documents. -/
def property? : TypedTag → Option PropertyTag
  | .property tag => some tag
  | _ => none

/-- The word that begins the tag. -/
def word : TypedTag → String
  | .param _ => "@param"
  | .returns _ => "@return"
  | .throws _ => "@throws"
  | .property tag =>
      if !tag.writable then "@property-read"
      else if !tag.readable then "@property-write" else "@property"

/-- What stands behind the word: the type, with the name where there is one. -/
def subject : TypedTag → Text
  | .param tag =>
      Tag.typeText tag.type ++ ' ' :: (Tag.marks tag.byRef tag.variadic ++ tag.name.toList)
  | .returns tag => tag.type.print
  | .throws tag => tag.type.print
  | .property tag => Tag.typeText tag.type ++ ' ' :: '$' :: tag.name.toList

/-- What stands behind the type and the name. -/
def description : TypedTag → Text
  | .param tag => tag.description.toList
  | .returns tag => tag.description.toList
  | .throws tag => tag.description.toList
  | .property tag => tag.description.toList

/-- The line of a tag in a comment. -/
def line (tag : TypedTag) : Text :=
  " * ".toList ++ (tag.word.toList ++ ' ' :: (tag.subject ++ ' ' :: tag.description))

/-- A description stands on one line, has no blanks at its ends, and begins with no bar. -/
structure IsDescription (d : Text) : Prop where
  tight : Tight d
  line : '\n' ∉ d
  bar : d.head? ≠ some '|'

/-- The tags that can be written on one line. -/
inductive Writable : TypedTag → Prop
  | param {type : DocType} {name d : Text} (byRef variadic : Bool) (htype : type.Unbroken)
      (hhead : type.print.head? ≠ some '$') (hname : Solid name) (hne : name ≠ [])
      (hcomma : name.getLast? ≠ some ',') (hd : IsDescription d) :
      Writable (.param
        ⟨String.ofList ('$' :: name), some type, String.ofList d, variadic, byRef⟩)
  | returns {type : DocType} {d : Text} (htype : type.Unbroken) (hd : IsDescription d) :
      Writable (.returns ⟨type, String.ofList d⟩)
  | throws {type : DocType} {d : Text} (htype : type.Unbroken) (hd : IsDescription d) :
      Writable (.throws ⟨type, String.ofList d⟩)
  | property {type : DocType} {name d : Text} {readable writable : Bool}
      (haccess : (readable || writable) = true) (htype : type.Unbroken)
      (hhead : type.print.head? ≠ some '$') (hname : Solid name) (hne : name ≠ [])
      (hd : IsDescription d) :
      Writable (.property
        ⟨String.ofList name, some type, readable, writable, String.ofList d⟩)

/-! ### Reading back one tag -/

variable {tag : TypedTag}

theorem Writable.isDescription (h : tag.Writable) : IsDescription tag.description := by
  cases h with
  | _ => simpa [description] using ‹IsDescription _›

/-- Behind the word of a tag stands a type, and perhaps a name. -/
theorem Writable.subject_eq (h : tag.Writable) : ∃ type : DocType, type.Unbroken ∧
    (tag.subject = type.print ∨ ∃ w, Solid w ∧ w ≠ [] ∧ tag.subject = type.print ++ ' ' :: w) := by
  cases h with
  | @param type name d byRef variadic htype hhead hname hne hcomma hd =>
    refine ⟨type, htype, .inr ⟨Tag.marks byRef variadic ++ '$' :: name, ?_, by simp, ?_⟩⟩
    · exact (Tag.solid_marks _ _).append (Solid.cons (by decide) hname)
    · simp [subject, Tag.typeText]
  | returns htype hd => exact ⟨_, htype, .inl rfl⟩
  | throws htype hd => exact ⟨_, htype, .inl rfl⟩
  | @property type name d readable writable haccess htype hhead hname hne hd =>
    refine ⟨type, htype, .inr ⟨'$' :: name, Solid.cons (by decide) hname, by simp, ?_⟩⟩
    simp [subject, Tag.typeText]

theorem Writable.tight_subject (h : tag.Writable) : Tight tag.subject := by
  obtain ⟨type, htype, hsubject | ⟨w, hw, hne, hsubject⟩⟩ := h.subject_eq
  · rw [hsubject]
    exact htype.solid.tight
  · rw [hsubject, ← behind_of_ne_nil hne]
    exact tight_append_behind htype.solid.tight htype.isToken.ne_nil hw.tight

theorem Writable.subject_ne_nil (h : tag.Writable) : tag.subject ≠ [] := by
  obtain ⟨type, htype, hsubject | ⟨w, hw, hne, hsubject⟩⟩ := h.subject_eq
  · rw [hsubject]
    exact htype.isToken.ne_nil
  · simp [hsubject]

theorem solid_word (tag : TypedTag) : Solid tag.word.toList := by
  cases tag with
  | property tag =>
    rw [word]
    split_ifs <;> decide
  | _ =>
    rw [word]
    decide

/-- What is left of the line of a tag when it is read. -/
def text (tag : TypedTag) : Text :=
  tag.word.toList ++ ' ' :: (tag.subject ++ behind tag.description)

theorem Writable.firstWord_text (h : tag.Writable) :
    Tag.firstWord tag.text = (tag.word.toList, tag.subject ++ behind tag.description) := by
  rw [text, ← behind_of_ne_nil (by simp [h.subject_ne_nil])]
  exact Tag.firstWord_append_behind tag.solid_word _

theorem Writable.read (h : tag.Writable) : Tag.read tag.text = some tag.toTag := by
  have hrest : trim (tag.subject ++ behind tag.description) =
      tag.subject ++ behind tag.description :=
    (tight_append_behind h.tight_subject h.subject_ne_nil h.isDescription.tight).trim_eq
  rw [Tag.read, h.firstWord_text]
  dsimp only
  rw [hrest]
  cases h with
  | @param type name d byRef variadic htype hhead hname hne hcomma hd =>
    have hread := Tag.readParam_append byRef variadic htype hhead hname hne hcomma hd.tight
    simpa [word, Text.fold, subject, description, Tag.typeText, toTag] using hread
  | returns htype hd =>
    have hread := Tag.readType_append htype hd.tight hd.bar
    simpa [word, Text.fold, subject, description, toTag] using hread
  | throws htype hd =>
    have hread := Tag.readType_append htype hd.tight hd.bar
    simpa [word, Text.fold, subject, description, toTag] using hread
  | @property type name d readable writable haccess htype hhead hname hne hd =>
    have hread := Tag.readProperty_append readable writable htype hhead hname hne hd.tight
    rcases readable with _ | _ <;> rcases writable with _ | _
    · cases haccess
    all_goals simpa [word, Text.fold, subject, description, Tag.typeText, toTag] using hread

/-- A tag has no line feeds, as these are blanks. -/
theorem Writable.newline (h : tag.Writable) : '\n' ∉ tag.line := by
  have hsolid : ∀ {t : Text}, Solid t → '\n' ∉ t := fun ht hmem => nomatch ht _ hmem
  have hword := hsolid tag.solid_word
  have hdescription := h.isDescription.line
  obtain ⟨type, htype, hsubject | ⟨w, hw, hne, hsubject⟩⟩ := h.subject_eq
  · simp [line, hword, hdescription, hsubject, hsolid htype.solid]
  · simp [line, hword, hdescription, hsubject, hsolid htype.solid, hsolid hw]

theorem head?_word (tag : TypedTag) : tag.word.toList.head? = some '@' := by
  cases tag with
  | property tag =>
    rw [word]
    split_ifs <;> decide
  | _ =>
    rw [word]
    decide

theorem word_ne_nil (tag : TypedTag) : tag.word.toList ≠ [] := by
  intro hnil
  have hhead := tag.head?_word
  rw [hnil] at hhead
  cases hhead

end TypedTag

namespace DocComment

/-! ### Sections -/

theorem undecorate_dropReturn (w : Text) : undecorate (dropReturn w) = undecorate w := by
  rw [undecorate, trim_dropReturn, undecorate]

/-- The decoration of a line is left out. -/
theorem undecorate_line {a d : Text} (ha : Tight a) (hne : a ≠ []) (hd : Tight d) :
    undecorate (" * ".toList ++ (a ++ ' ' :: d)) = a ++ behind d := by
  have hstar : Tight ('*' :: ' ' :: a) := by
    refine ⟨fun c hc => ?_, fun c hc => ?_⟩
    · obtain rfl := Option.some.inj hc
      decide
    · rw [List.getLast?_cons_cons, ← List.singleton_append,
        List.getLast?_append_of_ne_nil _ hne] at hc
      exact ha.2 c hc
  have htrim : trim (" * ".toList ++ (a ++ ' ' :: d)) = '*' :: ' ' :: a ++ behind d :=
    trim_append_space hstar (by simp) hd
  have hdrop : dropLeading '*' ('*' :: ' ' :: a ++ behind d) = behind (a ++ behind d) := by
    rw [behind_of_ne_nil (t := a ++ behind d) (by simp [hne])]
    rfl
  rw [undecorate, htrim, hdrop, trim_behind (tight_append_behind ha hne hd)]

theorem undecorate_tag {tag : TypedTag} (h : tag.Writable) : undecorate tag.line = tag.text := by
  have htight : Tight (tag.word.toList ++ ' ' :: tag.subject) := by
    rw [← behind_of_ne_nil h.subject_ne_nil]
    exact tight_append_behind tag.solid_word.tight tag.word_ne_nil h.tight_subject
  have hline := undecorate_line htight (by simp) h.isDescription.tight
  simp only [List.append_assoc, List.cons_append] at hline
  exact hline

theorem joinTag_blank {more : List Text} (h : ∀ l ∈ more, l = []) (line : Text) :
    joinTag line more = line := by
  have hnone : more.filter (!·.isEmpty) = [] := by
    rw [List.filter_eq_nil_iff]
    intro l hl
    simp [h l hl]
  rw [joinTag, hnone, List.flatMap_nil, List.append_nil]

/-- Lines that begin tags, and an empty one behind them. -/
theorem gather_concat_nil {texts : List Text} (h : ∀ t ∈ texts, t.head? = some '@') :
    (gather (texts ++ [[]])).2 = texts ∧ ∀ l ∈ (gather (texts ++ [[]])).1, l = [] := by
  induction texts with
  | nil => simp [gather]
  | cons t texts ih =>
    obtain ⟨ht, htexts⟩ := List.forall_mem_cons.1 h
    obtain ⟨htags, hfree⟩ := ih htexts
    simp [gather, ht, joinTag_blank hfree, htags]

theorem ofDescription_blank {lines : List Text} (h : ∀ l ∈ lines, l = []) (kinds : List TagKind) :
    ofDescription kinds lines = {} := by
  have hdrop : lines.dropWhile (·.isEmpty) = [] := by
    rw [List.dropWhile_eq_nil_iff]
    intro l hl
    simp [h l hl]
  have hmark : marksInherit lines = false := by
    rw [marksInherit, List.any_eq_false]
    intro l hl
    rw [h l hl]
    decide
  have hshort : summary lines = "" := by
    rw [summary, hdrop]
    decide
  have hlong : details lines = "" := by
    rw [details, hdrop]
    decide
  simp [ofDescription, hshort, hlong, hmark]

/-! ### Comments -/

/-- The tags as a comment, each on a line. -/
def write (tags : List TypedTag) : Text :=
  "/**".toList ++ (tags.map TypedTag.line).flatMap ('\n' :: ·) ++ "\n */".toList

/-- What tags say together: the tags of each kind in order, and the last result. -/
def collect (tags : List TypedTag) : DocComment where
  params := tags.filterMap TypedTag.param?
  returns := (tags.filterMap TypedTag.returns?).getLast?
  throws := tags.filterMap TypedTag.throws?
  properties := tags.filterMap TypedTag.property?

/-- The lines of a comment whose marks stand on lines of their own. -/
theorem bodyLines_flatMap {ws : List Text} (h : ∀ w ∈ ws, '\n' ∉ w) :
    bodyLines ("/**".toList ++ ws.flatMap ('\n' :: ·) ++ "\n */".toList) =
      [] :: ws.map undecorate ++ [[]] := by
  have htight : Tight ("/**".toList ++ ws.flatMap ('\n' :: ·) ++ "\n */".toList) := by
    refine tight_of_ends (c := '/') (d := '/') rfl ?_ (by decide) (by decide)
    rw [List.getLast?_append_of_ne_nil _ (by decide)]
    decide
  have hstart : stripStart? ['/', '*', '*']
      ("/**".toList ++ ws.flatMap ('\n' :: ·) ++ "\n */".toList) =
        some (ws.flatMap ('\n' :: ·) ++ "\n */".toList) :=
    stripStart?_eq_some_iff.2 (List.append_assoc ..)
  have hend : stripEnd? ['*', '/'] (ws.flatMap ('\n' :: ·) ++ "\n */".toList) =
      some ((ws ++ [[' ']]).flatMap ('\n' :: ·)) :=
    stripEnd?_eq_some_iff.2 (by simp)
  have hlines : lines ((ws ++ [[' ']]).flatMap ('\n' :: ·)) =
      [] :: ws.map dropReturn ++ [[' ']] :=
    lines_flatMap_concat (by simp) (List.forall_mem_append.2 ⟨h, by simp⟩)
  have hundecorate : (ws.map dropReturn).map undecorate = ws.map undecorate := by
    rw [List.map_map]
    exact List.map_congr_left fun w _ => undecorate_dropReturn w
  rw [bodyLines, htight.trim_eq, hstart]
  dsimp only [Option.getD_some]
  rw [hend, Option.getD_some, hlines, List.map_append, List.map_cons, hundecorate]
  rfl

theorem bodyLines_write {tags : List TypedTag} (h : ∀ tag ∈ tags, tag.Writable) :
    bodyLines (write tags) = [] :: tags.map TypedTag.text ++ [[]] := by
  have hlines : ∀ w ∈ tags.map TypedTag.line, '\n' ∉ w := by
    intro w hw
    obtain ⟨tag, htag, rfl⟩ := List.mem_map.1 hw
    exact (h tag htag).newline
  have htexts : (tags.map TypedTag.line).map undecorate = tags.map TypedTag.text := by
    rw [List.map_map]
    exact List.map_congr_left fun tag htag => undecorate_tag (h tag htag)
  rw [write, bodyLines_flatMap hlines, htexts]

theorem foldl_enter_toTag {tags : List TypedTag}
    (hnames : ((tags.filterMap TypedTag.param?).map (·.name)).Nodup) :
    (tags.map TypedTag.toTag).foldl enter {} = collect tags := by
  induction tags using List.reverseRecOn with
  | nil => rfl
  | append_singleton tags tag ih =>
    rw [List.filterMap_append, List.map_append, List.nodup_append] at hnames
    obtain ⟨hearlier, -, hnew⟩ := hnames
    rw [List.map_append, List.foldl_append, ih hearlier]
    cases tag with
    | param tag =>
      have hkeep : (tags.filterMap TypedTag.param?).filter (·.name != tag.name) =
          tags.filterMap TypedTag.param? := by
        rw [List.filter_eq_self]
        intro p hp
        simpa using hnew p.name (List.mem_map_of_mem hp) tag.name (by simp [TypedTag.param?])
      simp [TypedTag.toTag, enter, collect, hkeep, TypedTag.param?, TypedTag.returns?,
        TypedTag.throws?, TypedTag.property?]
    | _ =>
      simp [TypedTag.toTag, enter, collect, TypedTag.param?, TypedTag.returns?, TypedTag.throws?,
        TypedTag.property?]

theorem sections_write {tags : List TypedTag} (h : ∀ tag ∈ tags, tag.Writable) :
    (sections (write tags)).2 = tags.map TypedTag.text ∧
      ∀ l ∈ (sections (write tags)).1, l = [] := by
  have hheads : ∀ t ∈ tags.map TypedTag.text, t.head? = some '@' := by
    intro t ht
    obtain ⟨tag, -, rfl⟩ := List.mem_map.1 ht
    rw [TypedTag.text, List.head?_append_of_ne_nil _ tag.word_ne_nil, tag.head?_word]
  obtain ⟨htags, hfree⟩ := gather_concat_nil hheads
  have hgather : sections (write tags) = ([] :: (gather (tags.map TypedTag.text ++ [[]])).1,
      (gather (tags.map TypedTag.text ++ [[]])).2) := by
    rw [sections, bodyLines_write h]
    rfl
  rw [hgather]
  exact ⟨htags, List.forall_mem_cons.2 ⟨rfl, hfree⟩⟩

/-- **Tags are read back from the lines they are written on.** -/
theorem read_write (tags : List TypedTag) (h : ∀ tag ∈ tags, tag.Writable)
    (hnames : ((tags.filterMap TypedTag.param?).map (·.name)).Nodup) (item : Option String) :
    read (write tags) TagKind.all item = collect tags := by
  obtain ⟨htexts, hfree⟩ := sections_write h
  have hread : (tags.map TypedTag.text).filterMap Tag.read = tags.map TypedTag.toTag := by
    rw [List.filterMap_map, ← List.filterMap_eq_map]
    exact List.filterMap_congr fun tag htag => (h tag htag).read
  have hkept : ∀ tag ∈ tags.map TypedTag.toTag,
      (TagKind.all.contains tag.kind && tag.concerns item) = true := by
    intro tag htag
    obtain ⟨tag, -, rfl⟩ := List.mem_map.1 htag
    cases tag <;> rfl
  rw [read]
  dsimp only
  rw [htexts, hread, List.filter_eq_self.2 hkept, ofDescription_blank hfree,
    foldl_enter_toTag hnames]

/-- Tags of all kinds, with a type that needs brackets and a description that looks like a tag. -/
def documentedTags : List TypedTag :=
  [.property ⟨"id", some (.keyword "int"), true, false, "the | key"⟩,
    .param ⟨"$rest", some DocType.nestedType, "", true, true⟩,
    .returns ⟨.special "$this", "first"⟩,
    .throws ⟨.keyword "string", "@see f()"⟩,
    .returns ⟨DocType.nestedType, "last"⟩]

theorem writable_documentedTags : ∀ tag ∈ documentedTags, tag.Writable := by
  have hdescription : ∀ d : Text, trim d = d → '\n' ∉ d → d.head? ≠ some '|' →
      TypedTag.IsDescription d :=
    fun d htrim hline hbar => ⟨tight_of_trim htrim, hline, hbar⟩
  have hnested : DocType.nestedType.Unbroken := ⟨DocType.wellFormed_nestedType, by decide⟩
  have hint : (DocType.keyword "int").Unbroken := ⟨.keyword _ (by decide), by decide⟩
  have hstring : (DocType.keyword "string").Unbroken := ⟨.keyword _ (by decide), by decide⟩
  have hthis : (DocType.special "$this").Unbroken := ⟨.special _ (by decide), by decide⟩
  have hid : Solid "id".toList := by decide
  have hrest : Solid "rest".toList := by decide
  rw [documentedTags, List.forall_mem_cons, List.forall_mem_cons, List.forall_mem_cons,
    List.forall_mem_cons, List.forall_mem_singleton]
  refine ⟨?_, ?_, ?_, ?_, ?_⟩
  · exact .property (d := "the | key".toList) rfl hint (by decide) hid (by decide)
      (hdescription _ (by decide) (by decide) (by decide))
  · exact .param (d := []) true true hnested (by decide) hrest (by decide) (by decide)
      (hdescription _ rfl (by decide) (by decide))
  · exact .returns (d := "first".toList) hthis
      (hdescription _ (by decide) (by decide) (by decide))
  · exact .throws (d := "@see f()".toList) hstring
      (hdescription _ (by decide) (by decide) (by decide))
  · exact .returns (d := "last".toList) hnested
      (hdescription _ (by decide) (by decide) (by decide))

theorem read_write_documentedTags :
    write (documentedTags.drop 3) =
        ("/**\n * @throws string @see f()\n * @return " ++ DocType.nestedType.display ++
          " last\n */").toList ∧
      read (write documentedTags) TagKind.all (some "$x") = collect documentedTags :=
  ⟨by decide +kernel, read_write documentedTags writable_documentedTags (by decide) _⟩

end DocComment
end PhpAtlas
