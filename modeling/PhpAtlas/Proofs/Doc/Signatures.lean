import PhpAtlas.Proofs.Doc.TagLines

/-!
# Method signatures in tags

A tag can document a whole method: perhaps the word `static` and a type, the name, the parameters in
brackets, and a description.  The signature is cut at characters and not along its types: the list
of parameters begins at the first opening bracket and ends at the first closing one, and the name of
a parameter begins at the first dollar sign.  So a signature is read back if, and only if, none of
these characters stands in a type before.

## Main definitions

* `MethodTagParam.write`, `MethodTag.write` — a parameter and a signature as text.
* `MethodTagParam.Writable`, `MethodTag.Writable` — the signatures that have a text.
* `MethodTagParam.Separable`, `MethodTag.Separable` — the signatures whose text falls into its
  parts.

## Main results

* `Tag.count_description_of_readMethod` — a bracket that is closed early moves the rest of the
  signature into the description.
* `MethodTagParam.Writable.read_iff`, `MethodTag.readMethod_write_iff` — **a signature is read back
  exactly if it is separable.**
-/

namespace PhpAtlas

open Text

theorem DocType.not_mem_of_isSegment {w : Text} (h : isSegment w = true) {c : Char}
    (hc : Name.isRest c = false) : c ∉ w := by
  intro hmem
  rw [isRest_of_isSegment h hmem] at hc
  cases hc

namespace Tag

/-! ### Types in front of names -/

/-- A type and a space behind, if there is one. -/
def leading : Option DocType → Text
  | none => []
  | some type => type.print ++ [' ']

variable {type : Option DocType}

theorem not_mem_leading {c : Char} (hc : c ≠ ' ') (h : ∀ t ∈ type, c ∉ t.print) :
    c ∉ leading type := by
  cases type with
  | none => simp [leading]
  | some t => simp [leading, hc, h t rfl]

theorem not_mem_marks {c : Char} (href : c ≠ '&') (hdot : c ≠ '.') (byRef variadic : Bool) :
    c ∉ marks byRef variadic := by
  cases byRef <;> cases variadic <;> simp [marks, href, hdot]

theorem trimEnd_leading (h : ∀ t ∈ type, t.Unbroken) : trimEnd (leading type) = typeText type := by
  cases type with
  | none => rfl
  | some t =>
    exact trimEnd_append (List.forall_mem_singleton.2 rfl) (h t rfl).solid.tight.2

theorem typeOf?_typeText (h : ∀ t ∈ type, t.Unbroken) : typeOf? (typeText type) = type := by
  cases type with
  | none => rfl
  | some t => simp [typeText, typeOf?, (h t rfl).isToken.ne_nil, (h t rfl).parse_print]

theorem words_leading (h : ∀ t ∈ type, t.Unbroken) (rest : Text) :
    words (leading type ++ rest) = (type.map DocType.print).toList ++ words rest := by
  cases type with
  | none => rfl
  | some t =>
    rw [leading, List.append_assoc, List.singleton_append, words_append_space,
      words_of_solid (h t rfl).solid (h t rfl).isToken.ne_nil]
    rfl

theorem head?_leading (h : ∀ t ∈ type, t.Unbroken) {w : Text}
    (hw : ∀ c ∈ w.head?, isBlank c = false) :
    ∀ c ∈ (leading type ++ w).head?, isBlank c = false := by
  intro c hc
  cases type with
  | none => exact hw c hc
  | some t =>
    rw [leading, List.append_assoc, List.head?_append_of_ne_nil _ (h t rfl).isToken.ne_nil] at hc
    exact (h t rfl).solid.tight.1 c hc

/-! ### Parameters -/

/-- The parameter with the type and marks in front of a dollar sign and the name behind. -/
def declared (front name : Text) (default : Option String) : MethodTagParam :=
  let front := trim front
  let beforeDots := trimEnd (dropTrailingCopies ['.', '.', '.'] front)
  { name := trimmed ('$' :: name)
    type := typeOf? (trimEnd (dropTrailing '&' beforeDots))
    default := default
    variadic := endsWith ['.', '.', '.'] front
    byRef := endsWith ['&'] beforeDots }

theorem readMethodParam_of_none {t front name : Text} (hdefault : '=' ∉ t)
    (hdecl : splitOnce? (· == '$') t = some (front, name)) :
    readMethodParam t = some (declared front name none) := by
  have hnone : splitOnce? (· == '=') t = none := by
    refine splitOnce?_eq_none_iff.2 fun c hc => ?_
    rw [beq_eq_false_iff_ne]
    rintro rfl
    exact hdefault hc
  rw [readMethodParam, hnone]
  dsimp only
  rw [hdecl]
  rfl

theorem readMethodParam_of_some {t decl default front name : Text}
    (hdefault : splitOnce? (· == '=') t = some (decl, default))
    (hdecl : splitOnce? (· == '$') (trim decl) = some (front, name)) :
    readMethodParam t = some (declared front name (some (trimmed default))) := by
  rw [readMethodParam, hdefault]
  dsimp only
  rw [hdecl]
  rfl

theorem dropLeadingCopies_of_not_mem {t : Text} (h : '.' ∉ t) (n : Nat) :
    dropLeadingCopies ['.', '.', '.'] n t = t := by
  cases n with
  | zero => rfl
  | succ n =>
    rw [dropLeadingCopies, stripStart?_eq_none_of_head? (by simp)]
    intro hhead
    exact h (List.mem_of_head? hhead)

theorem dropTrailingCopies_of_not_mem {t : Text} (h : '.' ∉ t) :
    dropTrailingCopies ['.', '.', '.'] t = t := by
  rw [dropTrailingCopies]
  exact List.reverse_eq_iff.2 (dropLeadingCopies_of_not_mem (by simpa using h) _)

theorem dropTrailingCopies_append_dots {t : Text} (h : '.' ∉ t) :
    dropTrailingCopies ['.', '.', '.'] (t ++ ['.', '.', '.']) = t := by
  have hfirst : ∀ n, dropLeadingCopies ['.', '.', '.'] (n + 1) ('.' :: '.' :: '.' :: t.reverse) =
      t.reverse :=
    fun n => dropLeadingCopies_of_not_mem (by simpa using h) n
  rw [dropTrailingCopies, List.length_append, List.reverse_append]
  exact List.reverse_eq_iff.2 (hfirst _)

theorem marks_true (byRef : Bool) : marks byRef true = marks byRef false ++ ['.', '.', '.'] := by
  cases byRef <;> rfl

/-- The dots at the end of the front. -/
theorem variadic_front (h : ∀ t ∈ type, t.Unbroken) (byRef variadic : Bool) :
    trimEnd (dropTrailingCopies ['.', '.', '.'] (trim (leading type ++ marks byRef variadic))) =
        trimEnd (leading type ++ marks byRef false) ∧
      endsWith ['.', '.', '.'] (trim (leading type ++ marks byRef variadic)) = variadic := by
  have hdots : '.' ∉ leading type ++ marks byRef false := by
    have hlead : '.' ∉ leading type :=
      not_mem_leading (by decide) fun t ht => (h t ht).isToken.not_mem (by decide)
    cases byRef <;> simp [marks, hlead]
  rw [trim, trimStart, dropWhile_of_head (head?_leading h (solid_marks byRef variadic).tight.1)]
  cases variadic with
  | false =>
    have hfree : '.' ∉ trimEnd (leading type ++ marks byRef false) :=
      fun hmem => hdots (mem_of_mem_trimEnd hmem)
    rw [dropTrailingCopies_of_not_mem hfree, trimEnd_trimEnd, ← Bool.not_eq_true, endsWith_iff]
    exact ⟨rfl, fun hsuffix => hfree (hsuffix.mem List.mem_cons_self)⟩
  | true =>
    have hkept : trimEnd (leading type ++ marks byRef true) =
        leading type ++ marks byRef false ++ ['.', '.', '.'] := by
      rw [marks_true, ← List.append_assoc]
      exact trimEnd_append_cons (by decide) _ _
    rw [hkept, dropTrailingCopies_append_dots hdots, endsWith_iff]
    exact ⟨rfl, List.suffix_append _ _⟩

/-- The mark of a reference at the end of the front. -/
theorem byRef_front (h : ∀ t ∈ type, t.Unbroken) (byRef : Bool) :
    trimEnd (dropTrailing '&' (trimEnd (leading type ++ marks byRef false))) = typeText type ∧
      endsWith ['&'] (trimEnd (leading type ++ marks byRef false)) = byRef := by
  have hmark : ∀ t ∈ type, '&' ∉ t.print := fun t ht => (h t ht).isToken.not_mem (by decide)
  have hlead : '&' ∉ leading type := not_mem_leading (by decide) hmark
  cases byRef with
  | false =>
    have hfree : '&' ∉ typeText type := by
      rw [← trimEnd_leading h]
      exact fun hmem => hlead (mem_of_mem_trimEnd hmem)
    have hfront : trimEnd (leading type ++ marks false false) = typeText type := by
      rw [← trimEnd_leading h]
      exact congrArg trimEnd (List.append_nil _)
    rw [hfront, dropTrailing_of_getLast? fun hlast => hfree (List.mem_of_getLast? hlast),
      ← trimEnd_leading h, trimEnd_trimEnd, trimEnd_leading h, ← Bool.not_eq_true, endsWith_iff]
    exact ⟨rfl, fun hsuffix => hfree (hsuffix.mem List.mem_cons_self)⟩
  | true =>
    have hfront : trimEnd (leading type ++ marks true false) = leading type ++ ['&'] :=
      trimEnd_append_cons (by decide) _ []
    rw [hfront, dropTrailing_concat,
      dropTrailing_of_getLast? fun hlast => hlead (List.mem_of_getLast? hlast), endsWith_iff]
    exact ⟨trimEnd_leading h, List.suffix_append _ _⟩

/-- Type and marks are found again in front of the dollar sign. -/
theorem declared_leading (h : ∀ t ∈ type, t.Unbroken) (byRef variadic : Bool) (name : Text)
    (default : Option String) :
    declared (leading type ++ marks byRef variadic) name default =
      ⟨trimmed ('$' :: name), type, default, variadic, byRef⟩ := by
  obtain ⟨hfront, hvariadic⟩ := variadic_front h byRef variadic
  obtain ⟨htype, hbyRef⟩ := byRef_front h byRef
  simp only [declared, hfront, hvariadic, htype, hbyRef, typeOf?_typeText h]

/-! ### Brackets that close too early -/

/-- The list of parameters ends at the first bracket that closes.  If another one follows, it is
found in the description. -/
theorem count_description_of_readMethod {u v d : Text} {m : MethodTag} (hv : ')' ∈ v)
    (h : readMethod (u ++ '(' :: (v ++ ')' :: d)) = some m) :
    d.count ')' < m.description.toList.count ')' := by
  obtain ⟨v₁, v₂, rfl⟩ := List.append_of_mem hv
  -- The cuts may fall in front of the brackets that are known, but not behind them.
  obtain ⟨head, y, hopen⟩ := exists_splitOnce?_append (p := (· == '(')) (c := '(') rfl u
    (v₁ ++ ')' :: v₂ ++ ')' :: d)
  obtain ⟨inside, z, hclose⟩ := exists_splitOnce?_append (p := (· == ')')) (c := ')') rfl (y ++ v₁)
    (v₂ ++ ')' :: d)
  have hrest : y ++ (v₁ ++ ')' :: v₂ ++ ')' :: d) = (y ++ v₁) ++ ')' :: (v₂ ++ ')' :: d) := by
    simp
  rw [readMethod, hopen] at h
  dsimp only at h
  rw [hrest, hclose] at h
  dsimp only at h
  cases hhead : methodHead head with
  | none =>
    rw [hhead] at h
    cases h
  | some parts =>
    rw [hhead] at h
    obtain rfl := Option.some.inj h
    simp only [trimmed, String.toList_ofList, count_trim (c := ')') (by decide), List.count_append,
      List.count_cons_self]
    omega

/-- The words in front of the parameters: only the first one can be the flag. -/
theorem methodHead_of_words {t name : Text} {static : Bool} {types : List Text}
    (hwords : words t = (if static then ["static".toList] else []) ++ types ++ [name])
    (htype : ∀ w ∈ types.head?, Text.fold w ≠ "static".toList) :
    methodHead t = some (static, types, name) := by
  have hlast : (words t).getLast? = some name := by rw [hwords, List.getLast?_concat]
  have hinit : (words t).dropLast = (if static then ["static".toList] else []) ++ types := by
    rw [hwords, List.dropLast_concat]
  rw [methodHead]
  simp only [hlast, hinit]
  cases static with
  | true => exact if_pos (by decide)
  | false =>
    cases types with
    | nil => rfl
    | cons w ws => exact if_neg (by simpa only [beq_iff_eq] using htype w rfl)

/-- The name of a method is a word. -/
theorem solid_name_of_readMethod {t : Text} {m : MethodTag} (h : readMethod t = some m) :
    Solid m.name.toList := by
  have hword : ∀ {u : Text} {parts : Bool × List Text × Text}, methodHead u = some parts →
      Solid parts.2.2 := by
    intro u parts hparts
    rw [methodHead] at hparts
    cases hlast : (words u).getLast? with
    | none => simp [hlast] at hparts
    | some w =>
      have hsolid : Solid w := solid_of_mem_words (List.mem_of_getLast? hlast)
      simp only [hlast] at hparts
      split at hparts
      · obtain rfl := Option.some.inj hparts
        exact hsolid
      · split_ifs at hparts
        all_goals
          obtain rfl := Option.some.inj hparts
          exact hsolid
  rw [readMethod] at h
  split at h
  · cases h
  · split at h
    · cases h
    · split at h
      · cases h
      · rename_i hparts
        obtain rfl := Option.some.inj h
        simpa using hword hparts

end Tag

namespace MethodTagParam

/-! ### Writing and reading a parameter -/

/-- A type, marks and a name. -/
def decl (p : MethodTagParam) : Text :=
  Tag.leading p.type ++ (Tag.marks p.byRef p.variadic ++ p.name.toList)

/-- The default of a parameter, if there is one. -/
def assigned : Option String → Text
  | none => []
  | some default => " = ".toList ++ default.toList

/-- The text of a parameter. -/
def write (p : MethodTagParam) : Text := p.decl ++ assigned p.default

/-- The parameters that have a text: the name is an identifier behind a dollar sign, and the default
has no blanks at its ends and none of the characters that a list of parameters is cut at. -/
structure Writable (p : MethodTagParam) : Prop where
  name : ∃ w, p.name = String.ofList ('$' :: w) ∧ DocType.isSegment w = true
  type : ∀ t ∈ p.type, t.Unbroken
  default : ∀ d ∈ p.default, Tight d.toList ∧ ∀ c ∈ [',', '(', ')'], c ∉ d.toList

/-- The first dollar sign of the text begins the name, and the name ends with no blank. -/
structure Separable (p : MethodTagParam) : Prop where
  type : ∀ t ∈ p.type, '$' ∉ t.print
  name : trimEnd p.name.toList = p.name.toList

variable {p : MethodTagParam}

theorem Writable.not_mem_decl (h : p.Writable) {c : Char} (hc : Name.isRest c = false)
    (hmark : c ∉ [' ', '&', '.', '$']) (htype : ∀ t ∈ p.type, c ∉ t.print) : c ∉ p.decl := by
  obtain ⟨w, hname, hw⟩ := h.name
  simp only [List.mem_cons, List.not_mem_nil, or_false, not_or] at hmark
  have hmarks := Tag.not_mem_marks hmark.2.1 hmark.2.2.1 p.byRef p.variadic
  simp [decl, Tag.not_mem_leading hmark.1 htype, hmarks, hname, hmark,
    DocType.not_mem_of_isSegment hw hc]

theorem Writable.not_mem_write (h : p.Writable) {c : Char} (hc : c ∈ [',', '(', ')'])
    (htype : ∀ t ∈ p.type, c ∉ t.print) : c ∉ p.write := by
  obtain ⟨hrest, hmark, hassign⟩ : Name.isRest c = false ∧ c ∉ [' ', '&', '.', '$'] ∧
      c ∉ " = ".toList := by
    simp only [List.mem_cons, List.not_mem_nil, or_false] at hc
    rcases hc with rfl | rfl | rfl <;> exact ⟨by decide, by decide, by decide⟩
  have hassigned : c ∉ assigned p.default := by
    cases hdefault : p.default with
    | none => simp [assigned]
    | some d =>
      rw [assigned, List.mem_append]
      exact not_or.2 ⟨hassign, (h.default d hdefault).2 c hc⟩
  rw [write, List.mem_append]
  exact not_or.2 ⟨h.not_mem_decl hrest hmark htype, hassigned⟩

theorem Writable.head?_decl (h : p.Writable) : ∀ c ∈ p.decl.head?, isBlank c = false := by
  obtain ⟨w, hname, -⟩ := h.name
  have hsolid : Solid (Tag.marks p.byRef p.variadic ++ ['$']) :=
    (Tag.solid_marks _ _).append (by decide)
  refine Tag.head?_leading h.type fun c hc => ?_
  rw [hname, String.toList_ofList, ← List.singleton_append, ← List.append_assoc,
    List.head?_append_of_ne_nil _ (by simp)] at hc
  exact hsolid.tight.1 c hc

/-- The text of a parameter is cut at the first dollar sign, wherever that is. -/
theorem Writable.read_of_split (h : p.Writable) {front rest : Text} (hfront : '$' ∉ front)
    (hdecl : p.decl = front ++ '$' :: rest) :
    Tag.readMethodParam (trim p.write) = some (Tag.declared front (trimEnd rest) p.default) := by
  have htrim : trim p.decl = front ++ '$' :: trimEnd rest := by
    rw [trim, trimStart, dropWhile_of_head h.head?_decl, hdecl,
      trimEnd_append_cons (by decide)]
  have hsplit : splitOnce? (· == '$') (trim p.decl) = some (front, trimEnd rest) := by
    rw [htrim]
    exact splitOnce?_append_of_not_mem hfront _
  have hequal : '=' ∉ p.decl :=
    h.not_mem_decl (by decide) (by decide) fun t ht => (h.type t ht).isToken.not_mem (by decide)
  cases hdefault : p.default with
  | none =>
    have hwrite : p.write = p.decl := by simp [write, hdefault, assigned]
    rw [hwrite]
    refine Tag.readMethodParam_of_none (fun hmem => hequal ?_) hsplit
    rw [trim, trimStart, dropWhile_of_head h.head?_decl] at hmem
    exact mem_of_mem_trimEnd hmem
  | some d =>
    have hd : Tight d.toList := (h.default d hdefault).1
    have hwrite : p.write = (p.decl ++ [' ', '=']) ++ ' ' :: d.toList := by
      simp [write, hdefault, assigned]
    have htight : Tight (p.decl ++ [' ', '=']) := by
      refine ⟨fun c hc => ?_, by simp [isBlank]⟩
      rw [List.head?_append_of_ne_nil _ (by simp [hdecl])] at hc
      exact h.head?_decl c hc
    have hcut : splitOnce? (· == '=') (trim p.write) = some (p.decl ++ [' '], behind d.toList) := by
      rw [hwrite, trim_append_space htight (by simp) hd]
      have := splitOnce?_append_of_not_mem (a := p.decl ++ [' ']) (c := '=') (by simp [hequal])
        (behind d.toList)
      simpa using this
    rw [← trim_concat (c := ' ') (by decide)] at hsplit
    rw [Tag.readMethodParam_of_some hcut hsplit, Tag.trimmed, trim_behind hd, String.ofList_toList]

theorem trimmed_dollar (t : Text) :
    Tag.trimmed ('$' :: trimEnd t) = String.ofList (trimEnd ('$' :: t)) := by
  have hend : ∀ u, trimEnd ('$' :: u) = '$' :: trimEnd u := trimEnd_cons (by decide)
  rw [Tag.trimmed, trim, trimStart, dropWhile_of_head (by simp [isBlank]), hend, hend,
    trimEnd_trimEnd]

/-- Without dollar signs in the type, all but blanks behind the name is kept. -/
theorem Writable.read_of_type (h : p.Writable) (htype : ∀ t ∈ p.type, '$' ∉ t.print) :
    Tag.readMethodParam (trim p.write) =
      some { p with name := String.ofList (trimEnd p.name.toList) } := by
  obtain ⟨w, hname, hw⟩ := h.name
  have hfront : '$' ∉ Tag.leading p.type ++ Tag.marks p.byRef p.variadic := by
    rw [List.mem_append]
    exact not_or.2 ⟨Tag.not_mem_leading (by decide) htype,
      Tag.not_mem_marks (by decide) (by decide) _ _⟩
  have hdecl : p.decl = (Tag.leading p.type ++ Tag.marks p.byRef p.variadic) ++ '$' :: w := by
    simp [decl, hname]
  rw [h.read_of_split hfront hdecl, Tag.declared_leading h.type, trimmed_dollar, hname,
    String.toList_ofList]

/-- A dollar sign in the type begins the name, which then has another one. -/
theorem Writable.read_of_dollar (h : p.Writable) {t : DocType} (ht : t ∈ p.type)
    (hdollar : '$' ∈ t.print) :
    ∃ q, Tag.readMethodParam (trim p.write) = some q ∧ q.name ≠ p.name := by
  obtain ⟨w, hname, hw⟩ := h.name
  obtain ⟨a, b, hprint, ha⟩ := List.eq_append_cons_of_mem hdollar
  have hdecl : p.decl = a ++ '$' :: (b ++ ' ' :: (Tag.marks p.byRef p.variadic ++ '$' :: w)) := by
    simp [decl, Option.mem_def.1 ht, Tag.leading, hprint, hname]
  refine ⟨_, h.read_of_split ha hdecl, fun hsame => ?_⟩
  rw [Tag.declared, trimmed_dollar, hname, String.ofList_inj,
    trimEnd_cons (by decide)] at hsame
  refine DocType.not_mem_of_isSegment hw (c := '$') (by decide) ?_
  rw [← (List.cons.inj hsame).2]
  exact mem_trimEnd (by decide) (by simp)

theorem Writable.isSome_read (h : p.Writable) :
    (Tag.readMethodParam (trim p.write)).isSome = true := by
  by_cases htype : ∀ t ∈ p.type, '$' ∉ t.print
  · rw [h.read_of_type htype]
    rfl
  · push Not at htype
    obtain ⟨t, ht, hdollar⟩ := htype
    obtain ⟨q, hq, -⟩ := h.read_of_dollar ht hdollar
    rw [hq]
    rfl

/-- **A parameter is read back exactly if it is separable.** -/
theorem Writable.read_iff (h : p.Writable) :
    Tag.readMethodParam (trim p.write) = some p ↔ p.Separable := by
  constructor
  · intro hread
    have htype : ∀ t ∈ p.type, '$' ∉ t.print := by
      intro t ht hdollar
      obtain ⟨q, hq, hname⟩ := h.read_of_dollar ht hdollar
      rw [hread] at hq
      exact hname (congrArg MethodTagParam.name (Option.some.inj hq).symm)
    rw [h.read_of_type htype] at hread
    have hname : String.ofList (trimEnd p.name.toList) = p.name :=
      congrArg MethodTagParam.name (Option.some.inj hread)
    exact ⟨htype, by rw [← String.ofList_inj, hname, String.ofList_toList]⟩
  · intro hsep
    rw [h.read_of_type hsep.type, hsep.name, String.ofList_toList]

theorem Writable.trim_write_ne_nil (h : p.Writable) : trim p.write ≠ [] := by
  intro hnil
  have hread := h.isSome_read
  rw [hnil] at hread
  cases hread

end MethodTagParam

namespace MethodTag

/-! ### Writing and reading a signature -/

/-- What stands in front of the list of parameters. -/
def head (m : MethodTag) : Text :=
  (if m.static then "static ".toList else []) ++ (Tag.leading m.returns ++ m.name.toList)

/-- The text of a signature, with the description behind it. -/
def write (m : MethodTag) : Text :=
  m.head ++ '(' :: (join [',', ' '] (m.parameters.map MethodTagParam.write) ++
    ')' :: ' ' :: m.description.toList)

/-- The types of a signature. -/
def types (m : MethodTag) : List DocType := m.returns.toList ++ m.parameters.filterMap (·.type)

/-- The signatures that have a text.  A result that is the bare word `static` has none, as in front
of the name the word says that the method is static. -/
structure Writable (m : MethodTag) : Prop where
  name : DocType.isSegment m.name.toList = true
  returns : ∀ t ∈ m.returns, t.Unbroken
  bare : m.returns ≠ some (.special "static")
  parameters : ∀ p ∈ m.parameters, p.Writable
  description : Tight m.description.toList

/-- The name has no blanks, and the brackets around the parameters are the only ones. -/
structure Separable (m : MethodTag) : Prop where
  name : Solid m.name.toList
  types : ∀ t ∈ m.types, '(' ∉ t.print
  parameters : ∀ p ∈ m.parameters, p.Separable

end MethodTag

/-- Only the type `static` is written like that word. -/
theorem DocType.WellFormed.eq_static {t : DocType} (h : WellFormed t)
    (hfold : Text.fold t.print = "static".toList) : t = .special "static" := by
  have hmem : ∀ {c : Char}, c ∈ t.print → c.toLower ∈ "static".toList := by
    intro c hc
    rw [← hfold]
    exact List.mem_map_of_mem hc
  cases h with
  | named n hclass htrim hscalar hspecial =>
    refine absurd ?_ hspecial
    rw [show fold n = "static" from congrArg String.ofList hfold]
    decide
  | keyword k hk =>
    have hwords : ∀ k ∈ scalarWords.map (·.2), Text.fold k.toList ≠ "static".toList := by decide
    exact absurd hfold (hwords k hk)
  | special w hw =>
    have hwords : ∀ w ∈ specialWords, Text.fold w.toList = "static".toList → w = "static" := by
      decide
    rw [hwords w hw hfold]
  | array _ => exact absurd (hmem (c := ']') (by simp [print_array])) (by decide)
  | nullable _ => exact absurd (hmem (c := '?') (by simp [print_nullable])) (by decide)
  | @union members hlength _ _ =>
    refine absurd (hmem (c := '|') ?_) (by decide)
    rcases members with _ | ⟨a, _ | ⟨b, rest⟩⟩
    · simp at hlength
    · simp at hlength
    · simp [print_union, join_cons_cons]
  | iterable n _ _ => exact absurd (hmem (c := '<') (by simp [print_iterable, generic])) (by decide)

namespace MethodTag

variable {m : MethodTag}

theorem Writable.methodHead_head (h : m.Writable) (hname : Solid m.name.toList) :
    Tag.methodHead m.head =
      some (m.static, (m.returns.map DocType.print).toList, m.name.toList) := by
  have hne : m.name.toList ≠ [] := by
    intro hnil
    have hsegment := h.name
    rw [hnil] at hsegment
    cases hsegment
  have hrest : words (Tag.leading m.returns ++ m.name.toList) =
      (m.returns.map DocType.print).toList ++ [m.name.toList] := by
    rw [Tag.words_leading h.returns, words_of_solid hname hne]
  refine Tag.methodHead_of_words ?_ ?_
  · rw [List.append_assoc, ← hrest]
    cases hstatic : m.static with
    | false => simp [head, hstatic]
    | true =>
      rw [head, hstatic]
      exact words_append_space "static".toList _
  · intro w hw hfold
    cases hreturns : m.returns with
    | none => simp [hreturns] at hw
    | some t =>
      rw [hreturns] at hw
      obtain rfl := Option.some.inj hw
      exact h.bare (by rw [hreturns, (h.returns t hreturns).wellFormed.eq_static hfold])

theorem mem_types_of_returns {t : DocType} (h : t ∈ m.returns) : t ∈ m.types :=
  List.mem_append_left _ (Option.mem_toList.2 h)

theorem mem_types_of_parameter {p : MethodTagParam} (hp : p ∈ m.parameters) {t : DocType}
    (h : t ∈ p.type) : t ∈ m.types :=
  List.mem_append_right _ (List.mem_filterMap.2 ⟨p, hp, h⟩)

theorem Writable.not_mem_head (h : m.Writable) (hreturns : ∀ t ∈ m.returns, '(' ∉ t.print) :
    '(' ∉ m.head := by
  have hstatic : '(' ∉ if m.static then "static ".toList else [] := by
    cases m.static <;> decide
  rw [head, List.mem_append, List.mem_append, not_or, not_or]
  exact ⟨hstatic, Tag.not_mem_leading (by decide) hreturns,
    DocType.not_mem_of_isSegment h.name (by decide)⟩

theorem Writable.not_mem_parameters (h : m.Writable)
    (hparams : ∀ p ∈ m.parameters, ∀ t ∈ p.type, '(' ∉ t.print) :
    ')' ∉ join [',', ' '] (m.parameters.map MethodTagParam.write) := by
  intro hmem
  rcases mem_join hmem with hsep | ⟨w, hw, hclose⟩
  · revert hsep
    decide
  · obtain ⟨p, hp, rfl⟩ := List.mem_map.1 hw
    refine (h.parameters p hp).not_mem_write (by decide) (fun t ht hmem => ?_) hclose
    exact hparams p hp t ht (((h.parameters p hp).type t ht).isToken.opening hmem)

/-- Without brackets in the types, the text is cut where the parts meet. -/
theorem Writable.readMethod_write (h : m.Writable) (hname : Solid m.name.toList)
    (htypes : ∀ t ∈ m.types, '(' ∉ t.print) :
    Tag.readMethod m.write = some { m with
      parameters := m.parameters.filterMap fun p => Tag.readMethodParam (trim p.write) } := by
  have hopen := splitOnce?_append_of_not_mem
    (h.not_mem_head fun t ht => htypes t (mem_types_of_returns ht))
    (join [',', ' '] (m.parameters.map MethodTagParam.write) ++ ')' :: ' ' :: m.description.toList)
  have hclose := splitOnce?_append_of_not_mem
    (h.not_mem_parameters fun p hp t ht => htypes t (mem_types_of_parameter hp ht))
    (' ' :: m.description.toList)
  have hitems : ((splitAll (· == ',') (join [',', ' ']
      (m.parameters.map MethodTagParam.write))).map trim).filter (!·.isEmpty) =
        (m.parameters.map MethodTagParam.write).map trim := by
    refine items_join (List.forall_mem_map.2 fun p hp => ?_) (List.forall_mem_map.2 fun p hp => ?_)
    · refine (h.parameters p hp).not_mem_write (by decide) fun t ht => ?_
      exact ((h.parameters p hp).type t ht).isToken.not_mem (by decide)
    · exact (h.parameters p hp).trim_write_ne_nil
  have hreturns : join [' '] (m.returns.map DocType.print).toList = Tag.typeText m.returns := by
    cases m.returns <;> rfl
  have hdescription : trim (' ' :: m.description.toList) = m.description.toList :=
    h.description.trim_eq
  rw [Tag.readMethod, write, hopen]
  dsimp only
  rw [hclose]
  dsimp only
  rw [h.methodHead_head hname]
  dsimp only
  rw [hitems, hreturns, Tag.typeOf?_typeText h.returns, Tag.trimmed, hdescription,
    String.ofList_toList, String.ofList_toList, List.map_map, List.filterMap_map]
  rfl

/-- A bracket in a type is closed in front of the end of the signature. -/
theorem Writable.early_bracket (h : m.Writable) {t : DocType} (ht : t ∈ m.types)
    (hmem : '(' ∈ t.print) :
    ∃ u v, ')' ∈ v ∧ m.write = u ++ '(' :: (v ++ ')' :: ' ' :: m.description.toList) := by
  rcases List.mem_append.1 ht with hreturns | hparams
  · rw [Option.mem_toList] at hreturns
    obtain ⟨a, b, hprint⟩ := List.append_of_mem hmem
    refine ⟨(if m.static then "static ".toList else []) ++ a, b ++ ' ' :: m.name.toList ++ '(' ::
      join [',', ' '] (m.parameters.map MethodTagParam.write), ?_, ?_⟩
    · have hclose := (h.returns t hreturns).isToken.closing a b hprint
      exact List.mem_append_left _ (List.mem_append_left _ hclose)
    · rw [write, head, Option.mem_def.1 hreturns, Tag.leading, hprint]
      simp only [List.append_assoc, List.cons_append, List.nil_append]
  · obtain ⟨p, hp, htype⟩ := List.mem_filterMap.1 hparams
    refine ⟨m.head, _, ?_, rfl⟩
    refine mem_join_of_mem (w := p.write) ?_ (List.mem_map_of_mem hp) _
    obtain ⟨a, b, hprint⟩ := List.append_of_mem hmem
    have hclose := ((h.parameters p hp).type t htype).isToken.closing a b hprint
    simp [MethodTagParam.write, MethodTagParam.decl, htype, Tag.leading, hprint, hclose]

theorem forall_eq_some_of_filterMap_eq {α : Type} {f : α → Option α} {l : List α}
    (hsome : ∀ a ∈ l, (f a).isSome = true) (h : l.filterMap f = l) : ∀ a ∈ l, f a = some a := by
  induction l with
  | nil => simp
  | cons a l ih =>
    obtain ⟨ha, hl⟩ := List.forall_mem_cons.1 hsome
    obtain ⟨b, hb⟩ := Option.isSome_iff_exists.1 ha
    rw [List.filterMap_cons_some hb] at h
    obtain ⟨rfl, htail⟩ := List.cons.inj h
    exact List.forall_mem_cons.2 ⟨hb, ih hl htail⟩

/-- **A signature is read back from its text exactly if it is separable.** -/
theorem readMethod_write_iff (m : MethodTag) (h : m.Writable) :
    Tag.readMethod m.write = some m ↔ m.Separable := by
  constructor
  · intro hread
    have hname : Solid m.name.toList := Tag.solid_name_of_readMethod hread
    -- A bracket in a type leaves one more closing bracket in the description than there was.
    have htypes : ∀ t ∈ m.types, '(' ∉ t.print := by
      intro t ht hmem
      obtain ⟨u, v, hv, hwrite⟩ := h.early_bracket ht hmem
      rw [hwrite] at hread
      have hcount := Tag.count_description_of_readMethod hv hread
      simp at hcount
    rw [h.readMethod_write hname htypes] at hread
    -- No parameter is dropped, so the list that is read back is read back item by item.
    have hparams := congrArg MethodTag.parameters (Option.some.inj hread)
    have hall := forall_eq_some_of_filterMap_eq
      (fun p hp => (h.parameters p hp).isSome_read) hparams
    exact ⟨hname, htypes, fun p hp => (h.parameters p hp).read_iff.1 (hall p hp)⟩
  · intro hsep
    have hparams : m.parameters.filterMap (fun p => Tag.readMethodParam (trim p.write)) =
        m.parameters := by
      rw [List.filterMap_congr fun p hp => (h.parameters p hp).read_iff.2 (hsep.parameters p hp)]
      exact List.filterMap_some
    rw [h.readMethod_write hsep.name hsep.types, hparams]

/-- A static method with a nullable result, a reference, a default, and a list of arguments. -/
def findUsers : MethodTag where
  name := "find"
  static := true
  returns := some (.nullable (.array (.named "User")))
  parameters :=
    [⟨"$id", some (.union [.keyword "int", .keyword "string"]), none, false, true⟩,
      ⟨"$limit", none, some "[1 = 2]", false, false⟩,
      ⟨"$more", some (.iterable (.named "Iterator") (.special "self")), none, true, true⟩]
  description := "users (by id), or $none"

theorem writable_findUsers : findUsers.Writable where
  name := by decide
  returns := by
    rintro t ⟨⟩
    exact ⟨.nullable (.array (.named "User" (by decide) (by decide) (by decide) (by decide))),
      by decide⟩
  bare := by simp [findUsers]
  parameters := by
    rw [findUsers, List.forall_mem_cons, List.forall_mem_cons, List.forall_mem_singleton]
    refine ⟨⟨⟨"id".toList, by decide, by decide⟩, ?_, by simp⟩,
      ⟨⟨"limit".toList, by decide, by decide⟩, by simp, ?_⟩,
      ⟨⟨"more".toList, by decide, by decide⟩, ?_, by simp⟩⟩
    · rintro t ⟨⟩
      refine ⟨.union (by decide) ?_ ?_, by decide⟩
      · simpa using ⟨.keyword "int" (by decide), .keyword "string" (by decide)⟩
      · simp [DocType.isUnion]
    · rintro d ⟨⟩
      exact ⟨tight_of_trim (by decide), by simp⟩
    · rintro t ⟨⟩
      exact ⟨.iterable "Iterator" (by decide) (.special "self" (by decide)), by decide⟩
  description := tight_of_trim (by decide)

theorem separable_findUsers : findUsers.Separable where
  name := by decide
  types := by
    rw [types, findUsers]
    simp only [Option.toList_some, List.filterMap_cons, List.filterMap_nil]
    decide
  parameters := by
    rw [findUsers, List.forall_mem_cons, List.forall_mem_cons, List.forall_mem_singleton]
    refine ⟨⟨?_, by decide⟩, ⟨by simp, by decide⟩, ⟨?_, by decide⟩⟩
    all_goals
      rintro t ⟨⟩
      decide

theorem readMethod_write_iff_findUsers :
    findUsers.write =
        ("static ?User[] find(int|string &$id, $limit = [1 = 2], Iterator<self> &...$more) " ++
          "users (by id), or $none").toList ∧
      Tag.readMethod findUsers.write = some findUsers :=
  ⟨by decide +kernel, (readMethod_write_iff findUsers writable_findUsers).2 separable_findUsers⟩

/-- A method without parameters whose result is written with brackets. -/
def listBoth : MethodTag where
  name := "f"
  static := false
  returns := some (.array (.union [.named "A", .named "B"]))
  parameters := []
  description := ""

theorem writable_listBoth : listBoth.Writable where
  name := by decide
  returns := by
    rintro t ⟨⟩
    refine ⟨.array (.union (by decide) ?_ ?_), by decide⟩
    · simpa using ⟨.named "A" (by decide) (by decide) (by decide) (by decide),
        .named "B" (by decide) (by decide) (by decide) (by decide)⟩
    · simp [DocType.isUnion]
  bare := by simp [listBoth]
  parameters := by simp [listBoth]
  description := tight_of_trim (by decide)

/-- Not every signature is read back: the brackets of a result are taken for the parameters. -/
theorem not_forall_readMethod_write :
    ¬ ∀ m : MethodTag, m.Writable → Tag.readMethod m.write = some m := by
  intro hall
  have hread := hall listBoth writable_listBoth
  have hnone : (Tag.readMethod listBoth.write).isSome = false := by decide
  rw [hread] at hnone
  cases hnone

end MethodTag
end PhpAtlas
