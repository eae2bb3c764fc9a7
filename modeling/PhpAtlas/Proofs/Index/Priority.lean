import PhpAtlas.Index.Declaration
import PhpAtlas.Proofs.Doc.TypeNames
import PhpAtlas.Proofs.Scope.Names
import PhpAtlas.Proofs.Types.Distinct

/-!
# Documented types win

The types of a parameter or a result come from the documentation, else from the native type, else
from the default value.  A tag that gives a type gives at least one name, so there the first of
these is never empty, and neither a native type nor a default value has a part in the result.

## Main definitions

* `DocComment.signatureTypes` — the types that a comment gives parameters and the result.
* `NodeDoc.Decides` — a comment decides the types of a signature.

## Main results

* `DocComment.exists_parse_of_mem` — every type in a comment was read from a text.
* `Known.resolveDocType_ne_nil` — a type that was read stands for at least one type.
* `NodeDoc.decides_of_read` — a comment that was read decides the types of a signature.
* `documented_types_win` — the same for every comment in a document.
-/

namespace PhpAtlas

/-! ### The types in a comment -/

/-- The types that a tag gives parameters and the result. -/
def Tag.signatureTypes : Tag → List DocType
  | .param tag => tag.type.toList
  | .returns tag => [tag.type]
  | _ => []

theorem Tag.exists_parse_of_typeOf? {x : Text} {t : DocType} (h : typeOf? x = some t) :
    ∃ y, t = DocType.parse y := by
  unfold typeOf? at h
  split at h
  · cases h
  · exact ⟨x, (Option.some.inj h).symm⟩

theorem Tag.exists_parse_of_readParam {x : Text} {tag : ParamTag} {t : DocType}
    (h : readParam x = some tag) (ht : tag.type = some t) : ∃ y, t = DocType.parse y := by
  unfold readParam at h
  obtain ⟨-, h⟩ := Option.ite_none_right_eq_some.1 h
  rw [← Option.some.inj h] at ht
  exact exists_parse_of_typeOf? ht

theorem Tag.exists_parse_of_readType {x : Text} {tag : TypeTag} (h : readType x = some tag) :
    ∃ y, tag.type = DocType.parse y := by
  unfold readType at h
  split at h
  · cases h
  · exact ⟨_, congrArg TypeTag.type (Option.some.inj h).symm⟩

/-- The tags for parameters and results are read by these two readers. -/
theorem Tag.read_cases {x : Text} {tag : Tag} (h : read x = some tag) :
    ∃ rest, (∀ p, tag = .param p → readParam rest = some p) ∧
      ∀ r, tag = .returns r → readType rest = some r := by
  refine ⟨Text.trim (firstWord x).2, ?_⟩
  unfold read at h
  dsimp only at h
  split at h
  all_goals grind [Option.map_eq_some_iff]

/-- The types of a tag were read from texts. -/
theorem Tag.exists_parse_of_mem {x : Text} {tag : Tag} {t : DocType} (h : read x = some tag)
    (ht : t ∈ tag.signatureTypes) : ∃ y, t = DocType.parse y := by
  obtain ⟨rest, hparam, hreturns⟩ := read_cases h
  cases tag with
  | param p => exact exists_parse_of_readParam (hparam p rfl) (Option.mem_toList.1 ht)
  | returns r =>
    rw [List.mem_singleton.1 ht]
    exact exists_parse_of_readType (hreturns r rfl)
  | _ => cases ht

namespace DocComment

/-- The types that a comment gives parameters and the result. -/
def signatureTypes (c : DocComment) : List DocType :=
  c.params.filterMap (·.type) ++ (c.returns.map (·.type)).toList

theorem signatureTypes_enter_subset (c : DocComment) (tag : Tag) :
    (c.enter tag).signatureTypes ⊆ c.signatureTypes ++ tag.signatureTypes := by
  intro t ht
  cases tag with
  | param p =>
    simp only [signatureTypes, enter, Tag.signatureTypes, List.mem_append, List.mem_filterMap,
      List.mem_filter, List.mem_singleton] at ht ⊢
    grind
  | returns r =>
    simp only [signatureTypes, enter, Tag.signatureTypes, List.mem_append] at ht ⊢
    grind
  | _ => exact List.mem_append_left _ ht

theorem signatureTypes_foldl_subset (tags : List Tag) (c : DocComment) :
    (tags.foldl enter c).signatureTypes ⊆ c.signatureTypes ++ tags.flatMap Tag.signatureTypes := by
  induction tags generalizing c with
  | nil => exact List.subset_append_left _ _
  | cons tag tags ih =>
    intro t ht
    rw [List.flatMap_cons, ← List.append_assoc]
    rcases List.mem_append.1 (ih (c.enter tag) ht) with h | h
    · exact List.mem_append_left _ (signatureTypes_enter_subset c tag h)
    · exact List.mem_append_right _ h

/-- Every type in a comment was read from a text. -/
theorem exists_parse_of_mem {x : Text} {kinds : List TagKind} {item : Option String} {t : DocType}
    (h : t ∈ (read x kinds item).signatureTypes) : ∃ y, t = DocType.parse y := by
  rcases List.mem_append.1 (signatureTypes_foldl_subset _ _ h) with h | h
  · cases h
  · obtain ⟨tag, htag, ht⟩ := List.mem_flatMap.1 h
    obtain ⟨w, -, hread⟩ := List.mem_filterMap.1 (List.mem_of_mem_filter htag)
    exact Tag.exists_parse_of_mem hread ht

theorem mem_signatureTypes_of_param {c : DocComment} {name : String} {tag : ParamTag} {t : DocType}
    (h : c.param? name = some tag) (ht : tag.type = some t) : t ∈ c.signatureTypes :=
  List.mem_append_left _ (List.mem_filterMap.2 ⟨tag, List.mem_of_find?_eq_some h, ht⟩)

theorem mem_signatureTypes_of_returns {c : DocComment} {tag : TypeTag} (h : c.returns = some tag) :
    tag.type ∈ c.signatureTypes := by
  refine List.mem_append_right _ ?_
  rw [h]
  exact List.mem_singleton_self _

end DocComment

/-! ### The types that a signature gets -/

theorem foldEq_append_right (a b c : String) : foldEq (a ++ c) (b ++ c) = foldEq a b := by
  rw [Bool.eq_iff_iff, foldEq_iff_toList, foldEq_iff_toList]
  simp only [String.toList_append, Text.fold_append, List.append_cancel_right_eq]

namespace Known

variable {known : Known} {site : Site}

/-- A type that was read stands for at least one type, wherever its names are resolved. -/
theorem resolveDocType_ne_nil {t : DocType} (h : ∃ y, t = DocType.parse y) (c : NameContext)
    (cls : Option ClassScope) : (known.resolveDocType c cls t).entries ≠ [] := by
  obtain ⟨y, rfl⟩ := h
  refine TypeList.ofList_ne_nil ?_
  intro hnil
  exact DocType.flatten_parse_ne_nil y (List.map_eq_nil_iff.1 hnil)

theorem firstKnown_of_ne_nil {a : TypeList} (h : a.entries ≠ []) (b : TypeList) :
    firstKnown a b = a := by
  rw [firstKnown, TypeList.isEmpty, List.isEmpty_eq_false_iff.2 h]
  rfl

theorem distinct_map_arrayOf {ts : List TypeRef} (h : TypeList.Distinct ts) :
    TypeList.Distinct (ts.map arrayOf) := by
  refine List.pairwise_map.2 (h.imp ?_)
  intro a b hab
  exact (foldEq_append_right a.full b.full "[]").trans hab

/-- Arrays of different types are different types, so none is lost. -/
theorem ofList_map_arrayOf (ts : List TypeRef) :
    (TypeList.ofList ((TypeList.ofList ts).entries.map arrayOf)).entries =
      (TypeList.ofList ts).entries.map arrayOf := by
  rw [TypeList.ofList_of_distinct (distinct_map_arrayOf (TypeList.distinct_ofList ts))]

end Known

/-- The types that a documented type stands for in a signature. -/
def NodeDoc.typesOf (doc : NodeDoc) (known : Known) (site : Site) (t : DocType) : TypeList :=
  known.resolveDocType (site.contextAt doc.offset) site.cls t

/-- A comment decides the types of a signature: a parameter whose tag has a type gets what that type
stands for, as arrays if it is variadic, and so does the result. -/
structure NodeDoc.Decides (doc : NodeDoc) (known : Known) (site : Site)
    (ps : List (Parameter Expr)) (parameters : List ParameterSymbol) (returns : TypeList) :
    Prop where
  parameters : List.Forall₂
    (fun p symbol => ∀ tag t, doc.comment.param? p.name = some tag → tag.type = some t →
      symbol.types.entries =
        if p.variadic then (doc.typesOf known site t).entries.map Known.arrayOf
        else (doc.typesOf known site t).entries)
    ps parameters
  returns : ∀ tag, doc.comment.returns = some tag → returns = doc.typesOf known site tag.type

namespace NodeDoc

variable {doc : NodeDoc}

theorem types_parameter (hread : ∀ t ∈ doc.comment.signatureTypes, ∃ y, t = DocType.parse y)
    (known : Known) (site : Site) {p : Parameter Expr} {tag : ParamTag} {t : DocType}
    (htag : doc.comment.param? p.name = some tag) (ht : tag.type = some t) :
    (known.parameter site (some doc) p).types.entries =
      if p.variadic then (doc.typesOf known site t).entries.map Known.arrayOf
      else (doc.typesOf known site t).entries := by
  have hdoc : known.docParameterTypes site (some doc) p.name = doc.typesOf known site t := by
    simp only [Known.docParameterTypes, htag, Option.bind_some, ht]
    rfl
  have hne : (doc.typesOf known site t).entries ≠ [] :=
    Known.resolveDocType_ne_nil (hread t (DocComment.mem_signatureTypes_of_param htag ht)) _ _
  simp only [Known.parameter, hdoc, Known.firstKnown_of_ne_nil hne]
  split
  · exact Known.ofList_map_arrayOf _
  · rfl

theorem types_returns (hread : ∀ t ∈ doc.comment.signatureTypes, ∃ y, t = DocType.parse y)
    (known : Known) (site : Site) (hint : Option ReturnHint) {tag : TypeTag}
    (htag : doc.comment.returns = some tag) :
    known.returnTypes site (some doc) hint = doc.typesOf known site tag.type := by
  have hdoc : known.docReturnTypes site (some doc) = doc.typesOf known site tag.type := by
    simp only [Known.docReturnTypes, htag]
    rfl
  have hne : (doc.typesOf known site tag.type).entries ≠ [] :=
    Known.resolveDocType_ne_nil (hread _ (DocComment.mem_signatureTypes_of_returns htag)) _ _
  unfold Known.returnTypes
  rw [hdoc, Known.firstKnown_of_ne_nil hne]

/-- A comment that was read decides the types of a signature. -/
theorem decides_of_read (hread : ∀ t ∈ doc.comment.signatureTypes, ∃ y, t = DocType.parse y)
    (known : Known) (site : Site) (ps : List (Parameter Expr)) (hint : Option ReturnHint) :
    doc.Decides known site ps (known.parameters site (some doc) ps)
      (known.returnTypes site (some doc) hint) where
  parameters := by
    rw [Known.parameters, List.forall₂_map_right_iff, List.forall₂_same]
    intro p _ tag t htag ht
    exact types_parameter hread known site htag ht
  returns := fun _ htag => types_returns hread known site hint htag

end NodeDoc

/-- The comment of a node was read. -/
theorem Document.exists_parse_of_docFor {d : Document} {start : Nat} {item : Option String}
    {doc : NodeDoc} (h : d.docFor start item = some doc) :
    ∀ t ∈ doc.comment.signatureTypes, ∃ y, t = DocType.parse y := by
  obtain ⟨trivia, -, rfl⟩ := Option.map_eq_some_iff.1 h
  intro t ht
  exact DocComment.exists_parse_of_mem ht

/-- **Documented types win.**  Every text is read as a type with at least one name and no name
twice, which stands for at least one type everywhere.  So a comment decides the types of the
parameters and of the result for which it has a type, whatever native types and default values are
there, and so do the comments of functions and methods when these are recorded. -/
theorem documented_types_win (s : String) (a : Atlas) (site : Site) :
    (DocType.ofString s).flatten ≠ [] ∧ (DocType.ofString s).flatten.Nodup ∧
      (∀ c cls, (a.known.resolveDocType c cls (DocType.ofString s)).entries ≠ []) ∧
      (∀ start doc, site.doc.docFor start none = some doc → ∀ ps hint,
        doc.Decides a.known site ps (a.known.parameters site (some doc) ps)
          (a.known.returnTypes site (some doc) hint)) ∧
      ∀ (d : FunctionDecl Expr Stmt) owner kind doc,
        site.doc.docFor d.span.start none = some doc →
          doc.Decides a.known site d.parameters (a.functionOf site d).parameters
            (a.functionOf site d).returns ∧
          doc.Decides a.known site d.parameters (a.methodSymbol site owner kind d).parameters
            (a.methodSymbol site owner kind d).returns := by
  have hdecides : ∀ start doc, site.doc.docFor start none = some doc → ∀ ps hint,
      doc.Decides a.known site ps (a.known.parameters site (some doc) ps)
        (a.known.returnTypes site (some doc) hint) := by
    intro start doc hdoc ps hint
    exact NodeDoc.decides_of_read (Document.exists_parse_of_docFor hdoc) a.known site ps hint
  refine ⟨DocType.flatten_parse_ne_nil _, DocType.nodup_flatten _,
    Known.resolveDocType_ne_nil ⟨_, rfl⟩, hdecides, ?_⟩
  intro d owner kind doc hdoc
  simp only [Atlas.functionOf, Atlas.methodSymbol, hdoc]
  exact ⟨hdecides _ doc hdoc _ _, hdecides _ doc hdoc _ _⟩

/-- A function whose native types and default value differ from what is documented. -/
def documentedFunction : FunctionDecl Expr Stmt :=
  ⟨⟨57, 95⟩, [], ⟨"f", ⟨66, 67⟩⟩,
    [⟨⟨68, 79⟩, [], some (.name ⟨"X", ⟨68, 69⟩⟩), false, false, "$p",
        some (.literal ⟨75, 79⟩ .null), false⟩,
      ⟨⟨81, 88⟩, [], some (.name ⟨"Y", ⟨81, 82⟩⟩), false, true, "$q", none, false⟩],
    some ⟨89, .name ⟨"Z", ⟨91, 92⟩⟩⟩, some ⟨⟨93, 95⟩, []⟩⟩

/-- A file with that function and its documentation. -/
def documentedFile : Document :=
  ⟨"a.php", ("<?php /** @param A|B $p\n@param int|A ...$q\n@return ?C */ " ++
      "function f(X $p = null, Y ...$q): Z {}").toList,
    [.openTag ⟨0, 5⟩, .function documentedFunction],
    [⟨.docComment, ⟨6, 56⟩,
      "/** @param A|B $p\n@param int|A ...$q\n@return ?C */".toList⟩], []⟩

/-- What is stored for that function. -/
def documentedSymbol : FunctionSymbol :=
  Atlas.functionOf ⟨Tables.empty, 10⟩ ⟨documentedFile, documentedFile.scopes, none⟩
    documentedFunction

/-- The variadic parameter has the documented types as arrays, and nothing of its native type. -/
theorem documented_types_win_documentedFunction :
    ∃ doc tag t, documentedFile.docFor documentedFunction.span.start none = some doc ∧
      doc.comment.param? "$q" = some tag ∧ tag.type = some t ∧ t.flatten = ["int", "A"] ∧
      documentedSymbol.parameters.map (·.types.names) = [["\\A", "\\B"], ["int[]", "\\A[]"]] ∧
      documentedSymbol.parameters.getLast?.map (·.types.entries) =
        some ((doc.typesOf Tables.empty.knows ⟨documentedFile, documentedFile.scopes, none⟩
          t).entries.map Known.arrayOf) := by
  have hrun : (documentedFile.docFor documentedFunction.span.start none).isSome = true ∧
      ((documentedFile.docFor documentedFunction.span.start none).bind fun doc =>
        (doc.comment.param? "$q").bind (·.type)).map DocType.flatten = some ["int", "A"] ∧
      documentedSymbol.parameters.map (·.types.names) =
        [["\\A", "\\B"], ["int[]", "\\A[]"]] := by
    decide +kernel
  obtain ⟨hsome, htype, hnames⟩ := hrun
  obtain ⟨doc, hdoc⟩ := Option.isSome_iff_exists.1 hsome
  rw [hdoc, Option.bind_some] at htype
  obtain ⟨t, ht, hflatten⟩ := Option.map_eq_some_iff.1 htype
  obtain ⟨tag, htag, ht⟩ := Option.bind_eq_some_iff.1 ht
  have hdecides := ((documented_types_win "A|B" ⟨Tables.empty, 10⟩
    ⟨documentedFile, documentedFile.scopes, none⟩).2.2.2.2 documentedFunction "" .cls doc hdoc).1
  obtain ⟨-, hrest⟩ := List.forall₂_cons.1 hdecides.parameters
  obtain ⟨hlast, -⟩ := List.forall₂_cons.1 hrest
  exact ⟨doc, tag, t, hdoc, htag, ht, hflatten, hnames, congrArg some (hlast tag t htag ht)⟩

end PhpAtlas
