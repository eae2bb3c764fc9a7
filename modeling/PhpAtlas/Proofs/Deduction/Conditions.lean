import Mathlib
import PhpAtlas.Deduction.Basic
import PhpAtlas.Proofs.Scope.Names

/-!
# What conditions say is true

Candidate types describe the value of a variable: one of them is a type of the value, or there are
none and nothing is known.  A condition that has a truth value says something about the variable,
and what it says holds of every value for which the condition has that truth value.  So candidates
that describe a value before a condition describe it behind the condition, and in each branch of an
`if`.

Words such as `integer` are types of the language wherever they are written, although a class may
have such a name.  A test for a class of that name is read as a test for the builtin type, and there
the candidates no longer describe the object.

## Main definitions

* `Value`, `Value.IsA`, `Value.HasType` — values of a variable and their types.
* `TypeList.Describes` — what it means that candidates are right.
* `Narrowing.Holds` — what it means that a condition says something true.
* `Lookup.Means`, `Lookup.Yields` — conditions, and the truth values they take.

## Main results

* `Narrowing.Holds.and`, `Narrowing.Holds.or` — connectives keep the truth.
* `Narrowing.Holds.apply` — narrowing by something true keeps candidates right.
* `Lookup.Means.narrowing_holds` — what a condition says is true.
* `Lookup.narrowing_sound` — conditions and branches keep candidates right.
* `Lookup.not_forall_narrowing_sound` — a class with the name of a builtin type is lost.
-/

namespace PhpAtlas

/-! ### Values -/

/-- The value of a variable: `null`, or an object with the fully qualified names of its classes. -/
inductive Value
  | null
  | object (classes : Set String) (qualified : ∀ c ∈ classes, Name.isQualified c = true)

namespace Value

/-- Whether a value is an instance of a class. -/
def IsA : Value → String → Prop
  | null, _ => False
  | object classes _, name => ∃ c ∈ classes, foldEq c name = true

/-- Whether a value has a type: `null` has its own, and an object has its classes. -/
def HasType (v : Value) (name : String) : Prop :=
  v.IsA name ∨ v = null ∧ foldEq name "null" = true

/-- No class is called `null`, since the names of classes are fully qualified. -/
theorem isNull_eq_false {v : Value} {t : TypeRef} (h : v.IsA t.full) : t.isNull = false := by
  cases v with
  | null => exact h.elim
  | object classes qualified =>
    obtain ⟨c, hc, hfold⟩ := h
    have hsep : Name.hasSeparator t.full = true := by
      rw [← Name.hasSeparator_fold, ← foldEq_iff.1 hfold, Name.hasSeparator_fold]
      exact Name.hasSeparator_of_isQualified (qualified c hc)
    refine Bool.eq_false_iff.2 fun hnull => ?_
    rw [← Name.hasSeparator_fold, foldEq_iff.1 hnull] at hsep
    exact absurd hsep (by decide)

theorem hasType_of_foldEq {v : Value} {a b : String} (h : foldEq a b = true) :
    v.HasType a → v.HasType b := by
  rintro (hv | ⟨hv, hnull⟩)
  · cases v with
    | null => exact hv.elim
    | object classes qualified =>
      obtain ⟨c, hc, hfold⟩ := hv
      exact .inl ⟨c, hc, foldEq_trans hfold h⟩
  · rw [foldEq_comm] at h
    exact .inr ⟨hv, foldEq_trans h hnull⟩

theorem hasType_null : null.HasType (TypeRef.keyword "null").full := .inr ⟨rfl, by decide⟩

/-- An object of one class. -/
def ofClass (name : String) (h : Name.isQualified name = true) : Value :=
  object {name} fun _ hc => hc ▸ h

theorem isA_ofClass {name other : String} {h : Name.isQualified name = true} :
    (ofClass name h).IsA other ↔ foldEq name other = true := by
  constructor
  · rintro ⟨c, rfl, hfold⟩
    exact hfold
  · exact fun hfold => ⟨name, rfl, hfold⟩

theorem ofClass_ne_null {name : String} {h : Name.isQualified name = true} :
    ofClass name h ≠ null := nofun

end Value

/-! ### Candidates -/

namespace TypeList

variable {v : Value} {types more : TypeList}

/-- One of the candidates is a type of the value. -/
def Covers (types : TypeList) (v : Value) : Prop := ∃ t ∈ types.entries, v.HasType t.full

/-- One of the candidates is a type of the value, or there are none and nothing is known. -/
def Describes (types : TypeList) (v : Value) : Prop := types.entries = [] ∨ types.Covers v

theorem Covers.describes (h : types.Covers v) : types.Describes v := .inr h

theorem covers_single {t : TypeRef} (h : v.HasType t.full) : (single t).Covers v :=
  ⟨t, List.mem_singleton_self t, h⟩

/-- A candidate that is added is there, under its own name or another spelling of it. -/
theorem covers_push {t : TypeRef} (h : types.Covers v ∨ v.HasType t.full) :
    (types.push t).Covers v := by
  rw [push]
  split
  · rename_i hold
    rcases h with h | h
    · exact h
    · obtain ⟨s, hs, hfold⟩ := List.any_eq_true.1 hold
      rw [foldEq_comm] at hfold
      exact ⟨s, hs, Value.hasType_of_foldEq hfold h⟩
  · rcases h with ⟨s, hs, hv⟩ | h
    · exact ⟨s, List.mem_append_left _ hs, hv⟩
    · exact ⟨t, List.mem_append_right _ (List.mem_singleton_self t), h⟩

theorem covers_append (h : types.Covers v ∨ more.Covers v) : (types.append more).Covers v := by
  obtain ⟨added⟩ := more
  rw [append, extend]
  induction added generalizing types with
  | nil =>
    rcases h with h | ⟨t, ht, -⟩
    · exact h
    · cases ht
  | cons t added ih =>
    refine ih ?_
    rcases h with h | ⟨s, hs, hv⟩
    · exact .inl (covers_push (.inl h))
    · rcases List.mem_cons.1 hs with rfl | hs
      · exact .inl (covers_push (.inr hv))
      · exact .inr ⟨s, hs, hv⟩

/-- Leaving out `null` keeps the candidates for an object. -/
theorem Describes.withoutNull (hv : v ≠ .null) (h : types.Describes v) :
    types.withoutNull.Describes v := by
  rcases h with hempty | ⟨t, ht, hisA | ⟨hnull, -⟩⟩
  · left
    rw [TypeList.withoutNull, filter, hempty, List.filter_nil]
  · refine .inr ⟨t, List.mem_filter.2 ⟨ht, ?_⟩, .inl hisA⟩
    rw [Value.isNull_eq_false hisA, Bool.not_false]
  · exact absurd hnull hv

end TypeList

/-! ### What is said about a value -/

namespace Narrowing

variable {v : Value} {m n : Narrowing}

/-- What is said about a variable holds of a value.  No condition below is about builtin types. -/
def Holds (v : Value) : Narrowing → Prop
  | any => True
  | only types => types.Covers v
  | builtin _ => False
  | notNull => v ≠ .null
  | null => v = .null

/-- Nothing is said about builtin types. -/
def Plain : Narrowing → Prop
  | builtin _ => False
  | _ => True

theorem Holds.and (hm : m.Holds v) (hn : n.Holds v) : (m.and n).Holds v := by
  cases m with
  | any => exact hn
  | builtin types => exact hm.elim
  | null => exact hm
  | only types =>
    cases n with
    | only more => exact TypeList.covers_append (.inl hm)
    | _ => exact hm
  | notNull =>
    cases n with
    | only more => exact hn
    | builtin more => exact hn.elim
    | _ => exact hm

theorem Plain.and (hm : m.Plain) (hn : n.Plain) : (m.and n).Plain := by
  cases m with
  | any => exact hn
  | builtin types => exact hm.elim
  | null => exact trivial
  | only types => cases n <;> exact trivial
  | notNull =>
    cases n with
    | builtin more => exact hn.elim
    | _ => exact trivial

/-- A type of a value is still there when `null` is added, and `null` itself has been added. -/
theorem covers_push_null {types : TypeList} (h : types.Covers v ∨ v = .null) :
    (types.push (TypeRef.keyword "null")).Covers v := by
  refine TypeList.covers_push ?_
  rcases h with h | rfl
  · exact .inl h
  · exact .inr Value.hasType_null

theorem Holds.or (hm : m.Plain) (hn : n.Plain) (h : m.Holds v ∨ n.Holds v) : (m.or n).Holds v := by
  cases m with
  | any => exact trivial
  | builtin types => exact hm.elim
  | only types =>
    cases n with
    | only more => exact TypeList.covers_append h
    | builtin more => exact hn.elim
    | null => exact covers_push_null h
    | _ => exact trivial
  | notNull =>
    cases n with
    | notNull => exact h.elim id id
    | _ => exact trivial
  | null =>
    cases n with
    | only more => exact covers_push_null h.symm
    | builtin more => exact hn.elim
    | null => exact h.elim id id
    | _ => exact trivial

theorem Plain.or (hm : m.Plain) (hn : n.Plain) : (m.or n).Plain := by
  cases m with
  | builtin types => exact hm.elim
  | _ => cases n <;> first | exact hn.elim | exact trivial

theorem plain_ofNull (isNull : Bool) : (ofNull isNull).Plain := by
  cases isNull <;> exact trivial

theorem holds_ofNull {isNull : Bool} (h : isNull = true ↔ v = .null) : (ofNull isNull).Holds v := by
  cases isNull with
  | true => exact h.1 rfl
  | false => exact fun hnull => Bool.false_ne_true (h.2 hnull)

/-- Narrowing by something true keeps candidates right. -/
theorem Holds.apply {types : TypeList} (hn : n.Holds v) (h : types.Describes v) :
    (n.apply types).Describes v := by
  cases n with
  | any => exact h
  | only more => exact hn.describes
  | builtin more => exact hn.elim
  | notNull => exact h.withoutNull hn
  | null =>
    obtain rfl : v = .null := hn
    exact (TypeList.covers_single Value.hasType_null).describes

end Narrowing

/-! ### Names of classes -/

namespace Name

/-- Whether a name may be written for a class or a function.  Brackets belong to types, and the
words for the class around a place are no names. -/
def isIdentifier (name : String) : Bool := !name.toList.contains ']' && !foldMem name classWords

/-- Whether a name that is written as a type is read as the name of a class. -/
def namesClass (name : String) : Bool := isIdentifier name && !TypeRef.isBuiltin name

end Name

namespace Text

/-- Nothing is dropped at the end of a text that does not end in a copy. -/
theorem dropTrailingCopies_of_not_mem {a b : Char} {t : Text} (h : b ∉ t) :
    dropTrailingCopies [a, b] t = t := by
  have hback : ∀ n, dropLeadingCopies [b, a] n t.reverse = t.reverse := by
    intro n
    cases n with
    | zero => rfl
    | succ n =>
      have hstrip : stripStart? [b, a] t.reverse = none := by
        refine stripStart?_eq_none_iff.2 fun rest heq => h ?_
        rw [← List.mem_reverse, heq]
        exact List.mem_cons_self
      rw [dropLeadingCopies, hstrip]
  rw [dropTrailingCopies, List.reverse_cons, List.reverse_singleton, List.singleton_append, hback,
    List.reverse_reverse]

end Text

theorem fold_fold (s : String) : fold (fold s) = fold s := by
  rw [fold, fold, String.toList_ofList, Text.fold, Text.fold, List.map_map]
  refine congrArg String.ofList (List.map_congr_left fun c _ => Char.toLower_toLower_eq_toLower c)

theorem ne_of_foldMem_eq_false {name word : String} {words : List String}
    (h : foldMem name words = false) (hword : word ∈ words) (hlower : fold word = word) :
    fold name ≠ word := by
  intro heq
  have hmem : foldMem name words = true :=
    List.any_eq_true.2 ⟨word, hword, foldEq_iff.2 (heq.trans hlower.symm)⟩
  exact Bool.false_ne_true (h.symm.trans hmem)

/-- A name that is read as the name of a class is resolved like one. -/
theorem Known.resolveType_of_namesClass (known : Known) (c : NameContext)
    (cls : Option ClassScope) {name : String} (h : Name.namesClass name = true) :
    known.resolveType c cls name = ⟨name, known.resolve c .classlike name⟩ := by
  simp only [Name.namesClass, Name.isIdentifier, Bool.and_eq_true, Bool.not_eq_true'] at h
  obtain ⟨⟨hbracket, hword⟩, hbuiltin⟩ := h
  have hsplit : splitBrackets name = (name, "") := by
    have hmem : ']' ∉ name.toList := by
      intro hmem
      rw [List.contains_iff_mem.2 hmem] at hbracket
      cases hbracket
    simp [splitBrackets, Text.dropTrailingCopies_of_not_mem hmem]
  have hlower : TypeRef.isBuiltin (fold name) = false := by
    have hsame : foldEq (fold name) = foldEq name := by
      funext word
      rw [foldEq, foldEq, fold_fold]
    rw [← hbuiltin, TypeRef.isBuiltin, TypeRef.isBuiltin, foldMem, foldMem, hsame]
  have hbase : known.resolveBase c cls name = known.resolve c .classlike name := by
    rw [resolveBase]
    split
    · exact absurd ‹_› (ne_of_foldMem_eq_false hword (by decide) (by decide))
    · exact absurd ‹_› (ne_of_foldMem_eq_false hword (by decide) (by decide))
    · exact absurd ‹_› (ne_of_foldMem_eq_false hbuiltin (by decide) (by decide))
    · exact absurd ‹_› (ne_of_foldMem_eq_false hbuiltin (by decide) (by decide))
    · exact absurd ‹_› (ne_of_foldMem_eq_false hbuiltin (by decide) (by decide))
    · rw [if_neg (Bool.eq_false_iff.1 hlower)]
  rw [resolveType, hsplit]
  simp only [hbase, String.append_empty]

/-! ### Conditions -/

/-- For which values of the variable a condition may have which truth value. -/
abbrev Meaning := Value → Bool → Prop

namespace Meaning

/-- The operand has the other truth value. -/
def not (m : Meaning) : Meaning := fun v b => m v (!b)

/-- The right operand counts only where the left one holds. -/
def and (m n : Meaning) : Meaning := fun v b => m v false ∧ b = false ∨ m v true ∧ n v b

/-- The right operand counts only where the left one fails. -/
def or (m n : Meaning) : Meaning := fun v b => m v true ∧ b = true ∨ m v false ∧ n v b

end Meaning

namespace Lookup

variable {l : Lookup} {p : Point} {names : String → Bool} {v : Value} {e : Expr} {m n : Meaning}

/-- Conditions with their meaning.  They are built by negation, conjunction and disjunction from
tests of the variable and from conditions that say nothing about it, whose truth value is open.
Which names are written for classes in instance tests is left to `names`. -/
inductive Means (l : Lookup) (p : Point) (names : String → Bool) : Expr → Meaning → Prop
  | paren (span : Span) {e : Expr} {m : Meaning} (inner : l.Means p names e m) :
      l.Means p names (.paren span e) m
  | not (span : Span) {e : Expr} {m : Meaning} (operand : l.Means p names e m) :
      l.Means p names (.unary span .not e) m.not
  | and (span : Span) {op : BinaryOp} {left right : Expr} {m n : Meaning}
      (hop : op.connective = .conjunction) (hleft : l.Means p names left m)
      (hright : l.Means p names right n) : l.Means p names (.binary span op left right) (m.and n)
  | or (span : Span) {op : BinaryOp} {left right : Expr} {m n : Meaning}
      (hop : op.connective = .disjunction) (hleft : l.Means p names left m)
      (hright : l.Means p names right n) : l.Means p names (.binary span op left right) (m.or n)
  | instanceOf (span : Span) {left : Expr} {r : NameRef} (hvar : left.varName? = some l.var)
      (hname : names r.text = true) :
      l.Means p names (.binary span .instanceOf left (.name r)) fun v b =>
        b = true ↔ v.IsA (l.known.resolve (l.site.contextAt p.offset) .classlike r.text)
  | compareNull (span : Span) {op : BinaryOp} {left right : Expr} {positive : Bool}
      (hop : op.connective = .equality positive) (hnull : comparesNull l.var left right = true) :
      l.Means p names (.binary span op left right) fun v b => b = positive ↔ v = .null
  | bare (span : Span) : l.Means p names (.var span l.var) fun v b => b = true ↔ v ≠ .null
  | isNull (span : Span) {r : NameRef} {argument : Expr}
      (hname : fold (String.ofList (Text.dropLeading Name.separator r.text.toList)) = "is_null")
      (hvar : argument.varName? = some l.var) :
      l.Means p names (.call span (.function (.name r)) [.value argument]) fun v b =>
        b = true ↔ v = .null
  | silent {e : Expr} (hquiet : ∀ truth, l.narrowing p e truth = some .any) :
      l.Means p names e fun _ _ => True

/-- What a test for a class says. -/
theorem narrowing_instanceOf {span : Span} {left : Expr} {r : NameRef}
    (hvar : left.varName? = some l.var) (hname : Name.namesClass r.text = true) (truth : Bool) :
    l.narrowing p (.binary span .instanceOf left (.name r)) truth = some (if truth then
      .only (TypeList.single
        ⟨r.text, l.known.resolve (l.site.contextAt p.offset) .classlike r.text⟩) else .any) := by
  rw [narrowing, BinaryOp.connective, instanceNarrowing, hvar]
  cases truth with
  | false => rfl
  | true =>
    rw [classTypes, Known.classReference?, Known.resolveType_of_namesClass _ _ _ hname]
    simp [Narrowing.ofTypes, TypeList.single, TypeList.isEmpty]

/-- What a call of `is_null` says. -/
theorem narrowing_isNull {span : Span} {r : NameRef} {argument : Expr}
    (hname : fold (String.ofList (Text.dropLeading Name.separator r.text.toList)) = "is_null")
    (hvar : argument.varName? = some l.var) (truth : Bool) :
    l.narrowing p (.call span (.function (.name r)) [.value argument]) truth =
      some (.ofNull truth) := by
  have htest : testNarrowing r.text truth = .ofNull truth := by
    unfold testNarrowing
    extract_lets name
    have hisNull : (name == "is_null") = true := beq_iff_eq.2 hname
    rw [if_pos hisNull]
  rw [narrowing, Slot.value?, Option.bind_some, hvar, if_pos (beq_self_eq_true _), htest]

/-- What a condition says about the variable holds of every value for which the condition has the
truth value.  Builtin types are never among it, so it may be weakened by a disjunction. -/
theorem Means.narrowing_holds (h : l.Means p Name.namesClass e m) (truth : Bool) :
    ∃ said, l.narrowing p e truth = some said ∧ said.Plain ∧ ∀ v, m v truth → said.Holds v := by
  induction h generalizing truth with
  | paren span inner ih =>
    rw [narrowing]
    exact ih truth
  | not span operand ih =>
    rw [narrowing]
    exact ih (!truth)
  | @and span op left right m n hop hleft hright ihleft ihright =>
    obtain ⟨a, ha, hplaina, hholdsa⟩ := ihleft truth
    obtain ⟨b, hb, hplainb, hholdsb⟩ := ihright truth
    rw [narrowing, hop, ha, hb]
    cases truth with
    | true =>
      refine ⟨a.and b, rfl, hplaina.and hplainb, fun v hv => ?_⟩
      obtain ⟨-, hfalse⟩ | ⟨hm, hn⟩ := hv
      · cases hfalse
      · exact (hholdsa v hm).and (hholdsb v hn)
    | false =>
      refine ⟨a.or b, rfl, hplaina.or hplainb, fun v hv => ?_⟩
      obtain ⟨hm, -⟩ | ⟨-, hn⟩ := hv
      · exact .or hplaina hplainb (.inl (hholdsa v hm))
      · exact .or hplaina hplainb (.inr (hholdsb v hn))
  | @or span op left right m n hop hleft hright ihleft ihright =>
    obtain ⟨a, ha, hplaina, hholdsa⟩ := ihleft truth
    obtain ⟨b, hb, hplainb, hholdsb⟩ := ihright truth
    rw [narrowing, hop, ha, hb]
    cases truth with
    | true =>
      refine ⟨a.or b, rfl, hplaina.or hplainb, fun v hv => ?_⟩
      obtain ⟨hm, -⟩ | ⟨-, hn⟩ := hv
      · exact .or hplaina hplainb (.inl (hholdsa v hm))
      · exact .or hplaina hplainb (.inr (hholdsb v hn))
    | false =>
      refine ⟨a.and b, rfl, hplaina.and hplainb, fun v hv => ?_⟩
      obtain ⟨-, htrue⟩ | ⟨hm, hn⟩ := hv
      · cases htrue
      · exact (hholdsa v hm).and (hholdsb v hn)
  | instanceOf span hvar hname =>
    refine ⟨_, narrowing_instanceOf hvar hname truth, ?_⟩
    cases truth with
    | true => exact ⟨trivial, fun v hv => TypeList.covers_single (.inl (hv.1 rfl))⟩
    | false => exact ⟨trivial, fun _ _ => trivial⟩
  | @compareNull span op left right positive hop hnull =>
    refine ⟨.ofNull (positive == truth), ?_, Narrowing.plain_ofNull _, fun v hv => ?_⟩
    · rw [narrowing, hop]
      simp only [equalityNarrowing, hnull, if_true]
    · refine Narrowing.holds_ofNull ?_
      rw [beq_iff_eq, eq_comm]
      exact hv
  | bare span =>
    refine ⟨.ofNull (!truth), ?_, Narrowing.plain_ofNull _, fun v hv => ?_⟩
    · rw [narrowing, if_pos (beq_self_eq_true _)]
    · have hv : truth = true ↔ v ≠ .null := hv
      refine Narrowing.holds_ofNull ?_
      rw [Bool.not_eq_true', ← Bool.not_eq_true, hv, not_not]
  | isNull span hname hvar =>
    exact ⟨.ofNull truth, narrowing_isNull hname hvar truth, Narrowing.plain_ofNull _,
      fun v hv => Narrowing.holds_ofNull hv⟩
  | silent hquiet => exact ⟨.any, hquiet truth, trivial, fun _ _ => trivial⟩

/-! ### Candidates behind conditions -/

/-- A condition has a truth value when the variable has a value. -/
def Yields (l : Lookup) (p : Point) (names : String → Bool) (v : Value) (truth : Bool)
    (e : Expr) : Prop := ∃ m, l.Means p names e m ∧ m v truth

theorem assume_describes {truth : Bool} {types : TypeList}
    (h : l.Yields p Name.namesClass v truth e) (hdescribes : types.Describes v) :
    ∃ rest, l.assume p e truth types = some rest ∧ rest.Describes v := by
  obtain ⟨m, hmeans, hv⟩ := h
  obtain ⟨said, hsaid, -, hholds⟩ := hmeans.narrowing_holds truth
  refine ⟨said.apply types, ?_, (hholds v hv).apply hdescribes⟩
  rw [assume, hsaid, Option.map_some]

theorem assumeFailed_describes {failed : List Expr} {types : TypeList}
    (h : ∀ e ∈ failed, l.Yields p Name.namesClass v false e) (hdescribes : types.Describes v) :
    ∃ rest, l.assumeFailed p failed types = some rest ∧ rest.Describes v := by
  induction failed generalizing types with
  | nil => exact ⟨types, rfl, hdescribes⟩
  | cons e failed ih =>
    obtain ⟨next, hnext, hdescribes⟩ := assume_describes (h e List.mem_cons_self) hdescribes
    obtain ⟨rest, hrest, hdescribes⟩ :=
      ih (fun e he => h e (List.mem_cons_of_mem _ he)) hdescribes
    refine ⟨rest, ?_, hdescribes⟩
    rw [assumeFailed, List.foldlM_cons, hnext]
    exact hrest

theorem assumeBranch_describes {failed : List Expr} {own : Option Expr} {types : TypeList}
    (hfailed : ∀ e ∈ failed, l.Yields p Name.namesClass v false e)
    (hown : ∀ e ∈ own, l.Yields p Name.namesClass v true e) (hdescribes : types.Describes v) :
    ∃ rest, l.assumeBranch p failed own types = some rest ∧ rest.Describes v := by
  obtain ⟨rest, hrest, hdescribes⟩ := assumeFailed_describes hfailed hdescribes
  cases own with
  | none => exact ⟨rest, by rw [assumeBranch, hrest]; rfl, hdescribes⟩
  | some condition =>
    obtain ⟨last, hlast, hdescribes⟩ := assume_describes (hown condition rfl) hdescribes
    exact ⟨last, by rw [assumeBranch, hrest]; exact hlast, hdescribes⟩

/-- The walk enters the first branch that holds the position, behind all conditions before it. -/
theorem inBranch_append {before after : List (Branch Expr Stmt)} {b : Branch Expr Stmt}
    (hbefore : ∀ earlier ∈ before, p.within earlier.body.span = false)
    (hwithin : p.within b.body.span = true) (failed : List Expr) (conditional : Bool)
    (types : TypeList) :
    l.inBranch failed (before ++ b :: after) p conditional types = (do
      let rest ← l.assumeBranch p (failed ++ before.filterMap (·.condition)) b.condition types
      return some (← l.walk b.body.statements p conditional rest)) := by
  induction before generalizing failed with
  | nil =>
    obtain ⟨own, span, inner⟩ := b
    rw [List.nil_append, inBranch, if_pos hwithin, List.filterMap_nil, List.append_nil]
  | cons earlier before ih =>
    obtain ⟨own, span, inner⟩ := earlier
    have houtside : p.within span = false := hbefore _ List.mem_cons_self
    rw [List.cons_append, inBranch, if_neg (Bool.eq_false_iff.1 houtside),
      ih fun e he => hbefore e (List.mem_cons_of_mem _ he), List.append_assoc]
    cases own <;> rfl

/-- Candidates that describe a value describe it behind every condition with the truth value that
the condition takes for it, and in the branch of an `if` whose condition holds for it while those
of all earlier branches fail. -/
theorem narrowing_sound (l : Lookup) (p : Point) (v : Value) (types : TypeList)
    (hdescribes : types.Describes v) :
    (∀ condition truth, l.Yields p Name.namesClass v truth condition →
      ∃ rest, l.assume p condition truth types = some rest ∧ rest.Describes v) ∧
    ∀ span before b after conditional,
      (∀ earlier ∈ before, p.within earlier.body.span = false ∧
        ∀ condition ∈ earlier.condition, l.Yields p Name.namesClass v false condition) →
      (∀ condition ∈ b.condition, l.Yields p Name.namesClass v true condition) →
      p.within b.body.span = true → firstCondition? p (before ++ b :: after) = none →
      ∃ rest, l.assumeBranch p (before.filterMap (·.condition)) b.condition types = some rest ∧
        rest.Describes v ∧
        l.walkStmt (.cond span (before ++ b :: after)) p conditional types =
          l.walk b.body.statements p conditional rest := by
  refine ⟨fun condition truth h => assume_describes h hdescribes, ?_⟩
  intro span before b after conditional hbefore hown hwithin hfirst
  have hfailed : ∀ e ∈ before.filterMap (·.condition), l.Yields p Name.namesClass v false e := by
    intro e he
    obtain ⟨earlier, hmem, hcondition⟩ := List.mem_filterMap.1 he
    exact (hbefore earlier hmem).2 e hcondition
  obtain ⟨rest, hrest, hdescribes⟩ := assumeBranch_describes hfailed hown hdescribes
  refine ⟨rest, hrest, hdescribes, ?_⟩
  rw [walkStmt, hfirst, inBranch_append (fun e he => (hbefore e he).1) hwithin, List.nil_append,
    hrest]
  cases hwalk : l.walk b.body.statements p conditional rest <;> simp [hwalk]

/-- The look-up of `$x` in a document that nothing else is known of. -/
def ofSource (source : String) : Lookup :=
  let doc := Document.ofSource "a.php" source
  ⟨fun _ _ => false, ⟨doc, doc.scopes, none⟩, "$x", fun _ _ => none⟩

/-- A test for `null`, and behind it one for a class or for something else. -/
def guarded : Lookup :=
  ofSource <| "<?php if ($x === null) { 1; } " ++
    "elseif (!is_null($x) && ($x instanceof Foo || f())) { 2; }"

/-- The first branch of the document. -/
def nullBranch : Branch Expr Stmt :=
  ⟨some (.binary ⟨10, 21⟩ .identical (.var ⟨10, 12⟩ "$x") (.literal ⟨17, 21⟩ .null)),
    ⟨⟨23, 29⟩, [.expression ⟨25, 27⟩ (.literal ⟨25, 26⟩ .integer)]⟩⟩

/-- The second branch of the document. -/
def classBranch : Branch Expr Stmt :=
  ⟨some (.binary ⟨38, 80⟩ .and
      (.unary ⟨38, 50⟩ .not
        (.call ⟨39, 50⟩ (.function (.name ⟨"is_null", ⟨39, 46⟩⟩)) [.value (.var ⟨47, 49⟩ "$x")]))
      (.paren ⟨54, 80⟩ (.binary ⟨55, 79⟩ .or
        (.binary ⟨55, 72⟩ .instanceOf (.var ⟨55, 57⟩ "$x") (.name ⟨"Foo", ⟨69, 72⟩⟩))
        (.call ⟨76, 79⟩ (.function (.name ⟨"f", ⟨76, 77⟩⟩)) [])))),
    ⟨⟨82, 88⟩, [.expression ⟨84, 86⟩ (.literal ⟨84, 85⟩ .integer)]⟩⟩

/-- Behind both conditions, the candidates `Foo` and `null` still describe an object of `Foo`. -/
theorem narrowing_sound_guarded :
    let foo := Value.ofClass "\\Foo" (by decide)
    let types := (TypeList.single ⟨"Foo", "\\Foo"⟩).push (TypeRef.keyword "null")
    types.Describes foo ∧
    (∀ c ∈ nullBranch.condition, guarded.Yields ⟨85, 0⟩ Name.namesClass foo false c) ∧
    (∀ c ∈ classBranch.condition, guarded.Yields ⟨85, 0⟩ Name.namesClass foo true c) ∧
    ∃ rest, guarded.assumeBranch ⟨85, 0⟩ nullBranch.condition.toList classBranch.condition types =
        some rest ∧ rest.Describes foo ∧
      guarded.walkStmt (.cond ⟨6, 88⟩ [nullBranch, classBranch]) ⟨85, 0⟩ false types =
        guarded.walk classBranch.body.statements ⟨85, 0⟩ false rest := by
  intro foo types
  have hfoo : foo ≠ .null := Value.ofClass_ne_null
  have hsingle : (TypeList.single ⟨"Foo", "\\Foo"⟩).Covers foo :=
    TypeList.covers_single (.inl (Value.isA_ofClass.2 (foldEq_refl _)))
  have hdescribes : types.Describes foo := (TypeList.covers_push (.inl hsingle)).describes
  have hnull : ∀ c ∈ nullBranch.condition, guarded.Yields ⟨85, 0⟩ Name.namesClass foo false c := by
    rintro c ⟨⟩
    refine ⟨_, .compareNull _ rfl (by decide), ?_⟩
    exact iff_of_false (by decide) hfoo
  have hclass : ∀ c ∈ classBranch.condition,
      guarded.Yields ⟨85, 0⟩ Name.namesClass foo true c := by
    rintro c ⟨⟩
    refine ⟨_, .and _ rfl (.not _ (.isNull _ (by decide) rfl)) (.paren _ (.or _ rfl
      (.instanceOf _ rfl (by decide)) (.silent fun _ => rfl))), ?_⟩
    refine .inr ⟨iff_of_false (by decide) hfoo, .inl ⟨iff_of_true rfl ?_, rfl⟩⟩
    exact Value.isA_ofClass.2 (by decide +kernel)
  refine ⟨hdescribes, hnull, hclass, ?_⟩
  refine (narrowing_sound guarded ⟨85, 0⟩ foo types hdescribes).2 _ [nullBranch] classBranch [] _
    (fun b hb => ?_) hclass (by decide) (by decide)
  rw [List.mem_singleton.1 hb]
  exact ⟨by decide, hnull⟩

/-- Not every name of a class is one: an object of a class `Integer` passes the test for that
class, but behind the test the candidates only hold the builtin type. -/
theorem not_forall_narrowing_sound :
    ¬ ∀ (l : Lookup) (p : Point) (v : Value) (types : TypeList) (condition : Expr) (truth : Bool),
      types.Describes v → l.Yields p Name.isIdentifier v truth condition →
      ∃ rest, l.assume p condition truth types = some rest ∧ rest.Describes v := by
  intro h
  let integer := Value.ofClass "\\Integer" (by decide)
  let l := ofSource
    "<?php class Integer {} function f(\\Integer $x) { if ($x instanceof Integer) { 1; } }"
  obtain ⟨rest, hrest, hdescribes⟩ := h l ⟨78, 0⟩ integer
    (TypeList.single ⟨"Integer", "\\Integer"⟩)
    (.binary ⟨53, 74⟩ .instanceOf (.var ⟨53, 55⟩ "$x") (.name ⟨"Integer", ⟨67, 74⟩⟩)) true
    (TypeList.covers_single (.inl (Value.isA_ofClass.2 (foldEq_refl _)))).describes
    ⟨_, .instanceOf _ rfl (by decide), iff_of_true rfl (Value.isA_ofClass.2 (by decide +kernel))⟩
  have hint : rest = TypeList.single ⟨"Integer", "int"⟩ := by
    rw [← Option.some_inj, ← hrest]
    rfl
  rw [hint] at hdescribes
  rcases hdescribes with hempty | ⟨t, ht, hisA | ⟨hnull, -⟩⟩
  · cases hempty
  · rw [List.mem_singleton.1 ht, Value.isA_ofClass] at hisA
    exact absurd hisA (by decide)
  · exact Value.ofClass_ne_null hnull

end Lookup
end PhpAtlas
