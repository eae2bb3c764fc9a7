import Mathlib
import PhpAtlas.Proofs.Doc.Forms

/-!
# Reading a written type

Each constructor of a type is written as an operator around the texts of its operands, and reading
the text finds this operator again, if the operands have no separator that is seen there.

## Main definitions

* `DocType.IsContainer` — a name of an iterable class.
* `DocType.generic` — an iterable class with its values, as a text.
* `DocType.Neat` — what is common to the texts of types.

## Main results

* `DocType.parse_print_array`, `DocType.parse_print_nullable`, `DocType.parse_print_union`,
  `DocType.parse_print_iterable` — reading the text of each operator.
-/

namespace PhpAtlas

open Text

theorem Text.isBlank_of_isAlpha {c : Char} (h : c.isAlpha = true) : isBlank c = false := by
  simp only [Char.isAlpha, Char.isUpper, Char.isLower, Bool.or_eq_true, Bool.and_eq_true,
    decide_eq_true_eq, UInt32.le_iff_toNat_le, ge_iff_le] at h
  have hn : c.toNat = c.val.toNat := rfl
  simp only [isBlank, hn]
  simp at h ⊢
  omega

namespace DocType

/-! ### Iterable classes -/

/-- A name of an iterable class, with any number of backslashes in front. -/
def IsContainer (base : Text) : Prop :=
  foldMem (String.ofList (dropLeading '\\' base)) iterableClasses = true

theorem exists_of_foldMem {t : Text} {words : List String}
    (h : foldMem (String.ofList t) words = true) :
    ∃ w ∈ words, Text.fold t = Text.fold w.toList := by
  obtain ⟨w, hw, hfold⟩ := List.any_eq_true.1 h
  rw [foldEq_iff, fold, fold, String.toList_ofList] at hfold
  exact ⟨w, hw, String.ofList_injective hfold⟩

/-- The name of an iterable class has only letters. -/
theorem isAlpha_of_foldMem {t : Text} (h : foldMem (String.ofList t) iterableClasses = true)
    {c : Char} (hc : c ∈ t) : c.isAlpha = true := by
  obtain ⟨w, hw, heq⟩ := exists_of_foldMem h
  have hletters : ∀ w ∈ iterableClasses, (Text.fold w.toList).all Char.isAlpha = true := by decide
  have hfold : c.toLower ∈ Text.fold w.toList := heq ▸ List.mem_map_of_mem hc
  rw [← Char.isAlpha_toLower_eq_isAlpha]
  exact List.all_eq_true.1 (hletters w hw) _ hfold

theorem IsContainer.isAlpha {base : Text} (h : IsContainer base) {c : Char} (hc : c ∈ base)
    (hslash : c ≠ '\\') : c.isAlpha = true := by
  refine isAlpha_of_foldMem h ?_
  rw [← List.takeWhile_append_dropWhile (p := (· == '\\')) (l := base), List.mem_append] at hc
  refine hc.resolve_left fun htake => hslash ?_
  exact beq_iff_eq.1 (List.mem_takeWhile_imp (p := (· == '\\')) htake)

theorem IsContainer.isPlain {base : Text} (h : IsContainer base) : base.isPlain = true :=
  isPlain_of_forall (p := fun c => c.isAlpha || c == '\\') (by decide) fun c hc => by
    by_cases hslash : c = '\\'
    · rw [hslash]
      rfl
    · rw [h.isAlpha hc hslash, Bool.true_or]

theorem IsContainer.ne_nil {base : Text} (h : IsContainer base) : base ≠ [] := by
  rintro rfl
  obtain ⟨w, hw, heq⟩ := exists_of_foldMem h
  have hwords : ∀ w ∈ iterableClasses, Text.fold (dropLeading '\\' []) ≠ Text.fold w.toList := by
    decide
  exact hwords w hw heq

theorem IsContainer.isBlank {base : Text} (h : IsContainer base) {c : Char} (hc : c ∈ base) :
    Text.isBlank c = false := by
  by_cases hslash : c = '\\'
  · rw [hslash]
    decide
  · exact isBlank_of_isAlpha (h.isAlpha hc hslash)

theorem IsContainer.tight {base : Text} (h : IsContainer base) : Tight base :=
  ⟨fun _ hc => h.isBlank (List.mem_of_head? hc), fun _ hc => h.isBlank (List.mem_of_getLast? hc)⟩

/-- Such a name is none of a list of other words. -/
theorem IsContainer.fold_ne {base : Text} (h : IsContainer base) {words : List String}
    (hslash : ∀ v ∈ words, v.toList.head? ≠ some '\\')
    (hwords : ∀ v ∈ words, ∀ w ∈ iterableClasses, v.toList ≠ Text.fold w.toList) :
    ∀ v ∈ words, Text.fold base ≠ v.toList := by
  intro v hv heq
  obtain ⟨w, hw, hfold⟩ := exists_of_foldMem h
  by_cases hhead : base.head? = some '\\'
  · refine hslash v hv ?_
    rw [← heq, Text.fold, List.head?_map, hhead]
    decide
  · have hdrop : dropLeading '\\' base = base := dropWhile_of_head fun c hc => by
      rw [beq_eq_false_iff_ne]
      rintro rfl
      exact hhead hc
    rw [hdrop] at hfold
    exact hwords v hv w hw (heq.symm.trans hfold)

theorem IsContainer.not_list {base : Text} (h : IsContainer base) :
    foldMem (String.ofList base) listWords = false := by
  by_contra hlist
  rw [Bool.not_eq_false] at hlist
  obtain ⟨v, hv, heq⟩ := exists_of_foldMem hlist
  have hlower : ∀ v ∈ listWords, Text.fold v.toList = v.toList := by decide
  have hne : ∀ v ∈ listWords, Text.fold base ≠ v.toList := h.fold_ne (by decide) (by decide)
  exact hne v hv (heq.trans (hlower v hv))

theorem IsContainer.not_scalar {base : Text} (h : IsContainer base) :
    ∀ p ∈ scalarWords, p.1 ≠ String.ofList (Text.fold base) := by
  have hne : ∀ v ∈ scalarWords.map (·.1), Text.fold base ≠ v.toList :=
    h.fold_ne (by decide) (by decide)
  intro p hp heq
  refine hne p.1 (List.mem_map_of_mem hp) ?_
  rw [heq, String.toList_ofList]

theorem IsContainer.not_special {base : Text} (h : IsContainer base) :
    String.ofList (Text.fold base) ∉ specialWords := by
  have hne : ∀ v ∈ specialWords, Text.fold base ≠ v.toList := h.fold_ne (by decide) (by decide)
  intro hmem
  exact hne _ hmem String.toList_ofList.symm

theorem IsContainer.parse_eq {base : Text} (h : IsContainer base) :
    parse base = asWritten base := by
  rw [parse_of_tight h.tight, TypeForm.of_of_isPlain h.ne_nil h.isPlain]
  exact ofAtom_of_not_word h.not_scalar h.not_special

theorem IsContainer.isLeaf {base : Text} (h : IsContainer base) : IsLeaf (parse base) := by
  rw [parse_of_tight h.tight, TypeForm.of_of_isPlain h.ne_nil h.isPlain]
  exact isLeaf_ofAtom h.tight (TypeForm.of_of_isPlain h.ne_nil h.isPlain)

/-- The text of an iterable class with the type of its values. -/
def generic (base t : Text) : Text := base ++ '<' :: t ++ ['>']

theorem exposed_generic {base : Text} (hbase : IsContainer base) {sep : Char}
    (hsep : sep ∈ operatorChars) (hopen : '<' ≠ sep) (hclose : '>' ≠ sep) (depth : Int)
    (t : Text) : exposed sep depth (generic base t) = exposed sep (depth + 1) t := by
  have hlast : sep ∉ ['>'] := by simpa using Ne.symm hclose
  rw [generic, exposed_append, exposed_append,
    exposed_of_not_mem (not_mem_of_isPlain hbase.isPlain hsep), exposed_cons_of_ne hopen,
    net_of_isPlain hbase.isPlain, exposed_of_not_mem hlast, Bool.or_false, Int.add_zero]
  rfl

theorem generic?_generic {base t : Text} (hbase : IsContainer base) (htight : Tight t)
    (hcomma : exposed ',' 0 t = false) : TypeForm.generic? (generic base t) = some (base, [t]) := by
  have hsplit : splitOnce? (· == '<') (generic base t) = some (base, t ++ ['>']) := by
    rw [generic, List.append_assoc, List.cons_append]
    refine splitOnce?_append_cons (fun c hc => ?_) (by decide)
    rw [beq_eq_false_iff_ne]
    exact ne_of_isPlain hbase.isPlain hc (by decide)
  have hend : stripEnd? ['>'] (generic base t) = some (base ++ '<' :: t) :=
    stripEnd?_eq_some_iff.2 rfl
  rw [TypeForm.generic?, hsplit, hend]
  simp only [List.dropLast_concat, outerParts_of_not_exposed hcomma, htight.trim_eq]

theorem head?_generic {base : Text} (hbase : IsContainer base) (t : Text) :
    ∃ c ∈ base, (generic base t).head? = some c := by
  obtain ⟨c, rest, rfl⟩ := List.exists_cons_of_ne_nil hbase.ne_nil
  exact ⟨c, List.mem_cons_self, rfl⟩

theorem head?_generic_ne {base : Text} (hbase : IsContainer base) (t : Text) {d : Char}
    (hd : d ∈ operatorChars) : (generic base t).head? ≠ some d := by
  obtain ⟨c, hc, hhead⟩ := head?_generic hbase t
  rw [hhead]
  exact fun heq => ne_of_isPlain hbase.isPlain hc hd (Option.some.inj heq)

theorem getLast?_generic (base t : Text) : (generic base t).getLast? = some '>' :=
  List.getLast?_concat

theorem tight_generic {base : Text} (hbase : IsContainer base) (t : Text) :
    Tight (generic base t) := by
  obtain ⟨c, hc, hhead⟩ := head?_generic hbase t
  exact tight_of_ends hhead (getLast?_generic base t) (hbase.isBlank hc) (by decide)

/-- An iterable class with the type of its values. -/
theorem parse_generic {base t : Text} (hbase : IsContainer base) (htight : Tight t) (hne : t ≠ [])
    (h : Sealed 1 t) (hcomma : exposed ',' 0 t = false) :
    parse (generic base t) = .iterable (parse base) (parse t) := by
  have hsealed : Sealed 0 (generic base t) :=
    ⟨(exposed_generic hbase (by decide) (by decide) (by decide) 0 t).trans h.1,
      (exposed_generic hbase (by decide) (by decide) (by decide) 0 t).trans h.2⟩
  have hfull : generic base t ≠ [] := by simp [generic]
  have hquery : stripStart? ['?'] (generic base t) = none :=
    stripStart?_eq_none_of_head? (by decide) (head?_generic_ne hbase t (by decide))
  have hend : stripEnd? ['[', ']'] (generic base t) = none :=
    stripEnd?_eq_none_of_getLast? (by decide) (by rw [getLast?_generic]; decide)
  have hgroup : TypeForm.group? (generic base t) = none :=
    TypeForm.group?_eq_none (head?_generic_ne hbase t (by decide))
  have helements : elementsOf base [t] = .values t := by
    have hcontainer : foldMem (String.ofList (dropLeading '\\' base)) iterableClasses = true :=
      hbase
    rw [elementsOf, hbase.not_list, if_neg (by decide)]
    exact if_pos (by simpa [valueArgument, hne] using hcontainer)
  rw [parse_of_tight (tight_generic hbase t), TypeForm.of_eq_ofOperand hfull hsealed,
    TypeForm.ofOperand, hquery, hend, hgroup, generic?_generic hbase htight hcomma]
  simp only [readForm, helements]

/-! ### Operators -/

theorem head?_enclosedIf {needed : Bool} {t : Text} (h : needed = false → t.head? ≠ some '?') :
    (enclosedIf needed t).head? ≠ some '?' := by
  cases needed with
  | false => exact h rfl
  | true =>
    intro hhead
    cases Option.some.inj hhead

theorem tight_enclosedIf {t : Text} (h : Tight t) (needed : Bool) :
    Tight (enclosedIf needed t) := by
  cases needed with
  | false => exact h
  | true => exact tight_of_ends rfl List.getLast?_concat (by decide) (by decide)

theorem print_array (e : DocType) :
    (array e).print = enclosedIf e.isOperand e.print ++ ['[', ']'] := by
  rw [print]
  rfl

theorem print_nullable (e : DocType) :
    (nullable e).print = '?' :: enclosedIf e.isUnion e.print := by
  rw [print]
  rfl

theorem print_iterable (c v : DocType) : (iterable c v).print = generic c.print v.print := by
  rw [print]
  rfl

theorem printAll_eq_map (members : List DocType) : printAll members = members.map print := by
  induction members with
  | nil => rfl
  | cons m members ih => rw [printAll, ih, List.map_cons]

theorem print_union (members : List DocType) :
    (union members).print = join ['|'] (members.map print) := by
  rw [print, printAll_eq_map]

theorem isUnion_of_not_isOperand {t : DocType} (h : t.isOperand = false) : t.isUnion = false := by
  cases t with
  | union members => cases h
  | _ => rfl

/-- What is common to the texts of types: a question mark in front is that of an operand. -/
structure Neat (t : DocType) : Prop where
  ne_nil : t.print ≠ []
  tight : Tight t.print
  head : t.isOperand = false → t.print.head? ≠ some '?'
  brace : '\x7b' ∉ t.print

theorem IsLeaf.neat {t : DocType} (h : IsLeaf t) : Neat t := by
  have hdescribes := TypeForm.describes_of t.print
  rw [h.atom] at hdescribes
  exact ⟨h.ne_nil, h.tight, fun _ => hdescribes.2.1, hdescribes.2.2⟩

theorem brace_enclosedIf {t : Text} (h : '\x7b' ∉ t) (needed : Bool) :
    '\x7b' ∉ enclosedIf needed t := by
  cases needed with
  | false => exact h
  | true => simpa [enclosedIf, bracket] using h

theorem Neat.array {e : DocType} (h : Neat e) : Neat (.array e) := by
  have htight : Tight (enclosedIf e.isOperand e.print ++ ['[', ']']) :=
    tight_append_cons (tight_enclosedIf h.tight _) (by decide)
      (tight_of_ends rfl rfl (by decide) (by decide))
  have hbrace := brace_enclosedIf h.brace e.isOperand
  constructor
  · simp [print_array]
  · rwa [print_array]
  · intro _
    rw [print_array]
    exact head?_append_brackets (head?_enclosedIf h.head)
  · simpa [print_array] using hbrace

theorem Neat.nullable {e : DocType} (h : Neat e) : Neat (.nullable e) := by
  have hbrace := brace_enclosedIf h.brace e.isUnion
  constructor
  · simp [print_nullable]
  · rw [print_nullable]
    exact tight_cons (by decide) (tight_enclosedIf h.tight _)
  · exact fun hoperand => nomatch hoperand
  · simpa [print_nullable] using hbrace

theorem brace_join {ws : List Text} (h : ∀ w ∈ ws, '\x7b' ∉ w) : '\x7b' ∉ join ['|'] ws := by
  induction ws with
  | nil => decide
  | cons w ws ih =>
    obtain ⟨hw, hws⟩ := List.forall_mem_cons.1 h
    cases ws with
    | nil => exact hw
    | cons v ws => simpa [join_cons_cons, hw] using ih hws

theorem Neat.union {members : List DocType} (hlength : 2 ≤ members.length)
    (h : ∀ m ∈ members, Neat m) : Neat (.union members) := by
  constructor
  · match members, hlength with
    | m :: m' :: members, _ => simp [print_union, join_cons_cons]
  · rw [print_union]
    exact tight_join (by simpa using fun m hm => (h m hm).tight)
  · exact fun hoperand => nomatch hoperand
  · rw [print_union]
    exact brace_join (by simpa using fun m hm => (h m hm).brace)

theorem Neat.iterable {c v : DocType} (hc : IsContainer c.print) (h : Neat v) :
    Neat (.iterable c v) := by
  constructor
  · simp [print_iterable, generic]
  · rw [print_iterable]
    exact tight_generic hc _
  · intro _
    rw [print_iterable]
    exact head?_generic_ne hc _ (by decide)
  · simpa [print_iterable, generic, h.brace] using not_mem_of_isPlain hc.isPlain (by decide)

theorem parse_print_array {e : DocType} (hneat : Neat e)
    (h : Sealed 0 (enclosedIf e.isOperand e.print)) :
    parse (array e).print = .array (parse (enclosedIf e.isOperand e.print)) := by
  rw [print_array, parse_array (tight_enclosedIf hneat.tight _) h (head?_enclosedIf hneat.head)]

theorem parse_print_nullable {e : DocType} (hneat : Neat e)
    (h : Sealed 0 (enclosedIf e.isUnion e.print)) :
    parse (nullable e).print = .nullable (parse (enclosedIf e.isUnion e.print)) := by
  rw [print_nullable, parse_nullable (tight_enclosedIf hneat.tight _) h]

theorem parse_print_union {members : List DocType} (hlength : 2 ≤ members.length)
    (hneat : ∀ m ∈ members, Neat m) (hnet : ∀ m ∈ members.dropLast, net m.print = 0)
    (h : ∀ m ∈ members, exposed '|' 0 m.print = false)
    (hflat : ∀ m ∈ members, (parse m.print).isUnion = false) :
    parse (union members).print = .union (members.map fun m => parse m.print) := by
  have halternatives : ∀ m ∈ members, alternatives (parse m.print) = [parse m.print] := by
    intro m hm
    have hm := hflat m hm
    cases hparse : parse m.print with
    | union members =>
      rw [hparse] at hm
      cases hm
    | _ => rfl
  rw [print_union, parse_join (by simpa using hlength)
    (by simpa using fun m hm => (hneat m hm).tight) (by simpa [← List.map_dropLast] using hnet)
    (by simpa using h), List.flatMap_map,
    List.flatMap_congr halternatives, ← List.map_eq_flatMap]

theorem parse_print_iterable {c v : DocType} (hc : IsContainer c.print) (hneat : Neat v)
    (h : Sealed 1 v.print) (hcomma : exposed ',' 0 v.print = false) :
    parse (iterable c v).print = .iterable (parse c.print) (parse v.print) := by
  rw [print_iterable, parse_generic hc hneat.tight hneat.ne_nil h hcomma]

end DocType
end PhpAtlas
