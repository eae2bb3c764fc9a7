import PhpAtlas.Proofs.Scope.Names
import PhpAtlas.Store.Basic

/-!
# Shortened names

A symbol is written by the shortest name that stands for it: by an import, relative to the current
namespace, or, for functions and constants, by its name in the global namespace.  The shortened name
is read back as the symbol, except in four cases, which are all that can go wrong: the alias is a
word for the class around the place; a constant is imported in another spelling; the first segment
of a relative name is an alias; or the name of a global function or constant is an alias.

## Main definitions

* `SameName` — names of a kind that are the same.
* `Localized` — what the shortest name of a symbol is.
* `Misread` — the four cases.

## Main results

* `Known.localized_localize` — how a symbol is localized.
* `Known.sameName_resolve_localize_iff` — the shortest name is read back, but for the four cases.
* `Tables.resolve_localize_iff` — **the same at a line of a file.**
-/

namespace PhpAtlas

open Name NameContext

/-- Names of a kind that are the same: constants are compared exactly, all others up to case. -/
def SameName (kind : SymbolKind) (a b : String) : Prop :=
  match kind with
  | .constant => a = b
  | _ => foldEq a b = true

theorem SameName.refl (kind : SymbolKind) (a : String) : SameName kind a a := by
  cases kind with
  | constant => rfl
  | _ => exact foldEq_refl a

theorem SameName.foldEq {kind : SymbolKind} {a b : String} (h : SameName kind a b) :
    PhpAtlas.foldEq a b = true := by
  cases kind with
  | constant => exact h ▸ foldEq_refl a
  | _ => exact h

theorem sameName_of_foldEq {kind : SymbolKind} {a b : String} (h : foldEq a b = true)
    (hconstant : kind = .constant → a = b) : SameName kind a b := by
  cases kind with
  | constant => exact hconstant rfl
  | _ => exact h

/-! ### Imports -/

/-- An alias that a reader of names can take for nothing else than one segment. -/
def Import.isUsable (i : Import) : Bool :=
  i.aliasName != "" && !hasSeparator i.aliasName && i.aliasName != "namespace"

/-- The name behind an alias is exactly the given one, or one that it lies in. -/
def Import.Covers (i : Import) (full : String) : Prop :=
  i.target = full ∨ ∃ rest, full = i.target ++ "\\" ++ rest

/-- No alias of a kind is declared twice. -/
def UniqueAliases (imports : List Import) : Prop :=
  ∀ i ∈ imports, ∀ j ∈ imports, declares i.kind i.aliasName j = true → j = i

instance (imports : List Import) : Decidable (UniqueAliases imports) :=
  inferInstanceAs (Decidable (∀ i ∈ imports, ∀ j ∈ imports,
    declares i.kind i.aliasName j = true → j = i))

theorem declares_self (i : Import) : declares i.kind i.aliasName i = true := by
  unfold declares
  cases i.kind <;> simp

theorem import?_of_mem {c : NameContext} (hunique : UniqueAliases c.imports) {i : Import}
    (hi : i ∈ c.imports) : c.import? i.kind i.aliasName = some i := by
  unfold import?
  cases hfind : c.imports.reverse.find? (declares i.kind i.aliasName) with
  | none =>
    have hnone := List.find?_eq_none.1 hfind i (List.mem_reverse.2 hi)
    exact absurd (declares_self i) hnone
  | some j =>
    have hj := List.mem_reverse.1 (List.mem_of_find?_eq_some hfind)
    rw [hunique i hi j hj (List.find?_some hfind)]

theorem import?_some {c : NameContext} {kind : SymbolKind} {name : String} {i : Import}
    (h : c.import? kind name = some i) : i ∈ c.imports ∧ i.kind = kind := by
  refine ⟨List.mem_reverse.1 (List.mem_of_find?_eq_some h), ?_⟩
  have hdeclares := List.find?_some h
  unfold declares at hdeclares
  exact beq_iff_eq.1 (Bool.and_eq_true_iff.1 hdeclares).1

namespace Known

/-- The last import that names a symbol. -/
def namedBy? (c : NameContext) (kind : SymbolKind) (full : String) : Option Import :=
  c.imports.reverse.find? fun i => (localizeBy kind full i).isSome

theorem findSome?_eq_bind_find? {α β : Type} (f : α → Option β) (l : List α) :
    l.findSome? f = (l.find? fun a => (f a).isSome).bind f := by
  induction l with
  | nil => rfl
  | cons a l ih =>
    cases ha : f a with
    | none => simp [ha, ih]
    | some b => simp [ha]

/-- How an import names a symbol. -/
theorem localizeBy_cases {kind : SymbolKind} {full name : String} {i : Import}
    (h : localizeBy kind full i = some name) :
    (i.kind = kind ∧ foldEq i.target full = true ∧ name = i.aliasName) ∨
    (i.kind = .classlike ∧ ∃ head rest : Text, full.toList = head ++ rest ∧ rest ≠ [] ∧
      Text.fold head = Text.fold (i.target ++ "\\").toList ∧
      name = i.aliasName ++ "\\" ++ String.ofList rest) := by
  unfold localizeBy at h
  split at h
  · rename_i hexact
    rw [Bool.and_eq_true_iff, beq_iff_eq] at hexact
    exact .inl ⟨hexact.2, hexact.1, (Option.some.inj h).symm⟩
  · split at h
    · rename_i hkind
      dsimp only at h
      split at h
      · rename_i head rest hsplit
        split at h
        · rename_i hhead
          rw [Bool.and_eq_true_iff, Bool.not_eq_true', List.isEmpty_eq_false_iff,
            beq_iff_eq] at hhead
          exact .inr ⟨beq_iff_eq.1 hkind, head, rest, (Text.splitAtByte?_eq_some_iff.1 hsplit).1,
            hhead.1, hhead.2, (Option.some.inj h).symm⟩
        · cases h
      · cases h
    · cases h

theorem isSome_localizeBy_of_target {kind : SymbolKind} {full : String} {i : Import}
    (hkind : i.kind = kind) (h : foldEq i.target full = true) :
    (localizeBy kind full i).isSome = true := by
  rw [localizeBy, if_pos (by rw [h, hkind]; simp)]
  rfl

/-- An import of a classlike names what lies in the namespace of the same name. -/
theorem isSome_localizeBy_of_path {kind : SymbolKind} {full : String} {i : Import}
    (hkind : i.kind = .classlike) {rest : String} (hne : rest ≠ "")
    (h : foldEq (i.target ++ "\\" ++ rest) full = true) :
    (localizeBy kind full i).isSome = true := by
  rw [foldEq_iff_toList, String.toList_append] at h
  obtain ⟨head, rest', hfull, hhead, hrest⟩ := Text.exists_append_of_fold h.symm
  have hne : rest' ≠ [] := by
    rintro rfl
    have hlength := Text.length_eq_of_fold hrest
    exact hne (String.toList_eq_nil_iff.1 (List.length_eq_zero_iff.1 hlength.symm))
  have hsplit : Text.splitAtByte? (Text.byteLength (i.target ++ "\\").toList) full.toList =
      some (head, rest') :=
    Text.splitAtByte?_eq_some_iff.2 ⟨hfull, Text.byteLength_eq_of_fold hhead⟩
  unfold localizeBy
  split
  · rfl
  · rw [if_pos (beq_iff_eq.2 hkind)]
    simp only [hsplit]
    rw [if_pos (by rw [hhead]; simp [hne])]
    rfl

theorem localizeBy_of_namedBy?_eq_none {c : NameContext} {kind : SymbolKind} {full : String}
    (h : namedBy? c kind full = none) {i : Import} (hi : i ∈ c.imports) :
    (localizeBy kind full i).isSome = false := by
  have hnone := List.find?_eq_none.1 h i (List.mem_reverse.2 hi)
  exact Bool.not_eq_true _ ▸ hnone

/-! ### What the shortest name is -/

/-- What the shortest name of a symbol is, and why. -/
inductive Localized (known : Known) (c : NameContext) (kind : SymbolKind) (full : String) :
    String → Prop
  /-- The last import that names it is of the symbol itself. -/
  | byAlias (i : Import) (hnamed : namedBy? c kind full = some i) (hkind : i.kind = kind)
      (htarget : foldEq i.target full = true) : Localized known c kind full i.aliasName
  /-- The last import that names it is of a namespace that it lies in. -/
  | byPath (i : Import) (head rest : Text) (hnamed : namedBy? c kind full = some i)
      (hkind : i.kind = .classlike) (hfull : full.toList = head ++ rest) (hne : rest ≠ [])
      (hhead : Text.fold head = Text.fold (i.target ++ "\\").toList) :
      Localized known c kind full (i.aliasName ++ "\\" ++ String.ofList rest)
  /-- It lies in the current namespace, and no import hides it. -/
  | relative (name : String) (hnamed : namedBy? c kind full = none)
      (hfull : full = join c.space name)
      (hfree : hasSeparator name = true ∨ c.import? kind name = none) :
      Localized known c kind full name
  /-- It is global, and the current namespace has none of the name. -/
  | fallback (name : String) (hnamed : namedBy? c kind full = none) (hkind : kind ≠ .classlike)
      (hfull : full = "\\" ++ name) (hshort : hasSeparator name = false)
      (hhidden : ∀ name', full = join c.space name' → hasSeparator name' = false)
      (hknown : known kind (join c.space name) = false) : Localized known c kind full name
  /-- There is no shorter name. -/
  | qualified (hnamed : namedBy? c kind full = none)
      (hhidden : ∀ name', full = join c.space name' → hasSeparator name' = false)
      (hfallback : ∀ name', kind ≠ .classlike → full = "\\" ++ name' → hasSeparator name' = false →
        known kind (join c.space name') = true) : Localized known c kind full full

theorem localizeIn_eq_some {c : NameContext} {kind : SymbolKind} {full name : String}
    (h : localizeIn c kind full = some name) :
    full = join c.space name ∧ (hasSeparator name = true ∨ c.import? kind name = none) := by
  unfold localizeIn at h
  split at h
  · cases h
  · rename_i rest hstrip
    dsimp only at h
    split at h
    · rename_i hfree
      obtain rfl := Option.some.inj h
      refine ⟨?_, by simpa using hfree⟩
      rw [join_eq_append, ← String.toList_inj, String.toList_append, String.toList_ofList]
      exact Text.stripStart?_eq_some_iff.1 hstrip
    · cases h

theorem localizeIn_eq_none {c : NameContext} {kind : SymbolKind} {full : String}
    (h : localizeIn c kind full = none) (name : String) (hfull : full = join c.space name) :
    hasSeparator name = false := by
  have hstrip : Text.stripStart? (join c.space "").toList full.toList = some name.toList := by
    rw [Text.stripStart?_eq_some_iff, hfull, join_eq_append, String.toList_append]
  rw [localizeIn, hstrip] at h
  simp only [String.ofList_toList] at h
  split at h
  · cases h
  · rename_i hfree
    simp only [Bool.or_eq_true, not_or, Bool.not_eq_true] at hfree
    exact hfree.1

theorem localizeGlobal_eq_some {known : Known} {c : NameContext} {kind : SymbolKind}
    {full name : String} (hqualified : isQualified full = true)
    (h : localizeGlobal known c kind full = some name) :
    kind ≠ .classlike ∧ full = "\\" ++ name ∧ hasSeparator name = false ∧
      known kind (join c.space name) = false := by
  obtain ⟨body, rfl⟩ := exists_of_isQualified hqualified
  unfold localizeGlobal at h
  split at h
  · rename_i hglobal
    simp only [Bool.and_eq_true, decide_eq_true_eq, beq_iff_eq, count_separator,
      Bool.not_eq_true'] at hglobal
    obtain ⟨⟨hkind, hshort⟩, hknown⟩ := hglobal
    rw [short_of_not_hasSeparator hshort] at h hknown
    obtain rfl := Option.some.inj h
    exact ⟨hkind, rfl, hshort, hknown⟩
  · cases h

theorem localizeGlobal_eq_none {known : Known} {c : NameContext} {kind : SymbolKind} {full : String}
    (h : localizeGlobal known c kind full = none) (name : String) (hkind : kind ≠ .classlike)
    (hfull : full = "\\" ++ name) (hshort : hasSeparator name = false) :
    known kind (join c.space name) = true := by
  subst hfull
  unfold localizeGlobal at h
  split at h
  · cases h
  · rename_i hglobal
    by_contra hknown
    rw [Bool.not_eq_true] at hknown
    refine hglobal ?_
    rw [short_of_not_hasSeparator hshort]
    simp only [Bool.and_eq_true, decide_eq_true_eq, beq_iff_eq, count_separator, Bool.not_eq_true']
    exact ⟨⟨hkind, hshort⟩, hknown⟩

/-- How a symbol is localized. -/
theorem localized_localize (known : Known) (c : NameContext) (kind : SymbolKind) {full : String}
    (hqualified : isQualified full = true) :
    Localized known c kind full (known.localize c kind full) := by
  rw [localize, qualify, if_pos hqualified, findSome?_eq_bind_find?]
  change Localized known c kind full
    ((((namedBy? c kind full).bind (localizeBy kind full)).or _).getD _)
  cases hnamed : namedBy? c kind full with
  | some i =>
    have hsome := List.find?_some hnamed
    obtain ⟨name, hname⟩ := Option.isSome_iff_exists.1 hsome
    rw [Option.bind_some, hname, Option.some_or, Option.getD_some]
    rcases localizeBy_cases hname with
      ⟨hkind, htarget, rfl⟩ | ⟨hkind, head, rest, hfull, hne, hhead, rfl⟩
    · exact .byAlias i hnamed hkind htarget
    · exact .byPath i head rest hnamed hkind hfull hne hhead
  | none =>
    rw [Option.bind_none, Option.none_or]
    cases hin : localizeIn c kind full with
    | some name =>
      obtain ⟨hfull, hfree⟩ := localizeIn_eq_some hin
      exact .relative name hnamed hfull hfree
    | none =>
      rw [Option.none_or]
      cases hglobal : localizeGlobal known c kind full with
      | some name =>
        obtain ⟨hkind, hfull, hshort, hknown⟩ := localizeGlobal_eq_some hqualified hglobal
        exact .fallback name hnamed hkind hfull hshort (localizeIn_eq_none hin) hknown
      | none => exact .qualified hnamed (localizeIn_eq_none hin) (localizeGlobal_eq_none hglobal)

/-! ### Reading names -/

theorem resolve_of_isQualified (known : Known) (c : NameContext) (kind : SymbolKind) {name : String}
    (h : isQualified name = true) : known.resolve c kind name = name := if_pos h

theorem not_isQualified {name : String} (h : hasSeparator name = false) :
    isQualified name = false := by
  rw [hasSeparator_eq_false_iff] at h
  rw [isQualified, beq_eq_false_iff_ne]
  intro hhead
  cases h _ (List.mem_of_head? hhead)

theorem resolve_of_short (known : Known) (c : NameContext) (kind : SymbolKind) {name : String}
    (h : hasSeparator name = false) :
    known.resolve c kind name = known.resolveShort c kind name := by
  have hchars := hasSeparator_eq_false_iff.1 h
  have hstrip : Text.stripStart? "namespace\\".toList name.toList = none := by
    rw [Text.stripStart?_eq_none_iff]
    intro rest hname
    have hmem : separator ∈ name.toList := by
      rw [hname]
      exact List.mem_append_left _ (by decide)
    cases hchars _ hmem
  have hsplit : Text.splitOnce? (· == separator) name.toList = none :=
    Text.splitOnce?_eq_none_iff.2 hchars
  rw [resolve, not_isQualified h, if_neg (by decide), hstrip, hsplit]

theorem splitOnce?_path (first : String) (h : hasSeparator first = false) (rest : String) :
    Text.splitOnce? (· == separator) (first ++ "\\" ++ rest).toList =
      some (first.toList, rest.toList) := by
  have htext : (first ++ "\\" ++ rest).toList = first.toList ++ separator :: rest.toList := by
    simp [separator]
  rw [htext, Text.splitOnce?_append_cons (hasSeparator_eq_false_iff.1 h) (by decide)]

theorem resolve_of_path (known : Known) (c : NameContext) (kind : SymbolKind) {first : String}
    (hne : first ≠ "") (hsep : hasSeparator first = false) (hword : first ≠ "namespace")
    (rest : String) : known.resolve c kind (first ++ "\\" ++ rest) =
      (c.import? .classlike first).elim (join c.space (first ++ "\\" ++ rest))
        fun i => i.target ++ "\\" ++ rest := by
  have hsplit := splitOnce?_path first hsep rest
  have hqualified : isQualified (first ++ "\\" ++ rest) = false := by
    obtain ⟨d, ds, hfirst⟩ := List.exists_cons_of_ne_nil (String.toList_eq_nil_iff.not.2 hne)
    have hd := hasSeparator_eq_false_iff.1 hsep d (by rw [hfirst]; exact List.mem_cons_self)
    rw [isQualified, beq_eq_false_iff_ne]
    simpa [hfirst] using beq_eq_false_iff_ne.1 hd
  have hstrip : Text.stripStart? "namespace\\".toList (first ++ "\\" ++ rest).toList = none := by
    rw [Text.stripStart?_eq_none_iff]
    intro rest' htext
    have hsplit' := splitOnce?_path "namespace" (by decide) (String.ofList rest')
    have htext' : ("namespace" ++ "\\" ++ String.ofList rest').toList =
        "namespace\\".toList ++ rest' := by simp
    rw [htext', ← htext, hsplit] at hsplit'
    obtain ⟨hfirst, -⟩ := Prod.mk.inj (Option.some.inj hsplit')
    exact hword (String.toList_inj.1 hfirst)
  rw [resolve, hqualified, if_neg (by decide), hstrip, hsplit]
  dsimp only
  rw [String.ofList_toList, String.ofList_toList]
  cases c.import? .classlike first <;> rfl

/-! ### Names that are not read back -/

/-- Why the shortest name of a symbol is not read back as the symbol. -/
inductive Misread (known : Known) (c : NameContext) (kind : SymbolKind) (full : String) : Prop
  /-- It is imported under a word for the class around a place. -/
  | reserved (i : Import) (hnamed : namedBy? c kind full = some i) (hkind : kind = .classlike)
      (htarget : foldEq i.target full = true) (hword : foldMem i.aliasName classWords = true)
  /-- It is a constant, and the import that names it is spelled in another case. -/
  | spelled (i : Import) (hnamed : namedBy? c kind full = some i) (hkind : kind = .constant)
      (htarget : ¬i.Covers full)
  /-- No import names it, but the first segment of its relative name is an alias. -/
  | captured (first rest : String) (hnamed : namedBy? c kind full = none)
      (hfull : full = join c.space (first ++ "\\" ++ rest)) (hfirst : hasSeparator first = false)
      (himport : (c.import? .classlike first).isSome = true)
  /-- No import names it and the current namespace has none of the name, which is an alias. -/
  | shadowed (name : String) (hnamed : namedBy? c kind full = none) (hkind : kind ≠ .classlike)
      (hfull : full = "\\" ++ name) (hshort : hasSeparator name = false)
      (hknown : known kind (join c.space name) = false)
      (himport : (c.import? kind name).isSome = true)

section

variable {known : Known} {c : NameContext} {kind : SymbolKind} {full : String}
  (hunique : UniqueAliases c.imports) (husable : ∀ i ∈ c.imports, i.isUsable = true)
  (hfull : isOrdinary full = true)

theorem mem_of_namedBy? {i : Import} (h : namedBy? c kind full = some i) : i ∈ c.imports :=
  List.mem_reverse.1 (List.mem_of_find?_eq_some h)

theorem isUsable_iff {i : Import} : i.isUsable = true ↔
    i.aliasName ≠ "" ∧ hasSeparator i.aliasName = false ∧ i.aliasName ≠ "namespace" := by
  simp [Import.isUsable, and_assoc]

include hunique husable in
/-- A name by an import of the symbol. -/
theorem sameName_byAlias_iff {i : Import} (hqualified : isQualified full = true)
    (hnamed : namedBy? c kind full = some i) (hkind : i.kind = kind)
    (htarget : foldEq i.target full = true) :
    SameName kind (known.resolve c kind i.aliasName) full ↔ ¬Misread known c kind full := by
  have hmem := mem_of_namedBy? hnamed
  obtain ⟨-, hsep, -⟩ := isUsable_iff.1 (husable i hmem)
  have himport := import?_of_mem hunique hmem
  rw [hkind] at himport
  rw [resolve_of_short known c kind hsep, resolveShort]
  by_cases hreserved : kind = .classlike ∧ foldMem i.aliasName classWords = true
  · -- the alias is read as the word itself, which has no separator, unlike the full name
    rw [if_pos (by simp [hreserved])]
    refine iff_of_false (fun hsame => ?_)
      (not_not.2 (.reserved i hnamed hreserved.1 htarget hreserved.2))
    have hfull : hasSeparator (fold i.aliasName) = hasSeparator full := by
      rw [← hasSeparator_fold, foldEq_iff.1 hsame.foldEq, hasSeparator_fold]
    rw [hasSeparator_fold, hsep, hasSeparator_of_isQualified hqualified] at hfull
    cases hfull
  · rw [if_neg (by simpa using hreserved), himport]
    constructor
    · intro hsame hmisread
      cases hmisread with
      | reserved j hj hclass _ hword =>
        obtain rfl := Option.some.inj (hnamed.symm.trans hj)
        exact hreserved ⟨hclass, hword⟩
      | spelled j hj hconstant hcovers =>
        obtain rfl := Option.some.inj (hnamed.symm.trans hj)
        subst hconstant
        exact hcovers (.inl hsame)
      | captured _ _ hnone => cases hnamed.symm.trans hnone
      | shadowed _ hnone => cases hnamed.symm.trans hnone
    · intro hnot
      refine sameName_of_foldEq htarget fun hconstant => ?_
      by_contra hne
      refine hnot (.spelled i hnamed hconstant fun hcovers => ?_)
      rcases hcovers with heq | ⟨rest, hrest⟩
      · exact hne heq
      · -- names that are the same up to case have the same length
        have hlength := Text.length_eq_of_fold (foldEq_iff_toList.1 htarget)
        rw [hrest] at hlength
        simp at hlength

include hunique husable in
/-- A name by an import of a namespace. -/
theorem sameName_byPath_iff {i : Import} {head rest : Text} (hnamed : namedBy? c kind full = some i)
    (hkind : i.kind = .classlike) (hfull : full.toList = head ++ rest) (hne : rest ≠ [])
    (hhead : Text.fold head = Text.fold (i.target ++ "\\").toList) :
    SameName kind (known.resolve c kind (i.aliasName ++ "\\" ++ String.ofList rest)) full ↔
      ¬Misread known c kind full := by
  have hmem := mem_of_namedBy? hnamed
  obtain ⟨hempty, hsep, hword⟩ := isUsable_iff.1 (husable i hmem)
  have himport := import?_of_mem hunique hmem
  rw [hkind] at himport
  have hlength : full.toList.length = i.target.toList.length + 1 + rest.length := by
    rw [hfull, List.length_append, Text.length_eq_of_fold hhead]
    simp
  have hfold : foldEq (i.target ++ "\\" ++ String.ofList rest) full = true := by
    rw [foldEq_iff_toList, String.toList_append, Text.fold_append, ← hhead, hfull, Text.fold_append,
      String.toList_ofList]
  -- the name behind the alias is shorter than the symbol
  have hshorter : i.target.toList.length ≠ full.toList.length := by omega
  rw [resolve_of_path known c kind hempty hsep hword, himport, Option.elim_some]
  constructor
  · intro hsame hmisread
    cases hmisread with
    | reserved j hj _ htarget _ =>
      obtain rfl := Option.some.inj (hnamed.symm.trans hj)
      exact hshorter (Text.length_eq_of_fold (foldEq_iff_toList.1 htarget))
    | spelled j hj hconstant hcovers =>
      obtain rfl := Option.some.inj (hnamed.symm.trans hj)
      subst hconstant
      exact hcovers (.inr ⟨_, hsame.symm⟩)
    | captured _ _ hnone => cases hnamed.symm.trans hnone
    | shadowed _ hnone => cases hnamed.symm.trans hnone
  · intro hnot
    refine sameName_of_foldEq hfold fun hconstant => ?_
    by_contra hne
    refine hnot (.spelled i hnamed hconstant fun hcovers => ?_)
    rcases hcovers with heq | ⟨rest', hrest⟩
    · exact hshorter (by rw [heq])
    · refine hne ?_
      have htext : head ++ rest = (i.target ++ "\\").toList ++ rest'.toList := by
        rw [← hfull, hrest, String.toList_append]
      obtain ⟨-, rfl⟩ := List.append_inj htext (Text.length_eq_of_fold hhead)
      rw [String.ofList_toList, hrest]

/-- What no import names is misread only if it is captured or shadowed. -/
theorem not_misread_of_namedBy?_eq_none (hnamed : namedBy? c kind full = none)
    (hcaptured : ∀ first rest, full = join c.space (first ++ "\\" ++ rest) →
      hasSeparator first = false → c.import? .classlike first = none)
    (hshadowed : ∀ name, kind ≠ .classlike → full = "\\" ++ name → hasSeparator name = false →
      known kind (join c.space name) = false → c.import? kind name = none) :
    ¬Misread known c kind full := by
  intro hmisread
  cases hmisread with
  | reserved _ hsome => cases hnamed.symm.trans hsome
  | spelled _ hsome => cases hnamed.symm.trans hsome
  | captured first rest _ hpath hsep himport =>
    rw [hcaptured first rest hpath hsep] at himport
    cases himport
  | shadowed name _ hkind hname hshort hunknown himport =>
    rw [hshadowed name hkind hname hshort hunknown] at himport
    cases himport

/-- A relative name is read back if no import captures its first segment. -/
theorem not_misread_of_relative (hknown : kind ≠ .classlike → known kind full = true)
    {name : String} (hnamed : namedBy? c kind full = none) (hname : full = join c.space name)
    (hfirst : ∀ first rest, name = first ++ "\\" ++ rest → hasSeparator first = false →
      c.import? .classlike first = none) : ¬Misread known c kind full := by
  refine not_misread_of_namedBy?_eq_none hnamed ?_ ?_
  · intro first rest hpath
    exact hfirst first rest (join_injective (hname.symm.trans hpath))
  · intro other hkind hother hshort hunknown
    have hjoin := join_of_eq_global (hother.symm.trans hname) hshort
    rw [hjoin, ← hother, hknown hkind] at hunknown
    cases hunknown

theorem not_captured (hhidden : ∀ name, full = join c.space name → hasSeparator name = false)
    (first rest : String) (hpath : full = join c.space (first ++ "\\" ++ rest)) :
    hasSeparator first = false → c.import? .classlike first = none := by
  have hsep := hhidden _ hpath
  rw [hasSeparator_append_cons] at hsep
  cases hsep

include hfull in
/-- A name relative to the current namespace. -/
theorem sameName_relative_iff (hknown : kind ≠ .classlike → known kind full = true) {name : String}
    (hnamed : namedBy? c kind full = none) (hname : full = join c.space name)
    (hfree : hasSeparator name = true ∨ c.import? kind name = none) :
    SameName kind (known.resolve c kind name) full ↔ ¬Misread known c kind full := by
  have hsegments : ∀ w ∈ Text.splitAll (· == separator) name.toList,
      w ≠ [] ∧ isReserved w = false := by
    intro w hw
    have hmem := hname ▸ mem_segments_join c.space hw
    simpa using List.all_eq_true.1 (Bool.and_eq_true_iff.1 hfull).2 w hmem
  by_cases hsep : hasSeparator name = true
  · obtain ⟨first, rest, rfl, hfirst⟩ := exists_path hsep
    rw [splitAll_path hfirst] at hsegments
    obtain ⟨⟨hempty, hreserved⟩, hrest⟩ := List.forall_mem_cons.1 hsegments
    have hword : first ≠ "namespace" := by
      rintro rfl
      revert hreserved
      decide
    have hrest : rest ≠ "" := by
      rintro rfl
      exact (hrest [] (by decide)).1 rfl
    rw [resolve_of_path known c kind (by simpa using hempty) hfirst hword]
    cases himport : c.import? .classlike first with
    | some i =>
      obtain ⟨hi, hkind⟩ := import?_some himport
      refine iff_of_false (fun hsame => ?_)
        (not_not.2 (.captured first rest hnamed hname hfirst (by rw [himport]; rfl)))
      -- were the name read back by this import, the import would name the symbol
      have hnone := localizeBy_of_namedBy?_eq_none hnamed hi
      rw [isSome_localizeBy_of_path hkind hrest hsame.foldEq] at hnone
      cases hnone
    | none =>
      rw [Option.elim_none, ← hname]
      refine iff_of_true (SameName.refl kind full) (not_misread_of_relative hknown hnamed hname ?_)
      intro first' rest' hpath hfirst'
      have hsplit := splitOnce?_path first hfirst rest
      rw [hpath, splitOnce?_path first' hfirst' rest'] at hsplit
      obtain ⟨heq, -⟩ := Prod.mk.inj (Option.some.inj hsplit)
      rw [String.toList_inj.1 heq, himport]
  · rw [Bool.not_eq_true] at hsep
    have himport : c.import? kind name = none := hfree.resolve_left (by rw [hsep]; decide)
    have hword : foldMem name classWords = false := by
      have hreserved := (hsegments name.toList (by
        rw [Text.splitAll_of_forall (hasSeparator_eq_false_iff.1 hsep)]
        exact List.mem_singleton_self _)).2
      rw [isReserved, Bool.or_eq_false_iff, String.ofList_toList] at hreserved
      exact hreserved.1
    have hresolve : known.resolve c kind name = full := by
      rw [resolve_of_short known c kind hsep, resolveShort, hword, Bool.and_false,
        if_neg (by decide), himport]
      dsimp only
      rw [← hname]
      refine if_pos ?_
      by_cases hkind : kind = .classlike
      · simp [hkind]
      · simp [hknown hkind]
    rw [hresolve]
    refine iff_of_true (SameName.refl kind full) (not_misread_of_relative hknown hnamed hname ?_)
    rintro first rest rfl
    rw [hasSeparator_append_cons] at hsep
    cases hsep

/-- A name in the global namespace. -/
theorem sameName_fallback_iff {name : String}
    (hnamed : namedBy? c kind full = none) (hkind : kind ≠ .classlike)
    (hname : full = "\\" ++ name) (hshort : hasSeparator name = false)
    (hhidden : ∀ name', full = join c.space name' → hasSeparator name' = false)
    (hunknown : known kind (join c.space name) = false) :
    SameName kind (known.resolve c kind name) full ↔ ¬Misread known c kind full := by
  rw [resolve_of_short known c kind hshort, resolveShort, if_neg (by simp [hkind])]
  cases himport : c.import? kind name with
  | some i =>
    obtain ⟨hi, hkind'⟩ := import?_some himport
    refine iff_of_false (fun hsame => ?_)
      (not_not.2 (.shadowed name hnamed hkind hname hshort hunknown (by rw [himport]; rfl)))
    -- as for a captured name, the import does not name the symbol
    have hnone := localizeBy_of_namedBy?_eq_none hnamed hi
    rw [isSome_localizeBy_of_target hkind' hsame.foldEq] at hnone
    cases hnone
  | none =>
    have hglobal : (if kind = .classlike || c.space.isNone || known kind (join c.space name) then
        join c.space name else "\\" ++ name) = full := by
      rw [hname]
      split
      · rename_i hspace
        simp only [hkind, decide_false, Bool.false_or, hunknown, Bool.or_false,
          Option.isNone_iff_eq_none] at hspace
        rw [hspace]
        rfl
      · rfl
    dsimp only
    rw [hglobal]
    refine iff_of_true (SameName.refl kind full)
      (not_misread_of_namedBy?_eq_none hnamed (not_captured hhidden) ?_)
    intro other _ hother _ _
    obtain rfl := (String.append_right_inj _).1 (hname.symm.trans hother)
    exact himport

include hunique husable hfull in
/-- The shortest name of a symbol is read back as the symbol, but for the four cases. -/
theorem sameName_resolve_localize_iff (hknown : kind ≠ .classlike → known kind full = true) :
    SameName kind (known.resolve c kind (known.localize c kind full)) full ↔
      ¬Misread known c kind full := by
  have hqualified : isQualified full = true := (Bool.and_eq_true_iff.1 hfull).1
  have hlocalized := localized_localize known c kind hqualified
  generalize known.localize c kind full = name at hlocalized ⊢
  cases hlocalized with
  | byAlias i hnamed hkind htarget =>
    exact sameName_byAlias_iff hunique husable hqualified hnamed hkind htarget
  | byPath i head rest hnamed hkind hpath hne hhead =>
    exact sameName_byPath_iff hunique husable hnamed hkind hpath hne hhead
  | relative _ hnamed hname hfree =>
    exact sameName_relative_iff hfull hknown hnamed hname hfree
  | fallback _ hnamed hkind hname hshort hhidden hunknown =>
    exact sameName_fallback_iff hnamed hkind hname hshort hhidden hunknown
  | qualified hnamed hhidden hfallback =>
    rw [resolve_of_isQualified known c kind hqualified]
    refine iff_of_true (SameName.refl kind full)
      (not_misread_of_namedBy?_eq_none hnamed (not_captured hhidden) ?_)
    intro name hkind hname hshort hunknown
    rw [hfallback name hkind hname hshort] at hunknown
    cases hunknown

end

end Known

namespace Tables

open Known

/-- **The shortest name of a symbol is read back at its line, but for the four cases.**  The aliases
of the file are segments and unique for each kind; functions and constants are known. -/
theorem resolve_localize_iff (t : Tables) (path : String) (line : Nat) (kind : SymbolKind)
    (full : String) (hunique : ∀ s ∈ t.scopesOf path, UniqueAliases s.imports)
    (husable : ∀ s ∈ t.scopesOf path, ∀ i ∈ s.imports, i.isUsable = true)
    (hline : ∃ s ∈ t.scopesOf path, s.hasLine line = true) (hfull : isOrdinary full = true)
    (hknown : kind ≠ .classlike → t.knows kind full = true) :
    ∃ c name, atLine (t.scopesOf path) line = some c ∧
      resolve? t.knows (atLine (t.scopesOf path) line) kind
        (localize t.knows ((atLine (t.scopesOf path) line).getD .global) kind full) = .ok name ∧
      (SameName kind name full ↔ ¬Misread t.knows c kind full) := by
  obtain ⟨s, hs, hhas⟩ := hline
  cases hfind : (t.scopesOf path).reverse.find? (·.hasLine line) with
  | none => exact absurd hhas (List.find?_eq_none.1 hfind s (List.mem_reverse.2 hs))
  | some scope =>
    have hscope := List.mem_reverse.1 (List.mem_of_find?_eq_some hfind)
    have hline : atLine (t.scopesOf path) line =
        some ⟨scope.name, scope.imports.filter (·.line ≤ line)⟩ := by
      rw [atLine, hfind]
      rfl
    -- at a line only the imports above it count, and these are as unique and usable as all
    have hsubset : ∀ i ∈ scope.imports.filter (·.line ≤ line), i ∈ scope.imports :=
      fun i hi => (List.mem_filter.1 hi).1
    rw [hline]
    refine ⟨_, _, rfl, rfl, sameName_resolve_localize_iff ?_ ?_ hfull hknown⟩
    · exact fun i hi j hj => hunique scope hscope i (hsubset i hi) j (hsubset j hj)
    · exact fun i hi => husable scope hscope i (hsubset i hi)

/-- A file in a namespace that has a part of the same name as an import. -/
def importingFile : Tables :=
  empty.putScopes "a.php" [⟨some "App", 1, 9, [⟨.classlike, "Sub", "\\Other\\Sub", 3⟩]⟩]

/-- The context of its last line. -/
def importingContext : NameContext :=
  ⟨some "App", [⟨.classlike, "Sub", "\\Other\\Sub", 3⟩]⟩

theorem atLine_importingFile :
    atLine (importingFile.scopesOf "a.php") 9 = some importingContext := by
  decide +kernel

/-- A class below the import is read back, and one of the namespace is not. -/
theorem resolve_localize_iff_importingFile :
    ¬Misread importingFile.knows importingContext .classlike "\\other\\Sub\\B" ∧
    ¬SameName .classlike (Known.resolve importingFile.knows importingContext .classlike
      (localize importingFile.knows importingContext .classlike "\\App\\Sub\\B"))
      "\\App\\Sub\\B" := by
  have hiff : ∀ full, isOrdinary full = true →
      (SameName .classlike (Known.resolve importingFile.knows importingContext .classlike
        (localize importingFile.knows importingContext .classlike full)) full ↔
      ¬Misread importingFile.knows importingContext .classlike full) := by
    intro full hfull
    obtain ⟨c, name, hc, hname, hiff⟩ := resolve_localize_iff importingFile "a.php" 9 .classlike
      full (by decide +kernel) (by decide +kernel) (by decide +kernel) hfull (fun h => absurd rfl h)
    obtain rfl := Option.some.inj (atLine_importingFile.symm.trans hc)
    rw [atLine_importingFile] at hname
    exact Except.ok.inj hname ▸ hiff
  refine ⟨(hiff _ (by decide +kernel)).1 ?_, fun hsame => (hiff _ (by decide +kernel)).1 hsame ?_⟩
  · change foldEq _ _ = true
    decide +kernel
  · exact .captured "Sub" "B" (by decide +kernel) (by decide +kernel) (by decide +kernel)
      (by decide +kernel)

/-- A class of the namespace is written with a first segment that is an alias. -/
theorem not_forall_sameName_resolve_localize :
    ¬∀ (t : Tables) (path : String) (line : Nat) (kind : SymbolKind) (full : String),
      (∀ s ∈ t.scopesOf path, UniqueAliases s.imports) →
      (∀ s ∈ t.scopesOf path, ∀ i ∈ s.imports, i.isUsable = true) →
      (∃ s ∈ t.scopesOf path, s.hasLine line = true) → isOrdinary full = true →
      (kind ≠ .classlike → t.knows kind full = true) →
      ∃ c, atLine (t.scopesOf path) line = some c ∧
        SameName kind (Known.resolve t.knows c kind (localize t.knows c kind full)) full := by
  intro h
  obtain ⟨c, hc, hsame⟩ := h importingFile "a.php" 9 .classlike "\\App\\Sub\\B" (by decide +kernel)
    (by decide +kernel) (by decide +kernel) (by decide +kernel) (fun h => absurd rfl h)
  obtain rfl := Option.some.inj (atLine_importingFile.symm.trans hc)
  change foldEq _ _ = true at hsame
  revert hsame
  decide +kernel

end Tables
end PhpAtlas
