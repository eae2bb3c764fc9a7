import PhpAtlas.Proofs.Scope.Localization
import PhpAtlas.Scope.Collect

/-!
# Imports, as they are entered and as they are looked up

Entering an import removes the earlier ones of its kind whose alias is the same up to ASCII case.
The look-up takes the last import that declares a name, which for constants means the exact
spelling.  So the last declaration of a name counts, unless it is one of a constant and a later one
in another spelling has removed it.

## Main definitions

* `UseItem.toImport`, `Document.uses` — the imports that statements ask for.
* `enterImport` — enter one of them.
* `Import.rivals` — whether an import takes the place of others of a name.

## Main results

* `find?_enterImport` — what entering an import does to the look-up.
* `find?_foldl_enterImport` — what is found after a run.
* `resolve_imported_iff` — a name is the last import that declares it, unless that was removed.
* `not_forall_resolve_imported` — a constant whose import was removed.
-/

namespace PhpAtlas

open Name NameContext

/-! ### Entering imports -/

/-- The import that an item asks for. -/
def UseItem.toImport (line : Nat) (item : UseItem) : Import :=
  ⟨item.kind, item.aliasName, qualify item.target, line⟩

/-- Whether an import has a kind, and an alias that is the name up to case. -/
def Import.rivals (kind : SymbolKind) (name : String) (i : Import) : Bool :=
  i.kind == kind && foldEq i.aliasName name

/-- Enter an import.  It removes those of its kind and alias, whatever the case. -/
def enterImport (imports : List Import) (i : Import) : List Import :=
  imports.filter (fun e => !e.rivals i.kind i.aliasName) ++ [i]

namespace Document

/-- The imports that a statement asks for. -/
def usesOf (d : Document) : Stmt → List Import
  | .use span items => items.map (UseItem.toImport (d.lineAt span.start))
  | _ => []

/-- The imports that statements ask for, in order. -/
def uses (d : Document) (statements : List Stmt) : List Import := statements.flatMap d.usesOf

theorem foldl_registerImport (line : Nat) (items : List UseItem) (imports : List Import) :
    items.foldl (registerImport line) imports =
      (items.map (UseItem.toImport line)).foldl enterImport imports := by
  rw [List.foldl_map]
  rfl

/-- The imports of statements are entered one after the other. -/
theorem imports_eq_foldl (d : Document) (statements : List Stmt) :
    d.imports statements = (d.uses statements).foldl enterImport [] := by
  rw [imports, uses, List.foldl_flatMap]
  congr 1
  funext imports s
  cases s with
  | use span items => exact foldl_registerImport _ items imports
  | _ => rfl

end Document

theorem mem_of_mem_foldl {i : Import} {is imports : List Import}
    (h : i ∈ is.foldl enterImport imports) : i ∈ imports ∨ i ∈ is := by
  induction is generalizing imports with
  | nil => exact .inl h
  | cons j is ih =>
    rcases ih h with h | h
    · rcases List.mem_append.1 h with h | h
      · exact .inl (List.mem_of_mem_filter h)
      · exact .inr (List.mem_singleton.1 h ▸ List.mem_cons_self)
    · exact .inr (List.mem_cons_of_mem j h)

/-! ### The look-up -/

section Lookup

variable {kind : SymbolKind} {name : String}

theorem declares_iff {i : Import} :
    declares kind name i = true ↔ i.kind = kind ∧ SameName kind i.aliasName name := by
  cases kind with
  | constant => simp [declares, SameName]
  | _ => simp [declares, SameName]

theorem rivals_iff {i : Import} :
    i.rivals kind name = true ↔ i.kind = kind ∧ foldEq i.aliasName name = true := by
  rw [Import.rivals, Bool.and_eq_true_iff, beq_iff_eq]

theorem rivals_of_declares {i : Import} (h : declares kind name i = true) :
    i.rivals kind name = true := by
  obtain ⟨hkind, hsame⟩ := declares_iff.1 h
  exact rivals_iff.2 ⟨hkind, hsame.foldEq⟩

/-- Only constants tell spellings apart. -/
theorem declares_of_rivals {i : Import} (hkind : kind ≠ .constant)
    (h : i.rivals kind name = true) : declares kind name i = true := by
  obtain ⟨hi, hfold⟩ := rivals_iff.1 h
  exact declares_iff.2 ⟨hi, sameName_of_foldEq hfold fun hconstant => absurd hconstant hkind⟩

/-- Two imports rival each other if both rival a name. -/
theorem rivals_trans {i e : Import} (hi : i.rivals kind name = true)
    (he : e.rivals kind name = true) : e.rivals i.kind i.aliasName = true := by
  rw [rivals_iff] at hi he ⊢
  refine ⟨he.1.trans hi.1.symm, foldEq_trans he.2 ?_⟩
  rw [foldEq_comm]
  exact hi.2

/-- What rivals an import rivals the names that the import does. -/
theorem rivals_of_rivals {i e : Import} (h : e.rivals i.kind i.aliasName = true)
    (he : e.rivals kind name = true) : i.rivals kind name = true := by
  rw [rivals_iff] at h he ⊢
  refine ⟨h.1.symm.trans he.1, foldEq_trans ?_ he.2⟩
  rw [foldEq_comm]
  exact h.2

/-- An import that rivals a name takes its place, also where it does not declare it. -/
theorem find?_enterImport (imports : List Import) (i : Import) :
    (enterImport imports i).reverse.find? (declares kind name) =
      if i.rivals kind name then (some i).filter (declares kind name)
      else imports.reverse.find? (declares kind name) := by
  have hentered : (enterImport imports i).reverse =
      i :: imports.reverse.filter fun e => !e.rivals i.kind i.aliasName := by
    rw [enterImport, List.reverse_append, List.reverse_singleton, ← List.filter_reverse]
    rfl
  rw [hentered, List.find?_cons, List.find?_filter]
  by_cases hi : i.rivals kind name = true
  · -- all that declares the name has been removed
    have hremoved : imports.reverse.find? (fun e =>
        decide ((!e.rivals i.kind i.aliasName) = true ∧ declares kind name e = true)) = none := by
      refine List.find?_eq_none.2 fun e _ => ?_
      simp only [decide_eq_true_eq, not_and, Bool.not_eq_true']
      intro hkept he
      rw [rivals_trans hi (rivals_of_declares he)] at hkept
      cases hkept
    rw [hremoved, if_pos hi]
    cases hdeclares : declares kind name i with
    | false => simp [Option.filter, hdeclares]
    | true => simp [Option.filter, hdeclares]
  · -- nothing that declares the name has been removed
    have hdeclares : declares kind name i = false := by
      rw [← Bool.not_eq_true]
      exact fun h => hi (rivals_of_declares h)
    have hkept : (fun e => decide ((!e.rivals i.kind i.aliasName) = true ∧
        declares kind name e = true)) = declares kind name := ?_
    · rw [hdeclares, if_neg hi, hkept]
    funext e
    rw [Bool.eq_iff_iff, decide_eq_true_eq, Bool.not_eq_true', and_iff_right_iff_imp]
    intro he
    rw [← Bool.not_eq_true]
    exact fun h => hi (rivals_of_rivals h (rivals_of_declares he))

/-- After a run, a name is found if the last import that rivals it also declares it. -/
theorem find?_foldl_enterImport (imports : List Import) :
    (imports.foldl enterImport []).reverse.find? (declares kind name) =
      (imports.reverse.find? (Import.rivals kind name)).filter (declares kind name) := by
  induction imports using List.reverseRecOn with
  | nil => rfl
  | append_singleton imports i ih =>
    rw [List.foldl_append, List.foldl_cons, List.foldl_nil, find?_enterImport, ih,
      List.reverse_append, List.reverse_singleton, List.singleton_append, List.find?_cons]
    cases i.rivals kind name with
    | true => rfl
    | false => rfl

/-- The last import that declares a name is found if no later one rivals it. -/
theorem find?_foldl_of_not_rivals {imports before after : List Import} {i : Import}
    (himports : imports = before ++ i :: after) (hi : declares kind name i = true)
    (h : ∀ j ∈ after, j.rivals kind name = false) :
    (imports.foldl enterImport []).reverse.find? (declares kind name) = some i := by
  have hafter : after.reverse.find? (Import.rivals kind name) = none :=
    List.find?_eq_none.2 fun j hj => by simp [h j (List.mem_reverse.1 hj)]
  rw [find?_foldl_enterImport, himports, List.reverse_append, List.reverse_cons, List.append_assoc,
    List.find?_append, hafter, Option.none_or, List.singleton_append,
    List.find?_cons_of_pos (rivals_of_declares hi), Option.filter_some, if_pos hi]

/-- Otherwise nothing is found. -/
theorem find?_foldl_of_rivals {imports before after : List Import} {i : Import}
    (himports : imports = before ++ i :: after)
    (hlast : ∀ j ∈ after, declares kind name j = false)
    (h : ∃ j ∈ after, j.rivals kind name = true) :
    (imports.foldl enterImport []).reverse.find? (declares kind name) = none := by
  obtain ⟨j, hj, hrivals⟩ := h
  obtain ⟨k, hk⟩ : ∃ k, after.reverse.find? (Import.rivals kind name) = some k :=
    Option.isSome_iff_exists.1 (List.find?_isSome.2 ⟨j, List.mem_reverse.2 hj, hrivals⟩)
  have hundeclared : declares kind name k = false :=
    hlast k (List.mem_reverse.1 (List.mem_of_find?_eq_some hk))
  rw [find?_foldl_enterImport, himports, List.reverse_append, List.reverse_cons, List.append_assoc,
    List.find?_append, hk, Option.some_or, Option.filter_some, hundeclared]
  rfl

end Lookup

/-! ### Imported names -/

namespace Document

variable {d : Document} {statements : List Stmt} {scopes : List NamespaceScope}
  {scope : NamespaceScope} {line : Nat}

/-- Behind all its imports, a scope is in effect with all that were entered. -/
theorem atLine_of_uses (hscope : scopes.reverse.find? (·.hasLine line) = some scope)
    (himports : scope.imports = d.imports statements)
    (hline : ∀ i ∈ d.uses statements, i.line ≤ line) :
    atLine scopes line = some ⟨scope.name, (d.uses statements).foldl enterImport []⟩ := by
  rw [atLine, hscope, Option.map_some, himports, imports_eq_foldl, List.filter_eq_self.2]
  intro i hi
  exact decide_eq_true (hline i ((mem_of_mem_foldl hi).resolve_left List.not_mem_nil))

end Document

/-- What a name is that is neither imported nor a word for the class around. -/
theorem Known.resolve_of_import?_eq_none (known : Known) {c : NameContext} {kind : SymbolKind}
    {name : String} (hshort : hasSeparator name = false) (h : c.import? kind name = none) :
    known.resolve c kind name = known.resolve ⟨c.space, []⟩ kind name := by
  rw [resolve_of_short known c kind hshort, resolve_of_short known _ kind hshort, resolveShort, h,
    resolveShort]
  rfl

theorem Known.resolve_of_import? (known : Known) {c : NameContext} {kind : SymbolKind}
    {name : String} {i : Import} (hshort : hasSeparator name = false)
    (hword : foldMem name classWords = false) (h : c.import? kind name = some i) :
    known.resolve c kind name = i.target := by
  rw [resolve_of_short known c kind hshort, resolveShort, hword, Bool.and_false, h]
  rfl

/-- **A name without separator is the last import that declares it**, in a line behind all imports
of its scope, unless a later import of its kind has the same alias in another spelling.  Then the
name is what it would be without imports.  This happens to constants only. -/
theorem resolve_imported_iff (known : Known) (d : Document) (statements : List Stmt)
    (scopes : List NamespaceScope) (scope : NamespaceScope) (line : Nat) (kind : SymbolKind)
    (name : String) (hscope : scopes.reverse.find? (·.hasLine line) = some scope)
    (himports : scope.imports = d.imports statements)
    (hline : ∀ i ∈ d.uses statements, i.line ≤ line) (hshort : hasSeparator name = false)
    (hword : foldMem name classWords = false) (before after : List Import) (i : Import)
    (huses : d.uses statements = before ++ i :: after) (hi : declares kind name i = true)
    (hlast : ∀ j ∈ after, declares kind name j = false) :
    (known.resolve? (atLine scopes line) kind name = .ok i.target ↔
      (∀ j ∈ after, j.rivals kind name = false) ∨
        known.resolve ⟨scope.name, []⟩ kind name = i.target) ∧
      (kind ≠ .constant → known.resolve? (atLine scopes line) kind name = .ok i.target) := by
  rw [Document.atLine_of_uses hscope himports hline]
  generalize hc : (⟨scope.name, (d.uses statements).foldl enterImport []⟩ : NameContext) = c
  have hfound : (∀ j ∈ after, j.rivals kind name = false) →
      known.resolve? (some c) kind name = .ok i.target := by
    intro hnone
    refine congrArg Except.ok (known.resolve_of_import? hshort hword ?_)
    rw [← hc]
    exact find?_foldl_of_not_rivals huses hi hnone
  have hremoved : (∃ j ∈ after, j.rivals kind name = true) →
      known.resolve? (some c) kind name = .ok (known.resolve ⟨scope.name, []⟩ kind name) := by
    intro hrivals
    have hnone : c.import? kind name = none := by
      rw [← hc]
      exact find?_foldl_of_rivals huses hlast hrivals
    refine congrArg Except.ok ((known.resolve_of_import?_eq_none hshort hnone).trans ?_)
    rw [← hc]
  constructor
  · by_cases hrivals : ∃ j ∈ after, j.rivals kind name = true
    · have hsome : ¬∀ j ∈ after, j.rivals kind name = false := by simpa using hrivals
      rw [hremoved hrivals, or_iff_right hsome]
      exact ⟨Except.ok.inj, congrArg Except.ok⟩
    · have hnone : ∀ j ∈ after, j.rivals kind name = false := by simpa using hrivals
      exact iff_of_true (hfound hnone) (.inl hnone)
  · intro hkind
    refine hfound fun j hj => ?_
    rw [← Bool.not_eq_true]
    intro hrivals
    have hdeclares := declares_of_rivals hkind hrivals
    rw [hlast j hj] at hdeclares
    cases hdeclares

/-- Imports of all kinds, some of which have one alias. -/
def groupedImports : Document :=
  Document.ofSource "a.php"
    "<?php\nuse A\\Foo;\nuse B\\{foo, function bar as Foo, const FOO};\nuse const C\\Bar;\n"

/-- The later class counts, and the function has the alias for itself. -/
theorem resolve_imported_iff_groupedImports :
    Known.resolve? (fun _ _ => false) (atLine groupedImports.scopes 4) .classlike "FOO" =
      .ok "\\B\\foo" ∧
    Known.resolve? (fun _ _ => false) (atLine groupedImports.scopes 4) .constant "FOO" =
      .ok "\\B\\FOO" := by
  have hscope : groupedImports.scopes.reverse.find? (·.hasLine 4) =
      some ⟨none, 1, 5, groupedImports.imports groupedImports.statements⟩ := by decide +kernel
  have huses : groupedImports.uses groupedImports.statements =
      [⟨.classlike, "Foo", "\\A\\Foo", 2⟩, ⟨.classlike, "foo", "\\B\\foo", 3⟩,
        ⟨.function, "Foo", "\\B\\bar", 3⟩, ⟨.constant, "FOO", "\\B\\FOO", 3⟩,
        ⟨.constant, "Bar", "\\C\\Bar", 4⟩] := by decide +kernel
  have hline : ∀ i ∈ groupedImports.uses groupedImports.statements, i.line ≤ 4 := by
    rw [huses]
    decide
  constructor
  · exact (resolve_imported_iff _ groupedImports _ _ _ 4 .classlike "FOO" hscope rfl hline
      (by decide) (by decide) [_] _ _ huses (by decide) (by decide)).2 (by decide)
  · exact (resolve_imported_iff _ groupedImports _ _ _ 4 .constant "FOO" hscope rfl hline
      (by decide) (by decide) [_, _, _] _ _ huses (by decide) (by decide)).1.2 (.inl (by decide))

/-- Two constants whose names differ only in case. -/
def respelledImports : Document :=
  Document.ofSource "a.php" "<?php\nuse const A\\FOO, A\\foo;\nclass C {}\n"

/-- The import of the first constant is removed by that of the second, so its name is not the
constant that was imported. -/
theorem not_forall_resolve_imported :
    ¬∀ (known : Known) (d : Document) (statements : List Stmt) (scopes : List NamespaceScope)
      (scope : NamespaceScope) (line : Nat) (kind : SymbolKind) (name : String),
      scopes.reverse.find? (·.hasLine line) = some scope →
      scope.imports = d.imports statements → (∀ i ∈ d.uses statements, i.line ≤ line) →
      hasSeparator name = false → foldMem name classWords = false →
      ∀ (before after : List Import) (i : Import), d.uses statements = before ++ i :: after →
        declares kind name i = true → (∀ j ∈ after, declares kind name j = false) →
        known.resolve? (atLine scopes line) kind name = .ok i.target := by
  intro h
  have hscope : respelledImports.scopes.reverse.find? (·.hasLine 3) =
      some ⟨none, 1, 4, respelledImports.imports respelledImports.statements⟩ := by decide +kernel
  have huses : respelledImports.uses respelledImports.statements =
      [⟨.constant, "FOO", "\\A\\FOO", 2⟩, ⟨.constant, "foo", "\\A\\foo", 2⟩] := by
    decide +kernel
  have hline : ∀ i ∈ respelledImports.uses respelledImports.statements, i.line ≤ 3 := by
    rw [huses]
    decide
  have himported := h (fun _ _ => false) respelledImports respelledImports.statements
    respelledImports.scopes _ 3 .constant "FOO" hscope rfl hline (by decide) (by decide) [] _ _
    huses (by decide) (by decide)
  have hfallback : Known.resolve? (fun _ _ => false) (atLine respelledImports.scopes 3) .constant
      "FOO" = .ok "\\FOO" := by decide +kernel
  rw [himported] at hfallback
  revert hfallback
  decide

end PhpAtlas
