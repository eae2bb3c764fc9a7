import PhpAtlas.Lint.Basic

/-!
# More symbols, fewer errors

A function or constant without qualification is looked for in the current namespace and then in the
global one, so knowing more symbols can change what a name stands for.  Where that happens the name
stands for something known.  So a report on an unknown symbol stays as it is, or it goes away.

## Main results

* `Known.resolve_cases` — how far a name depends on what is known.
* `Atlas.unknown?_of_within` — with more symbols, the same name is unknown or none is.
* `Atlas.errors_sublist_of_within` — **with more symbols, the errors are among those before.**
-/

namespace PhpAtlas

namespace Known

/-- A name stands for the same whatever is known, or it falls back to the global namespace. -/
theorem resolve_cases (c : NameContext) (kind : SymbolKind) (name : String) :
    (∃ full, ∀ known : Known, known.resolve c kind name = full) ∨
      ∃ own, ∀ known : Known,
        known.resolve c kind name = if known kind own then own else "\\" ++ name := by
  simp only [resolve]
  split
  · exact .inl ⟨name, fun _ => rfl⟩
  split
  · rename_i rest _
    exact .inl ⟨Name.join c.space (String.ofList rest), fun _ => rfl⟩
  split
  · exact .inl ⟨_, fun _ => rfl⟩
  · simp only [resolveShort]
    split
    · exact .inl ⟨fold name, fun _ => rfl⟩
    split
    · rename_i i _
      exact .inl ⟨i.target, fun _ => rfl⟩
    · -- only here the symbols count, and only for functions and constants in a namespace
      by_cases hfixed : (kind = .classlike || c.space.isNone) = true
      · exact .inl ⟨Name.join c.space name, fun known => by rw [hfixed, Bool.true_or, if_pos rfl]⟩
      · rw [Bool.not_eq_true] at hfixed
        exact .inr ⟨Name.join c.space name, fun known => by rw [hfixed, Bool.false_or]⟩

/-- Every symbol that is known to the one is known to the other. -/
def Within (known more : Known) : Prop :=
  ∀ kind full, known kind full = true → more kind full = true

variable {known more : Known}

theorem Within.unknown (h : known.Within more) {kind : SymbolKind} {full : String}
    (hmore : more kind full = false) : known kind full = false := by
  cases hknown : known kind full with
  | false => rfl
  | true => exact (h kind full hknown).symm.trans hmore

/-- A name that stands for nothing known stands for the same when less is known. -/
theorem Within.resolve_of_unknown (h : known.Within more) {c : NameContext} {kind : SymbolKind}
    {name : String} (hunknown : more kind (more.resolve c kind name) = false) :
    known.resolve c kind name = more.resolve c kind name := by
  rcases resolve_cases c kind name with ⟨full, hfull⟩ | ⟨own, hown⟩
  · rw [hfull, hfull]
  · rw [hown] at hunknown
    have hmore : more kind own = false := by
      cases hknown : more kind own with
      | false => rfl
      | true =>
        rw [if_pos hknown, hknown] at hunknown
        exact hunknown
    rw [hown, hown, hmore, h.unknown hmore]

end Known

/-- Fewer results, and no others. -/
theorem sublist_filterMap {α β : Type} {f g : α → Option β} (h : ∀ a, g a = f a ∨ g a = none)
    (l : List α) : (l.filterMap g).Sublist (l.filterMap f) := by
  induction l with
  | nil => exact List.Sublist.refl []
  | cons a l ih =>
    rw [List.filterMap_cons, List.filterMap_cons]
    rcases h a with hsame | hnone
    · rw [hsame]
      cases f a with
      | none => exact ih
      | some b => exact ih.cons_cons b
    · rw [hnone]
      cases f a with
      | none => exact ih
      | some b => exact ih.cons b

namespace Atlas

variable {a b : Atlas}

/-- With more symbols, the same name is unknown or none is. -/
theorem unknown?_of_within (h : a.known.Within b.known) (c : NameContext) (kind : SymbolKind)
    (name : String) :
    b.unknown? c kind name = a.unknown? c kind name ∨ b.unknown? c kind name = none := by
  simp only [unknown?]
  split
  · exact .inr rfl
  · cases hunknown : b.known kind (b.known.resolve c kind name) with
    | true => exact .inr rfl
    | false =>
      rw [h.resolve_of_unknown hunknown, h.unknown hunknown]
      exact .inl rfl

theorem errorOf?_of_within (h : a.known.Within b.known) (s : LintSettings) (doc : Document)
    (use : Reference) :
    b.errorOf? s doc use = a.errorOf? s doc use ∨ b.errorOf? s doc use = none := by
  cases use with
  | symbol kind r =>
    simp only [errorOf?, unknownSymbol]
    split
    · rcases unknown?_of_within h (doc.contextAt doc.scopes r.span.start) kind r.text with hu | hu
      · rw [hu]
        exact .inl rfl
      · rw [hu]
        exact .inr rfl
    · exact .inl rfl
  | _ => exact .inl rfl

/-- **With more symbols, the errors are among those before**, in the same order and with the same
texts. -/
theorem errors_sublist_of_within (a b : Atlas) (h : a.known.Within b.known) (s : LintSettings)
    (doc : Document) : (b.lint s doc).errors.Sublist (a.lint s doc).errors :=
  (List.Sublist.refl (syntaxReports s doc)).append
    (sublist_filterMap (errorOf?_of_within h s doc) (references doc.statements))

end Atlas

/-- Recording a function adds to what is known. -/
theorem Tables.within_putFunction (t : Tables) (f : FunctionSymbol) :
    Known.Within t.knows (t.putFunction f).knows := by
  intro kind full h
  cases kind with
  | function =>
    change ((t.functions.put f).get? (Name.key full)).isSome = true
    rw [KeyedTable.get?_put]
    split
    · rfl
    · exact h
  | _ => exact h

namespace Atlas

/-- A function without parameters. -/
def plainFunction (full : String) : FunctionSymbol :=
  ⟨full, Name.short full, "f.php", 1, 1, [], TypeList.empty, TypeList.empty, {}⟩

/-- Calls of three functions in a namespace. -/
def callsInNamespace : Document :=
  Document.ofSource "a.php" "<?php namespace N; f(); g(); h();"

/-- One function of the global namespace. -/
def oneFunction : Tables := Tables.empty.putFunction (plainFunction "\\g")

/-- With a function of the namespace the error on its name goes away, and the others stay. -/
theorem errors_sublist_of_within_callsInNamespace :
    (lint ⟨oneFunction, 10⟩ {} callsInNamespace).errors.map (·.message) =
      ["Unknown function \\f", "Unknown function \\h"] ∧
    (lint ⟨oneFunction.putFunction (plainFunction "\\N\\F"), 10⟩ {} callsInNamespace).errors.map
      (·.message) = ["Unknown function \\h"] ∧
    (lint ⟨oneFunction.putFunction (plainFunction "\\N\\F"), 10⟩ {} callsInNamespace).errors.Sublist
      (lint ⟨oneFunction, 10⟩ {} callsInNamespace).errors :=
  ⟨by decide +kernel, by decide +kernel,
    errors_sublist_of_within ⟨oneFunction, 10⟩
      ⟨oneFunction.putFunction (plainFunction "\\N\\F"), 10⟩
      (oneFunction.within_putFunction _) {} callsInNamespace⟩

end Atlas
end PhpAtlas
