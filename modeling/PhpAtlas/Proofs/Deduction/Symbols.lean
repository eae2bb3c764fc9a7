import PhpAtlas.Index.Declaration
import PhpAtlas.Proofs.Source.Variables

/-!
# Questions are answered from symbols

The tables of a store also hold files and their namespaces.  No question looks at them: resolving a
classlike reads classlikes, deducing the types of an expression reads symbols, and so does the
symbol of a declaration, whose names are resolved by the scopes that its site brings along.  Of its
document, an expression reads the text and the comments; the rest of the tree is read only where a
variable is looked up.

## Main definitions

* `Atlas.SameSymbols` — two atlases that differ in their files and namespaces only.
* `Site.bare` — what a site is besides the tree of its document.

## Main results

* `Tables.resolve_congr` — the flat view of a classlike depends on classlikes only.
* `Atlas.deduceWith_congr` — the types of an expression depend on symbols, on the bare site, and on
  the types of the variables in it.
* `Atlas.SameSymbols.deduce?` — the types of an expression depend on symbols only.
* `Atlas.SameSymbols.op` — so does the symbol of a declaration.
-/

namespace PhpAtlas

/-! ### Flat views -/

namespace Tables

variable {s t : Tables}

theorem resolveFrom_congr (h : s.classlikes = t.classlikes) (room : Nat) :
    s.resolveFrom room = t.resolveFrom room := by
  have hclasslike : s.classlike? = t.classlike? := by
    funext name
    rw [classlike?, classlike?, h]
  induction room with
  | zero =>
    funext visiting name
    rw [resolveFrom, resolveFrom]
  | succ room ih =>
    funext visiting name
    rw [resolveFrom, resolveFrom, hclasslike, ih]

theorem resolve_congr (h : s.classlikes = t.classlikes) : s.resolve = t.resolve := by
  funext maxDepth name
  rw [resolve, resolve, resolveFrom_congr h]

end Tables

/-! ### Sites -/

namespace Site

/-- What a site is besides the tree of its document. -/
def bare (s : Site) : Site := ⟨⟨"", s.doc.text, [], s.doc.trivia, []⟩, s.scopes, s.cls⟩

variable {s s' : Site}

/-- What can be computed from the bare site is the same. -/
theorem congr_of_bare {α : Type} (h : s'.bare = s.bare) (f : Site → α)
    (hf : ∀ s, f s.bare = f s) : f s' = f s := by
  rw [← hf s', h, hf s]

theorem contextAt_congr (h : s'.bare = s.bare) : s'.contextAt = s.contextAt :=
  congr_of_bare h contextAt fun _ => rfl

theorem classType_congr (h : s'.bare = s.bare) : s'.classType = s.classType :=
  congr_of_bare h classType fun _ => rfl

theorem classReference?_congr (h : s'.bare = s.bare) (known : Known) :
    known.classReference? s' = known.classReference? s := by
  refine congr_of_bare h known.classReference? fun s => ?_
  unfold Known.classReference?
  rfl

end Site

namespace Atlas

/-- Two atlases differ in their files and namespaces only. -/
structure SameSymbols (a b : Atlas) : Prop where
  classlikes : a.tables.classlikes = b.tables.classlikes
  functions : a.tables.functions = b.tables.functions
  constants : a.tables.constants = b.tables.constants
  maxDepth : a.maxDepth = b.maxDepth

namespace SameSymbols

variable {a b : Atlas}

/-! ### What an atlas knows -/

theorem known (h : a.SameSymbols b) : a.known = b.known := by
  funext kind name
  cases kind with
  | classlike => simp only [Atlas.known, Tables.knows, Tables.classlike?, h.classlikes]
  | function => simp only [Atlas.known, Tables.knows, Tables.function?, h.functions]
  | constant => simp only [Atlas.known, Tables.knows, Tables.constant?, h.constants]

theorem functionTypes (h : a.SameSymbols b) : a.functionTypes = b.functionTypes := by
  funext c name
  simp only [Atlas.functionTypes, h.known, Tables.function?, h.functions]

theorem constantTypes (h : a.SameSymbols b) : a.constantTypes = b.constantTypes := by
  funext c name
  simp only [Atlas.constantTypes, h.known, Tables.constant?, h.constants]

theorem memberTypes (h : a.SameSymbols b) : a.memberTypes = b.memberTypes := by
  have hflat : a.flat? = b.flat? := by
    funext name
    simp only [flat?, Tables.flat?, Tables.resolve_congr h.classlikes, h.maxDepth]
  have howner : a.ownerTypes = b.ownerTypes := by
    funext key owner
    simp only [ownerTypes, hflat]
  funext key owners
  simp only [Atlas.memberTypes, howner]

end SameSymbols

/-! ### The types of expressions -/

section

variable {a b : Atlas} {site site' : Site} {lookup lookup' : String → Point → Option TypeList}
  {p : Point}

mutual

/-- The types of an expression depend on the symbols, on the place without the tree around it, and
on the types of the variables in the expression. -/
theorem deduceWith_congr (h : a.SameSymbols b) (hsite : site'.bare = site.bare) (e : Expr)
    (hlookup : ∀ v ∈ e.vars, lookup' v p = lookup v p) :
    a.deduceWith site' lookup' p e = b.deduceWith site lookup p e := by
  have hclass := Site.classReference?_congr hsite b.known
  -- what is asked for a part of the expression
  have hpart : ∀ {e' : Expr}, Node.expr e' ∈ (Node.expr e).parts →
      ∀ v ∈ e'.vars, lookup' v p = lookup v p :=
    fun hmem v hv => hlookup v (Node.vars_subset_of_mem_parts hmem hv)
  cases e with
  | paren _ e | clone _ e =>
    simp only [deduceWith]
    exact deduceWith_congr h hsite e (hpart List.mem_cons_self)
  | var _ name =>
    simp only [deduceWith, hlookup name List.mem_cons_self, Site.classType_congr hsite]
  | assign _ plain _ value =>
    cases plain with
    | true =>
      simp only [deduceWith]
      exact deduceWith_congr h hsite value (hpart (List.mem_cons_of_mem _ List.mem_cons_self))
    | false => simp only [deduceWith]
  | ternary _ condition yes no =>
    have hcondition := deduceWith_congr h hsite condition (hpart List.mem_cons_self)
    have hno := deduceWith_congr h hsite no (hpart Node.no_mem)
    match yes with
    | none => simp only [deduceWith, deduceYes, hcondition, hno]
    | some yes =>
      have hyes := deduceWith_congr h hsite yes (hpart (Node.yes_mem rfl))
      simp only [deduceWith, deduceYes, hcondition, hyes, hno]
  | select _ _ arms =>
    simp only [deduceWith]
    exact deduceArms_congr h hsite arms fun arm harm => hpart (Node.arm_mem harm)
  | binary _ op left right =>
    cases op with
    | coalesce =>
      simp only [deduceWith, deduceWith_congr h hsite left (hpart List.mem_cons_self),
        deduceWith_congr h hsite right (hpart (List.mem_cons_of_mem _ List.mem_cons_self))]
    | _ => simp only [deduceWith]
  | new _ cls _ =>
    simp only [deduceWith, h.known, hclass,
      deduceWith_congr h hsite cls (hpart List.mem_cons_self)]
  | call _ callee _ =>
    match callee with
    | .method _ object (.named _) =>
      simp only [deduceWith, h.memberTypes,
        deduceWith_congr h hsite object (hpart List.mem_cons_self)]
    | .static cls (.named r) =>
      simp only [deduceWith, h.known, h.memberTypes, hclass,
        deduceWith_congr h hsite cls (hpart List.mem_cons_self)]
    | .method _ _ (.computed _) | .static _ (.computed _) => simp only [deduceWith]
    | .function e =>
      cases e <;> simp only [deduceWith, h.functionTypes, Site.contextAt_congr hsite]
  | property _ _ object selector =>
    cases selector with
    | named r =>
      simp only [deduceWith, h.memberTypes,
        deduceWith_congr h hsite object (hpart List.mem_cons_self)]
    | computed e => simp only [deduceWith]
  | staticProperty _ cls property =>
    have hcls := deduceWith_congr h hsite cls (hpart List.mem_cons_self)
    cases property with
    | var _ name => simp only [deduceWith, h.known, h.memberTypes, hclass, hcls]
    | _ => simp only [deduceWith]
  | classConstant _ cls selector =>
    have hcls := deduceWith_congr h hsite cls (hpart List.mem_cons_self)
    cases selector with
    | named r => simp only [deduceWith, h.known, h.memberTypes, hclass, hcls]
    | computed e => simp only [deduceWith]
  | constant r => simp only [deduceWith, h.constantTypes, Site.contextAt_congr hsite]
  | _ => simp only [deduceWith]
termination_by structural e

theorem deduceArms_congr (h : a.SameSymbols b) (hsite : site'.bare = site.bare)
    (arms : List (Arm Expr))
    (hlookup : ∀ arm ∈ arms, ∀ v ∈ arm.value.vars, lookup' v p = lookup v p) :
    a.deduceArms site' lookup' p arms = b.deduceArms site lookup p arms := by
  match arms with
  | [] => simp only [deduceArms]
  | ⟨_, value⟩ :: rest =>
    simp only [deduceArms, deduceWith_congr h hsite value (hlookup _ List.mem_cons_self),
      deduceArms_congr h hsite rest fun arm harm => hlookup arm (List.mem_cons_of_mem _ harm)]
termination_by structural arms

end

theorem answerWith_congr (h : a.SameSymbols b) (hsite : site'.bare = site.bare) (e : Expr)
    (hlookup : ∀ v ∈ e.vars, lookup' v p = lookup v p) :
    a.answerWith site' lookup' e p = b.answerWith site lookup e p := by
  rw [answerWith, answerWith, h.maxDepth, deduceWith_congr h hsite e hlookup]

end

namespace SameSymbols

variable {a b : Atlas}

protected theorem refl (a : Atlas) : a.SameSymbols a := ⟨rfl, rfl, rfl, rfl⟩

theorem answerWith (h : a.SameSymbols b) : a.answerWith = b.answerWith := by
  funext site lookup e p
  exact answerWith_congr h rfl e fun _ _ => rfl

theorem variableIn (h : a.SameSymbols b) (site : Site) (steps : Nat) :
    a.variableIn site steps = b.variableIn site steps := by
  induction steps with
  | zero => rfl
  | succ steps ih =>
    funext var p
    simp only [Atlas.variableIn, variableWith, h.known, h.answerWith, ih]

/-- The types of an expression depend on symbols only. -/
theorem deduce? (h : a.SameSymbols b) : a.deduce? = b.deduce? := by
  have hscope : a.classScope = b.classScope := by
    funext doc scopes d
    simp only [classScope, parentOf, h.known]
  have hsite : a.siteAt = b.siteAt := by
    funext doc offset
    simp only [siteAt, hscope]
  funext doc offset e
  simp only [Atlas.deduce?, deduceIn, stepsFor, h.maxDepth, h.answerWith, hsite, h.variableIn]

theorem deduce (h : a.SameSymbols b) : a.deduce = b.deduce := by
  funext doc offset e
  rw [Atlas.deduce, Atlas.deduce, h.deduce?]

/-! ### The symbols of declarations -/

/-- Of the members of a classlike, only constants ask for the types of expressions. -/
theorem classlikeOf (h : a.SameSymbols b) : a.classlikeOf = b.classlikeOf := by
  have hconstant : a.constantSymbol = b.constantSymbol := by
    funext site owner start modifiers hint item
    simp only [constantSymbol, annotatedTypes, memberHint, itemTypes, valueTypes, h.known, h.deduce]
  have hconstants : a.constants = b.constants := by
    funext site owner short m
    cases m <;> simp only [Atlas.constants, hconstant]
  obtain ⟨⟨files, scopes, classlikes, functions, constants⟩, maxDepth⟩ := a
  obtain ⟨⟨files', scopes', classlikes', functions', constants'⟩, maxDepth'⟩ := b
  obtain ⟨rfl, rfl, rfl, rfl⟩ := h
  funext site d
  simp only [Atlas.classlikeOf, declaredClasslike, hconstants]
  rfl

/-- The symbol of a declaration depends on the symbols that were known. -/
theorem op (h : a.SameSymbols b) (site : Site) (d : Declaration) : d.op a site = d.op b site := by
  cases d with
  | function d => simp only [Declaration.op, functionOf, h.known]
  | constant start item =>
    simp only [Declaration.op, constantOf, annotatedTypes, itemTypes, valueTypes, h.known, h.deduce]
  | defined start offset name value =>
    simp only [Declaration.op, definedOf, annotatedTypes, valueTypes, h.known, h.deduce]
  | classlike d => simp only [Declaration.op, h.classlikeOf]

end SameSymbols
end Atlas
end PhpAtlas
