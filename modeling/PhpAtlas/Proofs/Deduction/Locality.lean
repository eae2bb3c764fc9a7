import PhpAtlas.Proofs.Deduction.Termination

/-!
# Deduction inside a function

The types of an expression in a function do not depend on the code around the function.  The look-up
of a variable walks the body of the function, and asks for the types of expressions there, at
positions there; so no question leaves the body.

## Main definitions

* `SameHead` — classlikes that mean the same to their methods.

## Main results

* `Atlas.variableIn_congr` — variables have the same candidates in the body of a routine.
* `Atlas.deduce_local` — expressions have the same types there.
-/

namespace PhpAtlas

namespace Atlas

/-- Variables have the same candidates in the body of a routine, if it is the scope at all positions
in it. -/
theorem variableIn_congr {a : Atlas} {site site' : Site} {d : FunctionDecl Expr Stmt}
    {body : Body Stmt} (hsite : site'.bare = site.bare) (hbody : Nested (.body body))
    (hscope : ∀ p : Point, body.span.holds p.offset = true →
      Lookup.scopeAt p 0 site.doc.statements site.doc.statements = .routine d body)
    (hscope' : ∀ p : Point, body.span.holds p.offset = true →
      Lookup.scopeAt p 0 site'.doc.statements site'.doc.statements = .routine d body)
    (steps : Nat) (var : String) (p : Point) (hp : body.span.holds p.offset = true) :
    a.variableIn site' steps var p = a.variableIn site steps var p := by
  induction steps generalizing var p with
  | zero => rfl
  | succ steps ih =>
    -- no question of the look-up leaves the body
    have hagree : Lookup.Agree (Region.inside body.span)
        ⟨a.known, site, var, a.answerWith site (a.variableIn site steps)⟩
        ⟨a.known, site', var, a.answerWith site' (a.variableIn site' steps)⟩ := by
      refine ⟨?_, fun e q _ hq => answerWith_congr (.refl a) hsite e fun v _ => ih v q hq⟩
      exact congrArg (fun s => (⟨a.known, s, var, fun _ _ => none⟩ : Lookup)) hsite
    refine Lookup.types_congr hagree ((hscope' p hp).trans (hscope p hp).symm) ?_
    rw [hscope p hp]
    exact ⟨hbody, Span.covers_refl⟩

/-- Two classlikes mean the same to their methods. -/
structure SameHead (doc doc' : Document) (d d' : ClassDecl Expr Stmt) : Prop where
  kind : d'.kind = d.kind
  name : d'.name = d.name
  parents : d'.parentNames = d.parentNames
  /-- Their names are read in the same context. -/
  context : doc'.contextAt doc'.scopes d'.span.start = doc.contextAt doc.scopes d.span.start

/-- The same head at the same place of the same text, with the same namespaces. -/
theorem SameHead.of_start {doc doc' : Document} {d d' : ClassDecl Expr Stmt}
    (htext : doc'.text = doc.text) (hscopes : doc'.scopes = doc.scopes)
    (hstart : d'.span.start = d.span.start) (hkind : d'.kind = d.kind) (hname : d'.name = d.name)
    (hparents : d'.parentNames = d.parentNames) : SameHead doc doc' d d' where
  kind := hkind
  name := hname
  parents := hparents
  context := by rw [hscopes, hstart, Document.contextAt, Document.contextAt, Document.lineAt,
    Document.lineAt, htext]

theorem SameHead.classScope {doc doc' : Document} {d d' : ClassDecl Expr Stmt}
    (h : SameHead doc doc' d d') (a : Atlas) :
    a.classScope doc' doc'.scopes d' = a.classScope doc doc.scopes d := by
  rw [Atlas.classScope, Atlas.classScope, h.context, h.name, parentOf, parentOf, h.kind, h.parents]

/-- In the body of a function or method, the types of an expression do not depend on the code
outside: they are the same in every nested document with the same text, comments and namespaces in
which the function or method is declared, if its classlikes mean the same. -/
theorem deduce_local (a : Atlas) (doc doc' : Document) (htext : doc'.text = doc.text)
    (htrivia : doc'.trivia = doc.trivia) (hscopes : doc'.scopes = doc.scopes)
    (hnested : NestedStmts doc.statements) (hnested' : NestedStmts doc'.statements)
    (d : FunctionDecl Expr Stmt) (body : Body Stmt) (hbody : d.body = some body)
    (owner owner' : Option (ClassDecl Expr Stmt)) (h : Routine doc.statements d owner)
    (h' : Routine doc'.statements d owner') (howner : Option.Rel (SameHead doc doc') owner owner')
    (offset : Nat) (hoffset : body.span.holds offset = true) (e : Expr) :
    (∀ steps, a.deduceIn (a.siteAt doc' offset) steps e ⟨offset, 0⟩ =
      a.deduceIn (a.siteAt doc offset) steps e ⟨offset, 0⟩) ∧
    a.deduce? doc' offset e = a.deduce? doc offset e := by
  have hclass : owner'.map (a.classScope doc' doc'.scopes) =
      owner.map (a.classScope doc doc.scopes) := by
    cases howner with
    | none => rfl
    | some hhead => rw [Option.map_some, Option.map_some, hhead.classScope]
  have hsite : (a.siteAt doc' offset).bare = (a.siteAt doc offset).bare := by
    simp only [siteAt, Site.bare, h.classAt?_eq hnested hbody hoffset,
      h'.classAt?_eq hnested' hbody hoffset, hclass]
    rw [htext, htrivia, hscopes]
  have hvariable := variableIn_congr (a := a) hsite (h.nested_body hnested hbody)
    (fun p hp => h.scopeAt_eq hnested hbody hp) (fun p hp => h'.scopeAt_eq hnested' hbody hp)
  have hsteps : ∀ steps, a.deduceIn (a.siteAt doc' offset) steps e ⟨offset, 0⟩ =
      a.deduceIn (a.siteAt doc offset) steps e ⟨offset, 0⟩ := fun steps =>
    answerWith_congr (.refl a) hsite e fun v _ => hvariable steps v ⟨offset, 0⟩ hoffset
  refine ⟨hsteps, Option.ext fun types => ?_⟩
  rw [deduce?_eq_some_iff, deduce?_eq_some_iff]
  simp only [hsteps]

/-- The body of the method in the next document. -/
def assigningBody : Body Stmt :=
  ⟨⟨43, 64⟩, [
    .expression ⟨45, 58⟩ (.assign ⟨45, 57⟩ true (.var ⟨45, 47⟩ "$x")
      (.new ⟨50, 57⟩ (.name ⟨"A", ⟨54, 55⟩⟩) [])),
    .expression ⟨59, 62⟩ (.var ⟨59, 61⟩ "$x")]⟩

/-- A method that assigns its variable, in a class behind other statements. -/
def assigningDocument (others : List Stmt) : Document :=
  ⟨"a.php", "<?php $x = new B(); class K { function f() { $x = new A(); $x; } }".toList,
    others ++ [.classlike ⟨⟨20, 66⟩, .cls, [], "K", [], [],
      [.method ⟨⟨30, 64⟩, [], ⟨"f", ⟨39, 40⟩⟩, [], none, some assigningBody⟩]⟩], [], []⟩

/-- An assignment in front of the class makes no difference in the method. -/
theorem deduce_local_assigned :
    let a : Atlas := ⟨Tables.empty, 16⟩
    let doc := assigningDocument [.expression ⟨6, 19⟩ (.assign ⟨6, 18⟩ true (.var ⟨6, 8⟩ "$x")
      (.new ⟨11, 18⟩ (.name ⟨"B", ⟨15, 16⟩⟩) []))]
    let doc' := assigningDocument []
    assigningBody.span.holds 60 = true ∧
      a.deduce? doc' 60 (.var ⟨59, 61⟩ "$x") = a.deduce? doc 60 (.var ⟨59, 61⟩ "$x") := by
  intro a doc doc'
  exact ⟨rfl, (deduce_local a doc doc' rfl rfl rfl
    (nestedStmts_of_holdsDown 8 (by decide +kernel) (by decide +kernel))
    (nestedStmts_of_holdsDown 8 (by decide +kernel) (by decide +kernel)) _ assigningBody rfl _ _
    (.method .file (List.mem_cons_of_mem _ List.mem_cons_self) List.mem_cons_self)
    (.method .file List.mem_cons_self List.mem_cons_self)
    (.some (.of_start rfl rfl rfl rfl rfl rfl)) 60 rfl _).2⟩

end Atlas
end PhpAtlas
