import PhpAtlas.Deduction.Basic
import PhpAtlas.Proofs.Source.Nodes

/-!
# The scope around a position of a nested file

In a file whose nodes are nested, the scope around a position is the one that is written around it:
the body of a function or method that is declared in the file or in a namespace, or else the
statements of the file or of a namespace.

## Main definitions

* `SpaceOf` — the statements of a file, or of a namespace in it.
* `Routine` — a function or method that is declared there, with its body.

## Main results

* `Routine.scopeAt_eq` — at every position in the body of a routine, the routine is the scope.
* `Routine.classAt?_eq` — and the classlike of a method is the class.
* `SpaceOf.scopeAt_plain` — at every position in another statement, its namespace is the scope.
-/

namespace PhpAtlas

/-- The statements of a file, or of a namespace in it. -/
inductive SpaceOf (file : List Stmt) : List Stmt → Prop
  | file : SpaceOf file file
  | space {outer inner : List Stmt} (h : SpaceOf file outer) {span : Span} {name : Option String}
      {braced : Bool} (hspace : Stmt.space span name braced inner ∈ outer) : SpaceOf file inner

/-! ### The statement that holds a position -/

namespace Lookup

/-- Statements that do not hold the position are passed over. -/
theorem scopeAt_append {p : Point} (start : Nat) (all : List Stmt) {before : List Stmt}
    (h : ∀ b ∈ before, p.within b.span = false) (rest : List Stmt) :
    scopeAt p start all (before ++ rest) = scopeAt p start all rest := by
  induction before with
  | nil => rfl
  | cons b before ih =>
    have hb : ¬ p.within b.span = true := Bool.eq_false_iff.1 (h b List.mem_cons_self)
    have ih := ih fun s hs => h s (List.mem_cons_of_mem _ hs)
    rw [List.cons_append]
    cases b <;> (simp only [scopeAt]; exact (if_neg hb).trans ih)

end Lookup

theorem classAt?_append {offset : Nat} {before : List Stmt}
    (h : ∀ b ∈ before, b.span.holds offset = false) (rest : List Stmt) :
    classAt? offset (before ++ rest) = classAt? offset rest := by
  induction before with
  | nil => rfl
  | cons b before ih =>
    have hb : ¬ b.span.holds offset = true := Bool.eq_false_iff.1 (h b List.mem_cons_self)
    have ih := ih fun s hs => h s (List.mem_cons_of_mem _ hs)
    rw [List.cons_append]
    cases b with
    | block body =>
      obtain ⟨span, inner⟩ := body
      simp only [classAt?]
      exact (if_neg hb).trans ih
    | _ =>
      simp only [classAt?]
      exact (if_neg hb).trans ih

namespace SpaceOf

variable {file ss : List Stmt} {s : Stmt} {p : Point}

theorem nested (hfile : NestedStmts file) (h : SpaceOf file ss) : NestedStmts ss := by
  induction h with
  | file => exact hfile
  | space _ hspace ih => exact (ih.nested _ hspace).statements [] rfl

/-- A namespace holds the positions that its statements hold. -/
theorem enclosing {outer inner : List Stmt} (houter : NestedStmts outer) {span : Span}
    {name : Option String} {braced : Bool} (hspace : Stmt.space span name braced inner ∈ outer)
    (hs : s ∈ inner) : span.Covers s.span :=
  (houter.nested _ hspace).inside (m := .stmt s) (List.mem_map_of_mem hs)

/-- The search for the scope reaches the statement that holds the position. -/
theorem exists_scopeAt (hfile : NestedStmts file) (h : SpaceOf file ss) (hs : s ∈ ss)
    (hp : s.span.Encloses p.offset) :
    ∃ start after,
      Lookup.scopeAt p 0 file file = Lookup.scopeAt p start ss (s :: after) := by
  -- in each list of statements on the way, those before the right one do not hold the position
  have hskip : ∀ {ss : List Stmt}, NestedStmts ss → ∀ {s}, s ∈ ss → s.span.Encloses p.offset →
      ∀ start, ∃ after, Lookup.scopeAt p start ss ss = Lookup.scopeAt p start ss (s :: after) := by
    intro ss hss s hs hp start
    obtain ⟨before, after, hsplit, hbefore⟩ := hss.split hs hp.1
    refine ⟨after, ?_⟩
    have happend := Lookup.scopeAt_append start ss
      (fun b hb => Span.holds_eq_false (hbefore b hb)) (s :: after)
    rwa [← hsplit] at happend
  induction h generalizing s with
  | file =>
    obtain ⟨after, hafter⟩ := hskip hfile hs hp 0
    exact ⟨0, after, hafter⟩
  | @space outer inner houter span name braced hspace ih =>
    have hspan : span.Encloses p.offset :=
      (enclosing (houter.nested hfile) hspace hs).encloses hp
    obtain ⟨start, after, hscope⟩ := ih hspace hspan
    obtain ⟨after', hafter⟩ := hskip ((houter.space hspace).nested hfile) hs hp span.start
    have hwithin : p.within span = true := hspan.holds
    refine ⟨span.start, after', ?_⟩
    rw [hscope, Lookup.scopeAt, if_pos hwithin, hafter]

/-- So does the search for the class. -/
theorem exists_classAt? (hfile : NestedStmts file) (h : SpaceOf file ss) (hs : s ∈ ss)
    {offset : Nat} (hp : s.span.Encloses offset) :
    ∃ after, classAt? offset file = classAt? offset (s :: after) := by
  have hskip : ∀ {ss : List Stmt}, NestedStmts ss → ∀ {s}, s ∈ ss → s.span.Encloses offset →
      ∃ after, classAt? offset ss = classAt? offset (s :: after) := by
    intro ss hss s hs hp
    obtain ⟨before, after, rfl, hbefore⟩ := hss.split hs hp.1
    exact ⟨after, classAt?_append (fun b hb => Span.holds_eq_false (hbefore b hb)) (s :: after)⟩
  induction h generalizing s with
  | file => exact hskip hfile hs hp
  | @space outer inner houter span name braced hspace ih =>
    have hspan : span.Encloses offset := (enclosing (houter.nested hfile) hspace hs).encloses hp
    obtain ⟨after, hclass⟩ := ih hspace hspan
    obtain ⟨after', hafter⟩ := hskip ((houter.space hspace).nested hfile) hs hp
    refine ⟨after', ?_⟩
    rw [hclass, classAt?, if_pos hspan.holds, hafter]

end SpaceOf

/-! ### Statements that open no scope -/

/-- Whether a statement opens no scope: it is no namespace and declares no function or classlike. -/
def Stmt.isPlain : Stmt → Bool
  | .space .. | .function _ | .classlike _ => false
  | _ => true

/-- At every position in a plain statement, the namespace or file around it is the scope. -/
theorem SpaceOf.scopeAt_plain {file ss : List Stmt} {s : Stmt} {p : Point}
    (hfile : NestedStmts file) (h : SpaceOf file ss) (hs : s ∈ ss) (hplain : s.isPlain = true)
    (hp : s.span.Encloses p.offset) :
    ∃ start, Lookup.scopeAt p 0 file file = .statements start ss := by
  obtain ⟨start, after, hscope⟩ := h.exists_scopeAt hfile hs hp
  have hwithin : p.within s.span = true := hp.holds
  refine ⟨start, hscope.trans ?_⟩
  cases s with
  | space | function | classlike => cases hplain
  | _ =>
    simp only [Lookup.scopeAt]
    exact if_pos hwithin

/-! ### Functions and methods -/

/-- A function, or a method of a classlike, that is declared in a file or in a namespace of it. -/
inductive Routine (file : List Stmt) (d : FunctionDecl Expr Stmt) :
    (owner : Option (ClassDecl Expr Stmt)) → Prop
  | function {ss : List Stmt} (h : SpaceOf file ss) (hd : Stmt.function d ∈ ss) :
      Routine file d none
  | method {ss : List Stmt} (h : SpaceOf file ss) {cls : ClassDecl Expr Stmt}
      (hcls : Stmt.classlike cls ∈ ss) (hd : Member.method d ∈ cls.members) :
      Routine file d (some cls)

/-- The body of a nested function is nested, and lies behind the start of the function. -/
theorem Nested.bodyOfRoutine {n : Node} (h : Nested n) {d : FunctionDecl Expr Stmt}
    (hparts : n.parts = Node.partsOfRoutine d) {body : Body Stmt} (hbody : d.body = some body) :
    Nested (.body body) ∧
      ∀ {offset}, body.span.holds offset = true → n.span.Encloses offset := by
  have hmem : Node.body body ∈ n.parts := by
    rw [hparts, Node.partsOfRoutine, hbody]
    simp
  have hname : Node.name d.name ∈ n.parts := by
    rw [hparts]
    exact List.mem_cons_self
  -- the name stands between the start of the function and its body
  obtain ⟨hbefore, -⟩ : d.name.span.Before body.span := by
    have hordered := h.ordered
    rw [hparts, Node.partsOfRoutine, List.pairwise_cons, hbody] at hordered
    exact hordered.1 (.body body) (by simp)
  obtain ⟨hstart, -⟩ : n.span.Covers d.name.span := h.inside hname
  obtain ⟨-, hstop⟩ : n.span.Covers body.span := h.inside hmem
  refine ⟨h.part hmem, fun {offset} hholds => ?_⟩
  obtain ⟨hfrom, hto⟩ := Span.holds_iff.1 hholds
  exact ⟨by omega, by omega⟩

/-- A method is a part of its classlike. -/
theorem Nested.method {cls : ClassDecl Expr Stmt} (h : Nested (.stmt (.classlike cls)))
    {d : FunctionDecl Expr Stmt} (hd : Member.method d ∈ cls.members) :
    Nested (.member (.method d)) ∧ cls.span.Covers d.span :=
  have hmem : Node.member (.method d) ∈ (Node.stmt (.classlike cls)).parts :=
    List.mem_map_of_mem hd
  ⟨h.part hmem, h.inside hmem⟩

namespace Routine

variable {file : List Stmt} {d : FunctionDecl Expr Stmt} {owner : Option (ClassDecl Expr Stmt)}
  {body : Body Stmt} {p : Point}

theorem nested_body (hfile : NestedStmts file) (h : Routine file d owner)
    (hbody : d.body = some body) : Nested (.body body) := by
  cases h with
  | function h hd => exact (((h.nested hfile).nested _ hd).bodyOfRoutine rfl hbody).1
  | method h hcls hd =>
    exact ((((h.nested hfile).nested _ hcls).method hd).1.bodyOfRoutine rfl hbody).1

theorem routine?_eq (hbody : d.body = some body) (hp : p.within body.span = true) :
    Lookup.routine? p d = some (.routine d body) := by
  rw [Lookup.routine?, hbody]
  exact if_pos hp

/-- Of the methods of a nested classlike, the first whose body holds a position is the only one. -/
theorem findSome?_methodAt? {cls : ClassDecl Expr Stmt} (hcls : Nested (.stmt (.classlike cls)))
    (hd : Member.method d ∈ cls.members) (hbody : d.body = some body)
    (hp : p.within body.span = true) :
    cls.members.findSome? (Lookup.methodAt? p) = some (.routine d body) := by
  obtain ⟨hstart, -⟩ : d.span.Encloses p.offset := ((hcls.method hd).1.bodyOfRoutine rfl hbody).2 hp
  have hordered := List.pairwise_map.1 hcls.ordered
  obtain ⟨before, after, hsplit⟩ := List.append_of_mem hd
  have hbefore : ∀ m ∈ before, Lookup.methodAt? p m = none := by
    intro m hm
    obtain ⟨-, hstop⟩ : m.span.Before d.span := by
      rw [hsplit] at hordered
      exact (List.pairwise_append.1 hordered).2.2 m hm _ List.mem_cons_self
    cases m with
    | method other =>
      rw [Lookup.methodAt?, Lookup.routine?]
      cases hother : other.body with
      | none => rfl
      | some otherBody =>
        have hmem : Member.method other ∈ cls.members := hsplit ▸ List.mem_append_left _ hm
        refine if_neg fun hwithin => ?_
        obtain ⟨-, hinside⟩ : other.span.Encloses p.offset :=
          ((hcls.method hmem).1.bodyOfRoutine rfl hother).2 hwithin
        have hstop : other.span.stop ≤ d.span.start := hstop
        omega
    | _ => rfl
  rw [hsplit, List.findSome?_append, List.findSome?_eq_none_iff.2 hbefore, Option.none_or,
    List.findSome?_cons, Lookup.methodAt?, routine?_eq hbody hp]

/-- At every position in the body of a routine, the routine is the scope. -/
theorem scopeAt_eq (hfile : NestedStmts file) (h : Routine file d owner)
    (hbody : d.body = some body) (hp : p.within body.span = true) :
    Lookup.scopeAt p 0 file file = .routine d body := by
  cases h with
  | function h hd =>
    have hspan : d.span.Encloses p.offset :=
      (((h.nested hfile).nested _ hd).bodyOfRoutine rfl hbody).2 hp
    obtain ⟨start, after, hscope⟩ := h.exists_scopeAt hfile hd hspan
    have hwithin : p.within d.span = true := hspan.holds
    rw [hscope, Lookup.scopeAt, if_pos hwithin, routine?_eq hbody hp, Option.getD_some]
  | @method ss h cls hcls hd =>
    have hnested := (h.nested hfile).nested _ hcls
    obtain ⟨hmethod, hcovers⟩ := hnested.method hd
    have hspan : cls.span.Encloses p.offset :=
      hcovers.encloses ((hmethod.bodyOfRoutine rfl hbody).2 hp)
    obtain ⟨start, after, hscope⟩ := h.exists_scopeAt hfile hcls hspan
    have hwithin : p.within cls.span = true := hspan.holds
    rw [hscope, Lookup.scopeAt, if_pos hwithin, findSome?_methodAt? hnested hd hbody hp,
      Option.getD_some]

/-- The classlike of a method is the class there, and a function has none. -/
theorem classAt?_eq (hfile : NestedStmts file) (h : Routine file d owner)
    (hbody : d.body = some body) {offset : Nat} (hp : body.span.holds offset = true) :
    classAt? offset file = owner := by
  cases h with
  | function h hd =>
    have hspan : d.span.Encloses offset :=
      (((h.nested hfile).nested _ hd).bodyOfRoutine rfl hbody).2 hp
    obtain ⟨after, hclass⟩ := h.exists_classAt? hfile hd hspan
    rw [hclass]
    simp only [classAt?]
    exact if_pos hspan.holds
  | @method ss h cls hcls hd =>
    obtain ⟨hmethod, hcovers⟩ := ((h.nested hfile).nested _ hcls).method hd
    have hspan : cls.span.Encloses offset :=
      hcovers.encloses ((hmethod.bodyOfRoutine rfl hbody).2 hp)
    obtain ⟨after, hclass⟩ := h.exists_classAt? hfile hcls hspan
    rw [hclass, classAt?, if_pos hspan.holds]

end Routine

end PhpAtlas
