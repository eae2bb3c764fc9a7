import PhpAtlas.Proofs.Deduction.Scopes
import PhpAtlas.Proofs.Index.Ownership
import PhpAtlas.Proofs.Index.Places
import PhpAtlas.Proofs.Scope.Names

/-!
# Parameters, as they are recorded and as they are deduced

The parameters of a function or method are read twice: when its document is indexed, and when a
variable is looked up in its body.  Both readings resolve names of classes only, which does not
depend on what is known, so they agree as soon as the look-up finds the function.  It does so in a
file and in its namespaces.  Declarations in blocks and branches are indexed as well, but the
look-up does not enter these: there a parameter is looked up among the statements around.

## Main definitions

* `Indexed` — a function or method that is indexed, and what stands around it.
* `Atlas.recorded` — the parameters that are recorded for it.
* `Body.Braced` — a body between braces.
* `Atlas.lookup` — the look-up of a variable at an offset.

## Main results

* `Known.parameters_eq` — what is known plays no part in a signature.
* `Body.Braced.inScope_eq` — just behind the opening brace, the candidates are those of the start.
* `deduced_parameter_of_enclosures` — just behind the opening brace, the deduced types of a
  parameter are the recorded ones, unless a block or branch stands around the function.
-/

namespace PhpAtlas

/-! ### What is known plays no part -/

namespace Known

variable (known other : Known)

/-- Names of classlikes are resolved without regard to what is known. -/
theorem resolve_classlike (c : NameContext) :
    known.resolve c .classlike = other.resolve c .classlike := by
  funext name
  simp only [resolve, resolveShort, decide_true, Bool.true_or, if_true]

theorem resolveTypes_eq : known.resolveTypes = other.resolveTypes := by
  have hbase : known.resolveBase = other.resolveBase := by
    funext c cls base
    simp only [resolveBase, resolve_classlike known other]
  have htype : known.resolveType = other.resolveType := by
    funext c cls name
    simp only [resolveType, hbase]
  funext c cls names
  simp only [resolveTypes, htype]

theorem parameters_eq : known.parameters = other.parameters := by
  have htypes := resolveTypes_eq known other
  have hdocumented : known.docParameterTypes = other.docParameterTypes := by
    funext site doc name
    simp only [docParameterTypes, resolveDocType, htypes]
  have hnative : known.hintParameterTypes = other.hintParameterTypes := by
    funext site p nullDefault
    simp only [hintParameterTypes, resolveHint, htypes]
  have hone : known.parameter = other.parameter := by
    funext site doc p
    simp only [parameter, hdocumented, hnative]
  funext site doc ps
  simp only [parameters, hone]

end Known

theorem Atlas.classScope_eq (a b : Atlas) : a.classScope = b.classScope := by
  funext doc scopes d
  simp only [classScope, parentOf, Known.resolve_classlike a.known b.known]

/-! ### Recorded parameters -/

/-- A function, or a method of a classlike, that is indexed from a file, and what stands around
it. -/
inductive Indexed (file : List Stmt) (way : List Enclosure) (d : FunctionDecl Expr Stmt) :
    (owner : Option (ClassDecl Expr Stmt)) → Prop
  | function (h : Placed file way (.function d)) : Indexed file way d none
  | method {cls : ClassDecl Expr Stmt} (h : Placed file way (.classlike cls))
      (hd : Member.method d ∈ cls.members) : Indexed file way d (some cls)

namespace Atlas

/-- The symbol of a method of a classlike. -/
def methodOf (a : Atlas) (doc : Document) (cls : ClassDecl Expr Stmt)
    (d : FunctionDecl Expr Stmt) : MethodSymbol :=
  let scope := a.classScope doc doc.scopes cls
  a.methodSymbol ⟨doc, doc.scopes, some scope⟩ scope.full cls.kind d

/-- The parameters that are recorded for a function or method. -/
def recorded (a : Atlas) (doc : Document) (d : FunctionDecl Expr Stmt) :
    (owner : Option (ClassDecl Expr Stmt)) → List ParameterSymbol
  | none => (a.functionOf doc.site d).parameters
  | some cls => (a.methodOf doc cls d).parameters

theorem recorded_eq (a other : Atlas) (doc : Document) (d : FunctionDecl Expr Stmt)
    (owner : Option (ClassDecl Expr Stmt)) :
    other.recorded doc d owner = a.known.parameters
      ⟨doc, doc.scopes, owner.map (a.classScope doc doc.scopes)⟩ (doc.docFor d.span.start none)
      d.parameters := by
  rw [Known.parameters_eq a.known other.known, a.classScope_eq other]
  cases owner <;> rfl

theorem mem_methods_addProperty {c : ClasslikeSymbol} {m : MethodSymbol} (h : m ∈ c.methods)
    (p : PropertySymbol) : m ∈ (addProperty c p).methods := by
  unfold addProperty
  split
  · exact h
  · exact h

theorem mem_methods_addMethod {c : ClasslikeSymbol} {m : MethodSymbol} (h : m ∈ c.methods)
    (other : MethodSymbol) : m ∈ (addMethod c other).methods := by
  unfold addMethod
  split
  · exact h
  · exact List.mem_append_left _ h

/-- Documented members leave the declared methods there. -/
theorem mem_methods_addMagic (a : Atlas) (site : Site) (doc : Option NodeDoc) {c : ClasslikeSymbol}
    {m : MethodSymbol} (h : m ∈ c.methods) : m ∈ (a.addMagic site doc c).methods := by
  cases doc with
  | none => exact h
  | some doc =>
    -- properties are added first and methods behind them, both by folds that keep the method
    have hfold : ∀ {β : Type} (f : ClasslikeSymbol → β → ClasslikeSymbol),
        (∀ c b, m ∈ c.methods → m ∈ (f c b).methods) → ∀ (l : List β) c, m ∈ c.methods →
        m ∈ (l.foldl f c).methods := by
      intro β f hf l
      induction l with
      | nil => exact fun c hc => hc
      | cons b l ih => exact fun c hc => ih _ (hf c b hc)
    refine hfold _ (fun c other hc => mem_methods_addMethod hc other) _ _ ?_
    exact hfold _ (fun c p hc => mem_methods_addProperty hc p) _ _ h

/-- The symbol of a method is recorded with its classlike. -/
theorem methodOf_mem (a : Atlas) (doc : Document) {cls : ClassDecl Expr Stmt}
    {d : FunctionDecl Expr Stmt} (hd : Member.method d ∈ cls.members) :
    a.methodOf doc cls d ∈ (a.classlikeOf doc.site cls).methods :=
  a.mem_methods_addMagic _ _ (List.mem_flatMap.2 ⟨.method d, hd, List.mem_singleton_self _⟩)

end Atlas

/-! ### The scope of an indexed function -/

/-- Whether a namespace stands around, which the search for the scope enters. -/
def Enclosure.isSpace (e : Enclosure) : Bool := e.space?.isSome

namespace Reached

variable {file ss : List Stmt} {way : List Enclosure}

/-- Statements in nothing but namespaces are those of a namespace. -/
theorem spaceOf (h : Reached file way ss) (hway : ∀ e ∈ way, e.isSpace = true) :
    SpaceOf file ss := by
  induction h with
  | file => exact .file
  | space _ hspace ih => exact .space (ih fun e he => hway e (List.mem_cons_of_mem _ he)) hspace
  | block => cases hway .block List.mem_cons_self
  | branch => cases hway .branch List.mem_cons_self

/-- Around other statements stands a block or a conditional in a namespace. -/
theorem exists_plain (hfile : NestedStmts file) (h : Reached file way ss)
    (hway : ∃ e ∈ way, e.isSpace = false) :
    ∃ outer, SpaceOf file outer ∧ ∃ t ∈ outer, t.isPlain = true ∧
      ∀ s ∈ ss, t.span.Covers s.span := by
  induction way generalizing ss with
  | nil =>
    obtain ⟨e, he, -⟩ := hway
    cases he
  | cons e way ih =>
    obtain ⟨outer, houter, t, ht, hmade, hcovers⟩ := h.parent hfile
    by_cases hrest : ∃ e ∈ way, e.isSpace = false
    · obtain ⟨outer', houter', t', ht', hplain, hcovers'⟩ := ih houter hrest
      exact ⟨outer', houter', t', ht', hplain, fun s hs => (hcovers' t ht).trans (hcovers s hs)⟩
    · -- the innermost enclosure is the only one that is no namespace
      have hspaces : ∀ e ∈ way, e.isSpace = true := fun e he =>
        Bool.not_eq_false _ ▸ fun hnot => hrest ⟨e, he, hnot⟩
      have he : e.isSpace = false := by
        obtain ⟨e', he', hnot⟩ := hway
        rcases List.mem_cons.1 he' with rfl | he'
        · exact hnot
        · exact absurd ⟨e', he', hnot⟩ hrest
      have hplain : t.isPlain = true := by
        cases hmade with
        | space => cases he
        | block | branch => rfl
      exact ⟨outer, houter.spaceOf hspaces, t, ht, hplain, hcovers⟩

end Reached

namespace Indexed

variable {file : List Stmt} {way : List Enclosure} {d : FunctionDecl Expr Stmt}
  {owner : Option (ClassDecl Expr Stmt)}

/-- The statement that declares an indexed function, or the classlike of an indexed method. -/
theorem exists_statement (h : Indexed file way d owner) : ∃ ss, Reached file way ss ∧
    ((owner = none ∧ .function d ∈ ss) ∨
      ∃ cls, owner = some cls ∧ .classlike cls ∈ ss ∧ Member.method d ∈ cls.members) := by
  cases h with
  | function h =>
    obtain ⟨ss, hss, s, hs, j, hdeclares⟩ := h
    cases hdeclares
    exact ⟨ss, hss, .inl ⟨rfl, hs⟩⟩
  | @method cls h hd =>
    obtain ⟨ss, hss, s, hs, j, hdeclares⟩ := h
    cases hdeclares
    exact ⟨ss, hss, .inr ⟨cls, rfl, hs, hd⟩⟩

/-- In nothing but namespaces, an indexed function is a routine of the file. -/
theorem routine (h : Indexed file way d owner) (hway : ∀ e ∈ way, e.isSpace = true) :
    Routine file d owner := by
  obtain ⟨ss, hss, ⟨rfl, hd⟩ | ⟨cls, rfl, hcls, hd⟩⟩ := h.exists_statement
  · exact .function (hss.spaceOf hway) hd
  · exact .method (hss.spaceOf hway) hcls hd

/-- The body of an indexed function lies in the statement that declares it. -/
theorem exists_encloses (hfile : NestedStmts file) (h : Indexed file way d owner)
    {body : Body Stmt} (hbody : d.body = some body) {offset : Nat}
    (hoffset : body.span.holds offset = true) :
    ∃ ss, Reached file way ss ∧ ∃ s ∈ ss, s.span.Encloses offset := by
  obtain ⟨ss, hss, ⟨-, hd⟩ | ⟨cls, -, hcls, hd⟩⟩ := h.exists_statement
  · have hnested := (hss.nested hfile).nested _ hd
    exact ⟨ss, hss, _, hd, (hnested.bodyOfRoutine rfl hbody).2 hoffset⟩
  · obtain ⟨hmethod, hcovers⟩ := ((hss.nested hfile).nested _ hcls).method hd
    exact ⟨ss, hss, _, hcls, hcovers.encloses ((hmethod.bodyOfRoutine rfl hbody).2 hoffset)⟩

/-- In a block or branch, the scope of an indexed function is the namespace or file around. -/
theorem scopeAt_of_plain (hfile : NestedStmts file) (h : Indexed file way d owner)
    (hway : ∃ e ∈ way, e.isSpace = false) {body : Body Stmt} (hbody : d.body = some body)
    {p : Point} (hp : body.span.holds p.offset = true) :
    ∃ start outer, SpaceOf file outer ∧
      Lookup.scopeAt p 0 file file = .statements start outer := by
  obtain ⟨ss, hss, s, hs, hencloses⟩ := h.exists_encloses hfile hbody hp
  obtain ⟨outer, houter, t, ht, hplain, hcovers⟩ := hss.exists_plain hfile hway
  obtain ⟨start, hscope⟩ := houter.scopeAt_plain hfile ht hplain ((hcovers s hs).encloses hencloses)
  exact ⟨start, outer, houter, hscope⟩

end Indexed

/-! ### Just behind the opening brace -/

/-- A body between braces: its statements stand behind the opening one. -/
structure Body.Braced (body : Body Stmt) (text : Text) : Prop where
  brace : Text.slice text ⟨body.span.start, body.span.start + 1⟩ = ['{']
  inside : body.span.start < body.span.stop
  behind : ∀ s ∈ body.statements, body.span.start < s.span.start

/-- Directly behind a character that is no blank and ends no comment, there is no comment. -/
theorem inlineComment?_behind {text : Text} {c : Char} {start : Nat}
    (h : Text.slice text ⟨start, start + 1⟩ = [c]) (hblank : Text.isBlank c = false)
    (hslash : c ≠ '/') : inlineComment? text (start + 1) = none := by
  -- the slice says what stands at the offset in bytes, so the text can be cut there
  obtain ⟨front, rest, htext, hfront, hsize⟩ : ∃ front rest, text = front ++ c :: rest ∧
      Text.byteLength front = start ∧ c.utf8Size = 1 := by
    rw [Text.slice, if_neg (by simp)] at h
    split at h
    · cases h
    · rename_i front tail hcut
      obtain ⟨rfl, hfront⟩ := Text.splitAtByte?_eq_some_iff.1 hcut
      dsimp only at h
      rw [Nat.add_sub_cancel_left] at h
      split at h
      · cases h
      · rename_i inner rest hone
        obtain ⟨rfl, hlength⟩ := Text.splitAtByte?_eq_some_iff.1 hone
        rw [h] at hlength ⊢
        exact ⟨front, rest, rfl, hfront, hlength⟩
  have hcut : Text.splitAtByte? (start + 1) text = some (front ++ [c], rest) := by
    rw [Text.splitAtByte?_eq_some_iff]
    refine ⟨by rw [htext, List.append_assoc, List.singleton_append], ?_⟩
    rw [Text.byteLength_append, hfront, Text.byteLength, hsize]
    rfl
  -- no blanks are trimmed behind the character, and it does not end a comment
  have htrim : Text.trimEnd (front ++ [c]) = front ++ [c] := by
    rw [Text.trimEnd, Text.dropEndWhile, List.reverse_append, List.reverse_singleton,
      List.singleton_append, List.dropWhile_cons_of_neg (by simp [hblank])]
    simp
  have hends : Text.endsWith ['*', '/'] (front ++ [c]) = false := by
    rw [Text.endsWith, Text.stripEnd?, List.reverse_append, List.reverse_singleton,
      List.singleton_append]
    simp [Text.stripStart?, hslash.symm]
  rw [inlineComment?, hcut]
  dsimp only
  rw [htrim, hends, if_neg Bool.false_ne_true]

namespace Body.Braced

variable {body : Body Stmt}

theorem holds {text : Text} (h : body.Braced text) :
    body.span.holds (body.span.start + 1) = true :=
  Span.holds_iff.2 ⟨Nat.le_add_right _ _, h.inside⟩

/-- Just behind the opening brace, the candidates are those of the start. -/
theorem inScope_eq {l : Lookup} (h : body.Braced l.site.doc.text) {p : Point}
    (hp : p.offset = body.span.start + 1) (types : TypeList) :
    l.inScope p body.span.start body.statements types = some types := by
  have hwalk : l.walk body.statements p false types = some (Lookup.goOn types) := by
    cases hstatements : body.statements with
    | nil => rw [Lookup.walk]
    | cons s rest =>
      have hs : p.offset ≤ s.span.start := by
        rw [hp]
        exact h.behind s (hstatements ▸ List.mem_cons_self)
      rw [Lookup.walk, if_pos hs]
  have hoverride : l.override p body.span.start types = types := by
    rw [Lookup.override, hp, inlineComment?_behind h.brace (by decide) (by decide)]
  rw [Lookup.inScope, hwalk, Option.bind_eq_bind, Option.bind_some, Lookup.goOn,
    if_neg Bool.false_ne_true, hoverride]
  rfl

end Body.Braced

/-! ### Deduced parameters -/

namespace Atlas

/-- The look-up of a variable at an offset of a document. -/
def lookup (a : Atlas) (doc : Document) (offset : Nat) (var : String) : Lookup :=
  let site := a.siteAt doc offset
  ⟨a.known, site, var, a.answerWith site (a.variableIn site (a.stepsFor doc - 1))⟩

theorem deduce?_var (a : Atlas) (doc : Document) (offset : Nat) {var : String}
    (hvar : var ≠ "$this") (span : Span) :
    a.deduce? doc offset (.var span var) = (a.lookup doc offset var).types ⟨offset, 0⟩ := by
  obtain ⟨steps, hsteps⟩ : ∃ steps, a.stepsFor doc = steps + 1 :=
    Nat.exists_eq_add_one_of_ne_zero (by simp [stepsFor])
  rw [deduce?, deduceIn, answerWith, if_neg (Nat.not_lt_zero _), deduceWith,
    if_neg (by simpa using hvar), lookup, hsteps]
  rfl

end Atlas

/-- Just behind the opening brace of an indexed function or method, the deduced types of a parameter
are those that are recorded for it, if nothing but namespaces stands around it.  In a block or
branch they are those of a variable of that name among the statements of the namespace or file.
Neither depends on what was known when the function was indexed. -/
theorem deduced_parameter_of_enclosures {doc : Document} (hdoc : NestedStmts doc.statements)
    {way : List Enclosure} {d : FunctionDecl Expr Stmt} {owner : Option (ClassDecl Expr Stmt)}
    (h : Indexed doc.statements way d owner) {body : Body Stmt} (hbody : d.body = some body)
    (hbraced : body.Braced doc.text) (indexing a : Atlas) {var : String} (hvar : var ≠ "$this")
    {q : ParameterSymbol}
    (hq : (indexing.recorded doc d owner).find? (·.name == var) = some q) (span : Span) :
    (∀ cls ∈ owner, indexing.methodOf doc cls d ∈ (indexing.classlikeOf doc.site cls).methods) ∧
    ((∀ e ∈ way, e.isSpace = true) →
      a.deduce? doc (body.span.start + 1) (.var span var) = some q.types) ∧
    ((∃ e ∈ way, e.isSpace = false) →
      ∃ start outer, SpaceOf doc.statements outer ∧
        a.deduce? doc (body.span.start + 1) (.var span var) =
          (a.lookup doc (body.span.start + 1) var).inScope ⟨body.span.start + 1, 0⟩ start outer
            TypeList.empty) := by
  let l := a.lookup doc (body.span.start + 1) var
  refine ⟨?_, fun hway => ?_, fun hway => ?_⟩
  · intro cls hcls
    cases h with
    | function => cases hcls
    | method _ hd =>
      cases hcls
      exact indexing.methodOf_mem doc hd
  · -- the scope is the body, and its class is the one with which the signature was recorded
    have hroutine := h.routine hway
    have hscope : Lookup.scopeAt ⟨body.span.start + 1, 0⟩ 0 l.site.doc.statements
        l.site.doc.statements = .routine d body :=
      hroutine.scopeAt_eq hdoc hbody hbraced.holds
    have hsite : l.site = ⟨doc, doc.scopes, owner.map (a.classScope doc doc.scopes)⟩ := by
      rw [← hroutine.classAt?_eq hdoc hbody hbraced.holds]
      rfl
    have hparameter : l.parameterTypes? d.span.start d.parameters = some q.types := by
      rw [a.recorded_eq indexing] at hq
      rw [Lookup.parameterTypes?, hsite]
      exact congrArg (Option.map (·.types)) hq
    rw [a.deduce?_var doc _ hvar, Lookup.types, hscope]
    dsimp only
    rw [hparameter, Option.getD_some]
    exact hbraced.inScope_eq (l := l) rfl q.types
  · -- the search for the scope stops at the block or branch
    obtain ⟨start, outer, houter, hscope⟩ :=
      h.scopeAt_of_plain (p := ⟨body.span.start + 1, 0⟩) hdoc hway hbody hbraced.holds
    have hscope : Lookup.scopeAt ⟨body.span.start + 1, 0⟩ 0 l.site.doc.statements
        l.site.doc.statements = .statements start outer := hscope
    refine ⟨start, outer, houter, ?_⟩
    rw [a.deduce?_var doc _ hvar, Lookup.types, hscope]

/-- A method with one parameter, of the class around it. -/
def selfMethod : FunctionDecl Expr Stmt :=
  ⟨⟨29, 55⟩, [], ⟨"m", ⟨38, 39⟩⟩,
    [⟨⟨40, 47⟩, [], some (.keyword "self"), false, false, "$p", none, false⟩], none,
    some ⟨⟨49, 55⟩, [.expression ⟨51, 53⟩ (.literal ⟨51, 52⟩ .integer)]⟩⟩

/-- The class around the method. -/
def selfClass : ClassDecl Expr Stmt := ⟨⟨19, 57⟩, .cls, [], "C", [], [], [.method selfMethod]⟩

/-- A class in a namespace. -/
def methodInNamespace : Document :=
  ⟨"a.php", "<?php namespace N; class C { function m(self $p) { 1; } }".toList, [
    .openTag ⟨0, 5⟩, .space ⟨6, 57⟩ (some "N") false [.classlike selfClass]], [], []⟩

/-- The parameter is an instance of the class, as it is recorded. -/
theorem methodInNamespace_deduced : Atlas.deduce? ⟨Tables.empty, 10⟩ methodInNamespace 50
    (.var ⟨45, 47⟩ "$p") = some ⟨[⟨"self", "\\N\\C"⟩]⟩ := by
  have hindexed : Indexed methodInNamespace.statements
      [.space ⟨⟨6, 57⟩, some "N", false, [.classlike selfClass]⟩] selfMethod (some selfClass) :=
    .method ⟨_, .space .file (.tail _ (.head _)), _, .head _, 0, .classlike _⟩ (.head _)
  have hrecorded : ((Atlas.recorded ⟨Tables.empty, 10⟩ methodInNamespace selfMethod
      (some selfClass)).find? (·.name == "$p")).map (·.types) =
        some ⟨[⟨"self", "\\N\\C"⟩]⟩ := by
    decide +kernel
  obtain ⟨q, hq, htypes⟩ := Option.map_eq_some_iff.1 hrecorded
  rw [← htypes]
  exact (deduced_parameter_of_enclosures
    (nestedStmts_of_holdsDown 6 (by decide +kernel) (by decide +kernel)) hindexed rfl
    ⟨by decide +kernel, by decide, by decide⟩ ⟨Tables.empty, 10⟩ ⟨Tables.empty, 10⟩ (by decide) hq
    ⟨45, 47⟩).2.1 (by decide)

/-- A function with one parameter. -/
def classFunction : FunctionDecl Expr Stmt :=
  ⟨⟨8, 31⟩, [], ⟨"f", ⟨17, 18⟩⟩,
    [⟨⟨19, 23⟩, [], some (.name ⟨"A", ⟨19, 20⟩⟩), false, false, "$p", none, false⟩], none,
    some ⟨⟨25, 31⟩, [.expression ⟨27, 29⟩ (.literal ⟨27, 28⟩ .integer)]⟩⟩

/-- A function in a block. -/
def functionInBlock : Document :=
  ⟨"a.php", "<?php { function f(A $p) { 1; } }".toList, [
    .openTag ⟨0, 5⟩, .block ⟨⟨6, 33⟩, [.function classFunction]⟩], [], []⟩

/-- Not all parameters are deduced as they are recorded: in a block, nothing is known of them. -/
theorem not_forall_deduced_parameter_eq_recorded :
    ¬ ∀ (indexing a : Atlas) (doc : Document) (way : List Enclosure) (d : FunctionDecl Expr Stmt)
      (owner : Option (ClassDecl Expr Stmt)) (body : Body Stmt) (var : String)
      (q : ParameterSymbol) (span : Span), NestedStmts doc.statements →
      Indexed doc.statements way d owner → d.body = some body → body.Braced doc.text →
      var ≠ "$this" → (indexing.recorded doc d owner).find? (·.name == var) = some q →
      a.deduce? doc (body.span.start + 1) (.var span var) = some q.types := by
  intro h
  have hindexed : Indexed functionInBlock.statements [.block] classFunction none :=
    .function ⟨_, .block .file (.tail _ (.head _)), _, .head _, 0, .function _⟩
  have hrecorded : ((Atlas.recorded ⟨Tables.empty, 10⟩ functionInBlock classFunction none).find?
      (·.name == "$p")).map (·.types) = some ⟨[⟨"A", "\\A"⟩]⟩ := by
    decide +kernel
  obtain ⟨q, hq, htypes⟩ := Option.map_eq_some_iff.1 hrecorded
  have hdeduced := h ⟨Tables.empty, 10⟩ ⟨Tables.empty, 10⟩ functionInBlock _ _ _ _ "$p" q ⟨21, 23⟩
    (nestedStmts_of_holdsDown 6 (by decide +kernel) (by decide +kernel)) hindexed rfl
    ⟨by decide +kernel, by decide, by decide⟩ (by decide) hq
  have hnothing : Atlas.deduce? ⟨Tables.empty, 10⟩ functionInBlock 26 (.var ⟨21, 23⟩ "$p") =
      some TypeList.empty := by
    rw [Atlas.deduce?_var _ _ _ (by decide)]
    cbv
  rw [htypes] at hdeduced
  cases hnothing.symm.trans hdeduced

end PhpAtlas
