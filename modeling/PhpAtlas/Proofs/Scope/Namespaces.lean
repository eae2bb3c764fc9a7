import PhpAtlas.Proofs.Index.Ownership
import PhpAtlas.Proofs.Index.Places
import PhpAtlas.Proofs.Scope.Names

/-!
# The namespace of a declaration

A name is qualified by the namespace scope that holds its line, and of several scopes by the last.
So what a declaration is entered under is settled by its line: it is the name of the last namespace
statement that has code on that line, whether or not this statement stands around the declaration.
Declarations are entered under their own namespace as long as no other one shares their line.

## Main definitions

* `Document.onLine`, `Document.spaceOn` — the namespace statements that have a line, and the name of
  the last one.
* `spaceOf` — the name of the namespace statement around a declaration.
* `Document.Laid` — the ranges of a document as they are read from a source file without complaints.
* `Declaration.written?` — where a declaration stands, and its short name.

## Main results

* `Document.contextAt_space` — the namespace in effect at an offset is that of the last namespace
  statement on its line.
* `entered_under_namespace_of_line` — a declaration is entered under that namespace, which is the
  one around it exactly if the two have the same name.
-/

namespace PhpAtlas

/-! ### Lines -/

namespace Text

theorem lineFeeds_mono (t : Text) {m n : Nat} (h : m ≤ n) : lineFeeds m t ≤ lineFeeds n t := by
  induction t generalizing m n with
  | nil =>
    cases m with
    | zero => exact Nat.zero_le _
    | succ m => exact Nat.zero_le _
  | cons c cs ih =>
    cases m with
    | zero => exact Nat.zero_le _
    | succ m =>
      obtain ⟨n, rfl⟩ : ∃ k, n = k + 1 := ⟨n - 1, by omega⟩
      have hrest : lineFeeds (m + 1 - c.utf8Size) cs ≤ lineFeeds (n + 1 - c.utf8Size) cs :=
        ih (by omega)
      simp only [lineFeeds]
      omega

/-- Behind the end of a text there are no more line feeds. -/
theorem lineFeeds_le_byteLength (t : Text) (n : Nat) :
    lineFeeds n t ≤ lineFeeds (byteLength t) t := by
  induction t generalizing n with
  | nil =>
    cases n with
    | zero => exact Nat.le_refl _
    | succ n => exact Nat.le_refl _
  | cons c cs ih =>
    have hsize : 0 < c.utf8Size := c.utf8Size_pos
    cases n with
    | zero => exact Nat.zero_le _
    | succ n =>
      obtain ⟨k, hk⟩ : ∃ k, byteLength (c :: cs) = k + 1 :=
        ⟨byteLength (c :: cs) - 1, by simp only [byteLength]; omega⟩
      have hrest : k + 1 - c.utf8Size = byteLength cs := by
        simp only [byteLength] at hk
        omega
      have ih := ih (n + 1 - c.utf8Size)
      rw [hk]
      simp only [lineFeeds, hrest]
      omega

end Text

namespace Document

variable (doc : Document)

theorem lineAt_mono {a b : Nat} (h : a ≤ b) : doc.lineAt a ≤ doc.lineAt b :=
  Nat.succ_le_succ (Text.lineFeeds_mono doc.text h)

theorem one_le_lineAt (offset : Nat) : 1 ≤ doc.lineAt offset := Nat.le_add_left 1 _

theorem lineAt_le_lastLine (offset : Nat) : doc.lineAt offset ≤ doc.lastLine :=
  Nat.succ_le_succ (Text.lineFeeds_le_byteLength doc.text offset)

end Document

/-! ### Namespace statements on a line -/

/-- The name of a namespace; the global one has none. -/
def NamespaceNode.space (n : NamespaceNode) : Option String := Document.namespaceName n.name

/-- The name of the innermost namespace statement around a place. -/
def spaceOf (way : List Enclosure) : Option String :=
  (way.findSome? Enclosure.space?).bind (·.space)

namespace Document

/-- Whether a namespace statement has a line. -/
def onLine (doc : Document) (line : Nat) (n : NamespaceNode) : Bool :=
  doc.lineAt n.span.start ≤ line && line ≤ doc.lineAt n.span.stop

/-- The namespace statements of a file. -/
def namespaces (doc : Document) : List NamespaceNode := doc.statements.filterMap Stmt.namespace?

/-- The name of the last namespace statement that has a line. -/
def spaceOn (doc : Document) (line : Nat) : Option String :=
  (doc.namespaces.reverse.find? (doc.onLine line)).bind (·.space)

/-- The last line of a namespace in front of others. -/
def endLine (doc : Document) (n : NamespaceNode) (rest : List NamespaceNode) : Nat :=
  if n.braced then doc.lineAt n.span.stop
  else
    match rest with
    | [] => doc.lastLine
    | m :: _ => max (doc.lineAt m.span.start - 1) (doc.lineAt n.span.start)

theorem namespaceScopes_cons (doc : Document) (n : NamespaceNode) (rest : List NamespaceNode) :
    doc.namespaceScopes (n :: rest) =
      ⟨n.space, doc.lineAt n.span.start, doc.endLine n rest, doc.imports n.statements⟩ ::
        doc.namespaceScopes rest := rfl

end Document

/-- Search from the end: the first element is the last resort. -/
theorem find?_reverse_cons {α : Type} (p : α → Bool) (a : α) (l : List α) :
    (a :: l).reverse.find? p = (l.reverse.find? p).or (if p a then some a else none) := by
  rw [List.reverse_cons, List.find?_append, List.find?_singleton]

/-! ### Documents as they are read -/

/-- The ranges of a document as they are read from a source file without complaints: nodes are
nested, the names of constants stand in their statements, and a namespace without braces runs to the
next one. -/
structure Document.Laid (doc : Document) : Prop where
  nested : NestedStmts doc.statements
  items : ∀ s ∈ doc.statements, Throughout Node.ItemsInside (.stmt s)
  runs : doc.statements.IsChain fun a b => a.isOpenSpace = true → b.namespace?.isSome = true

theorem Document.laid_of_holdsDown (depth : Nat) {doc : Document}
    (hordered : doc.statements.Pairwise fun a b => a.span.Before b.span)
    (haligned : ∀ s ∈ doc.statements, holdsDown Node.Aligned depth (.stmt s) = true)
    (hitems : ∀ s ∈ doc.statements, holdsDown Node.ItemsInside depth (.stmt s) = true)
    (hruns : doc.statements.IsChain fun a b => a.isOpenSpace = true → b.namespace?.isSome = true) :
    doc.Laid :=
  ⟨nestedStmts_of_holdsDown depth hordered haligned,
    fun s hs => throughout_of_holdsDown (hitems s hs), hruns⟩

/-- An offset is in front of all statements, or one of them holds it. -/
def Meets (ss : List Stmt) (offset : Nat) : Prop :=
  (∀ s ∈ ss, offset ≤ s.span.start) ∨ ∃ s ∈ ss, s.span.holds offset = true

/-- What is met by statements in their order is in front of those behind the first, or is met by
them. -/
theorem Meets.tail {s : Stmt} {rest : List Stmt} {offset : Nat} (h : Meets (s :: rest) offset)
    (hordered : ∀ t ∈ rest, s.span.Before t.span) : Meets rest offset := by
  rcases h with hfront | ⟨t, ht, hholds⟩
  · exact .inl fun t ht => hfront t (List.mem_cons_of_mem _ ht)
  · rcases List.mem_cons.1 ht with rfl | ht
    · refine .inl fun u hu => ?_
      obtain ⟨-, hstop⟩ := hordered u hu
      obtain ⟨-, hoffset⟩ := Span.holds_iff.1 hholds
      omega
    · exact .inr ⟨t, ht, hholds⟩

namespace Document

variable (doc : Document)

/-- Unless a later namespace statement has the line, the scope of a namespace holds the line of an
offset exactly if the statement has it. -/
theorem le_endLine_iff {span : Span} {name : Option String} {braced : Bool}
    {inner rest : List Stmt} {offset : Nat}
    (hproper : ∀ s ∈ Stmt.space span name braced inner :: rest, s.span.start ≤ s.span.stop)
    (hordered : (Stmt.space span name braced inner :: rest).Pairwise
      fun a b => a.span.Before b.span)
    (hruns : (Stmt.space span name braced inner :: rest).IsChain
      fun a b => a.isOpenSpace = true → b.namespace?.isSome = true)
    (hmeets : Meets (.space span name braced inner :: rest) offset)
    (hrest : ∀ n ∈ rest.filterMap Stmt.namespace?, doc.onLine (doc.lineAt offset) n = false)
    (hstart : doc.lineAt span.start ≤ doc.lineAt offset) :
    doc.lineAt offset ≤ doc.endLine ⟨span, name, braced, inner⟩ (rest.filterMap Stmt.namespace?) ↔
      doc.lineAt offset ≤ doc.lineAt span.stop := by
  cases braced with
  | true => exact Iff.rfl
  | false =>
    have hspan : doc.lineAt span.start ≤ doc.lineAt span.stop :=
      doc.lineAt_mono (hproper _ List.mem_cons_self)
    cases rest with
    | nil =>
      -- the last namespace runs to the end of the file, and nothing stands behind it
      have hlast : doc.lineAt offset ≤ doc.lineAt span.stop := by
        rcases hmeets with hfront | ⟨t, ht, hholds⟩
        · have hle := doc.lineAt_mono (hfront _ List.mem_cons_self)
          exact Nat.le_trans hle hspan
        · obtain rfl := List.mem_singleton.1 ht
          exact doc.lineAt_mono (Span.holds_iff.1 hholds).2
      exact iff_of_true (doc.lineAt_le_lastLine offset) hlast
    | cons next rest =>
      -- the next statement is a namespace, which does not have the line
      obtain ⟨m, hm⟩ := Option.isSome_iff_exists.1 ((List.isChain_cons_cons.1 hruns).1 rfl)
      have hmspan : m.span = next.span := by
        cases next with
        | space => cases hm; rfl
        | _ => cases hm
      have hnone : doc.onLine (doc.lineAt offset) m = false :=
        hrest m (List.mem_filterMap.2 ⟨next, List.mem_cons_self, hm⟩)
      have hend : doc.endLine ⟨span, name, false, inner⟩
          ((next :: rest).filterMap Stmt.namespace?) =
          max (doc.lineAt next.span.start - 1) (doc.lineAt span.start) := by
        rw [List.filterMap_cons_some hm, endLine, hmspan]
        rfl
      have hnext : doc.lineAt next.span.start ≤ doc.lineAt next.span.stop :=
        doc.lineAt_mono (hproper next (List.mem_cons_of_mem _ List.mem_cons_self))
      have hbefore : doc.lineAt span.stop ≤ doc.lineAt next.span.start :=
        doc.lineAt_mono ((List.pairwise_cons.1 hordered).1 next List.mem_cons_self).2
      have hone := doc.one_le_lineAt next.span.start
      rw [onLine, hmspan, Bool.and_eq_false_iff, decide_eq_false_iff_not,
        decide_eq_false_iff_not] at hnone
      rw [hend]
      rcases hmeets with hfront | ⟨t, ht, hholds⟩
      · have hle : doc.lineAt offset ≤ doc.lineAt span.start :=
          doc.lineAt_mono (hfront _ List.mem_cons_self)
        omega
      · obtain ⟨hfrom, hto⟩ := Span.holds_iff.1 hholds
        rcases List.mem_cons.1 ht with rfl | ht
        · -- the offset lies in the namespace, and the next one starts on a later line
          have hinside : doc.lineAt offset ≤ doc.lineAt span.stop := doc.lineAt_mono hto
          omega
        · -- the offset lies behind, on a later line than the start of the next namespace
          have hbehind : doc.lineAt next.span.start ≤ doc.lineAt offset := by
            refine doc.lineAt_mono (Nat.le_trans ?_ hfrom)
            rcases List.mem_cons.1 ht with rfl | ht
            · exact Nat.le_refl _
            · have hpair := (List.pairwise_cons.1 (List.pairwise_cons.1 hordered).2).1 t ht
              exact Nat.le_of_lt hpair.1
          omega

/-- The last scope that holds the line of an offset is that of the last namespace statement that has
the line. -/
theorem find?_namespaceScopes {ss : List Stmt} {offset : Nat}
    (hproper : ∀ s ∈ ss, s.span.start ≤ s.span.stop)
    (hordered : ss.Pairwise fun a b => a.span.Before b.span)
    (hruns : ss.IsChain fun a b => a.isOpenSpace = true → b.namespace?.isSome = true)
    (hmeets : Meets ss offset) :
    ((doc.namespaceScopes (ss.filterMap Stmt.namespace?)).reverse.find?
        (·.hasLine (doc.lineAt offset))).map (·.name) =
      ((ss.filterMap Stmt.namespace?).reverse.find? (doc.onLine (doc.lineAt offset))).map
        (·.space) := by
  induction ss with
  | nil => rfl
  | cons s rest ih =>
    have ih := ih (fun t ht => hproper t (List.mem_cons_of_mem _ ht))
      (List.pairwise_cons.1 hordered).2 hruns.tail
      (hmeets.tail (List.pairwise_cons.1 hordered).1)
    cases s with
    | space span name braced inner =>
      have hnode : (Stmt.space span name braced inner).namespace? =
          some ⟨span, name, braced, inner⟩ := rfl
      rw [List.filterMap_cons_some hnode, namespaceScopes_cons, find?_reverse_cons,
        find?_reverse_cons]
      cases hfind : (rest.filterMap Stmt.namespace?).reverse.find?
          (doc.onLine (doc.lineAt offset)) with
      | some n =>
        -- a later namespace decides in both searches
        rw [hfind, Option.map_some, Option.map_eq_some_iff] at ih
        obtain ⟨scope, hscope, hname⟩ := ih
        rw [hscope, Option.some_or, Option.some_or, Option.map_some, Option.map_some, hname]
      | none =>
        rw [hfind, Option.map_none, Option.map_eq_none_iff] at ih
        have hrest : ∀ n ∈ rest.filterMap Stmt.namespace?,
            doc.onLine (doc.lineAt offset) n = false := fun n hn =>
          Bool.eq_false_iff.2 (List.find?_eq_none.1 hfind n (List.mem_reverse.2 hn))
        have hsame : NamespaceScope.hasLine ⟨NamespaceNode.space ⟨span, name, braced, inner⟩,
            doc.lineAt span.start,
            doc.endLine ⟨span, name, braced, inner⟩ (rest.filterMap Stmt.namespace?),
            doc.imports inner⟩ (doc.lineAt offset) =
            doc.onLine (doc.lineAt offset) ⟨span, name, braced, inner⟩ := by
          rw [NamespaceScope.hasLine, onLine, Bool.eq_iff_iff, Bool.and_eq_true, Bool.and_eq_true,
            decide_eq_true_iff, decide_eq_true_iff, decide_eq_true_iff]
          exact and_congr_right fun hstart =>
            doc.le_endLine_iff hproper hordered hruns hmeets hrest hstart
        rw [ih, Option.none_or, Option.none_or]
        dsimp only
        rw [hsame]
        split <;> rfl
    | _ => exact ih

variable {doc}

/-- The namespace in effect at an offset is that of the last namespace statement on its line. -/
theorem contextAt_space (hdoc : doc.Laid) {offset : Nat} (hmeets : Meets doc.statements offset) :
    (doc.contextAt doc.scopes offset).space = doc.spaceOn (doc.lineAt offset) := by
  have hproper : ∀ s ∈ doc.statements, s.span.start ≤ s.span.stop :=
    fun s hs => (hdoc.nested.nested s hs).proper
  have hfind := doc.find?_namespaceScopes hproper hdoc.nested.ordered hdoc.runs hmeets
  rw [contextAt, NameContext.atLine, scopes, spaceOn, namespaces]
  cases hnodes : doc.statements.filterMap Stmt.namespace? with
  | nil =>
    -- without namespaces there is one global scope
    simp only [List.reverse_cons, List.reverse_nil, List.nil_append, List.find?_singleton]
    split <;> rfl
  | cons first rest =>
    rw [hnodes] at hfind
    have hleading : ∀ s ∈ doc.leadingScope first, s.name = none := by
      intro s hs
      rw [leadingScope] at hs
      split at hs
      · rw [List.mem_singleton.1 hs]
      · cases hs
    dsimp only
    rw [List.reverse_append, List.find?_append]
    cases hscope : (doc.namespaceScopes (first :: rest)).reverse.find?
        (·.hasLine (doc.lineAt offset)) with
    | some scope =>
      rw [hscope, Option.map_some] at hfind
      obtain ⟨n, hn, hname⟩ := Option.map_eq_some_iff.1 hfind.symm
      rw [hn, Option.some_or, Option.map_some, Option.getD_some, Option.bind_some]
      exact hname.symm
    | none =>
      -- the code in front of the first namespace is global, too
      rw [hscope, Option.map_none] at hfind
      rw [Option.map_eq_none_iff.1 hfind.symm, Option.none_or, Option.bind_none]
      cases hlead : (doc.leadingScope first).reverse.find? (·.hasLine (doc.lineAt offset)) with
      | none => rfl
      | some scope => exact hleading scope (List.mem_reverse.1 (List.mem_of_find?_eq_some hlead))

end Document

/-! ### Declarations -/

/-- Where the namespace of a declaration is read, and its short name.  The name that a call defines
is taken as it is. -/
def Declaration.written? : Declaration → Option (Nat × String)
  | .function d => some (d.span.start, d.name.text)
  | .constant _ item => some (item.name.span.start, item.name.text)
  | .defined .. => none
  | .classlike d => some (d.span.start, d.name)

theorem Declaration.full_eq_join {d : Declaration} {offset : Nat} {name : String}
    (h : d.written? = some (offset, name)) (site : Site) :
    d.full site = Name.join (site.contextAt offset).space name := by
  cases d with
  | function | constant | classlike =>
    cases h
    rfl
  | defined => cases h

theorem Name.join_eq_join_iff {a b : Option String} {name : String} :
    join a name = join b name ↔ join a "" = join b "" := by
  rw [join_eq_append a, join_eq_append b]
  exact String.append_left_inj _

theorem StoreOp.Enters.full_eq {op : StoreOp} {k k' : SymbolKind} {full full' file file' : String}
    (h : op.Enters k full file) (h' : op.Enters k' full' file') : full = full' := by
  cases h <;> cases h' <;> rfl

/-- A declaration is entered under one name. -/
theorem Declaration.enters_iff (a : Atlas) (site : Site) (d : Declaration) (full : String) :
    (d.op a site).Enters d.kind full site.doc.path ↔ d.full site = full := by
  constructor
  · exact (d.enters a site).full_eq
  · rintro rfl
    exact d.enters a site

/-- The namespace of a declaration is read inside the statement that declares it. -/
theorem Stmt.Declares.holds {s : Stmt} {j : Nat} {d : Declaration} (h : s.Declares j d)
    (hnested : Nested (.stmt s)) (hitems : Throughout Node.ItemsInside (.stmt s)) {offset : Nat}
    {name : String} (hwritten : d.written? = some (offset, name)) : s.span.holds offset = true := by
  cases h with
  | function decl | classlike decl =>
    cases hwritten
    exact Span.holds_iff.2 ⟨Nat.le_refl _, hnested.proper⟩
  | constant span hitem =>
    cases hwritten
    exact hitems.here _ (List.mem_map_of_mem (List.mem_of_getElem? hitem))
  | defined => cases hwritten

section Placed

variable {doc : Document} (hdoc : doc.Laid) {way : List Enclosure} {d : Declaration}
  (hplaced : Placed doc.statements way d) {offset : Nat} {name : String}
  (hwritten : d.written? = some (offset, name))

include hdoc hplaced hwritten

/-- The namespace of a declaration is read inside a statement of the file. -/
theorem Placed.meets : Meets doc.statements offset := by
  obtain ⟨ss, hss, s, hs, j, hd⟩ := hplaced
  have hholds := hd.holds ((hss.nested hdoc.nested).nested s hs)
    (hss.throughout hdoc.items s hs) hwritten
  obtain ⟨t, ht, hcovers⟩ := hss.exists_top hdoc.nested hs
  exact .inr ⟨t, ht, hcovers.holds hholds⟩

/-- A namespace has the lines of the declarations in it. -/
theorem Placed.onLine {node : NamespaceNode} (hnode : .space node ∈ way) :
    doc.onLine (doc.lineAt offset) node = true := by
  obtain ⟨ss, hss, s, hs, j, hd⟩ := hplaced
  have hholds := hd.holds ((hss.nested hdoc.nested).nested s hs)
    (hss.throughout hdoc.items s hs) hwritten
  obtain ⟨hfrom, hto⟩ := Span.holds_iff.1 ((hss.space_covers hdoc.nested hnode hs).holds hholds)
  rw [Document.onLine, Bool.and_eq_true, decide_eq_true_iff, decide_eq_true_iff]
  exact ⟨doc.lineAt_mono hfrom, doc.lineAt_mono hto⟩

/-- If all namespaces are statements of the file, and those on the line of a declaration have the
name of the one around it, then so has the last one on the line. -/
theorem Placed.spaceOn_eq (htop : ∀ node, .space node ∈ way → node ∈ doc.namespaces)
    (hline : ∀ node ∈ doc.namespaces, doc.onLine (doc.lineAt offset) node = true →
      node.space = spaceOf way) : doc.spaceOn (doc.lineAt offset) = spaceOf way := by
  rw [Document.spaceOn]
  cases hfind : doc.namespaces.reverse.find? (doc.onLine (doc.lineAt offset)) with
  | some node =>
    have hmem := List.mem_reverse.1 (List.mem_of_find?_eq_some hfind)
    exact hline node hmem (List.find?_some hfind)
  | none =>
    -- a namespace around the declaration would have its line
    have hnone : way.findSome? Enclosure.space? = none := by
      rw [List.findSome?_eq_none_iff]
      intro e he
      cases e with
      | space node =>
        have hmem := List.mem_reverse.2 (htop node he)
        exact absurd (hplaced.onLine hdoc hwritten he) (List.find?_eq_none.1 hfind node hmem)
      | block | branch => rfl
    rw [spaceOf, hnone]

/-- Whatever is known, a function, constant or classlike is entered under the namespace of the last
namespace statement on its line.  This is the namespace around it exactly if the two have the same
name, and so it is where namespaces stand at the top of the file and do not share lines. -/
theorem entered_under_namespace_of_line (a : Atlas) :
    (d.op a doc.site).Enters d.kind (Name.join (doc.spaceOn (doc.lineAt offset)) name) doc.path ∧
    ((d.op a doc.site).Enters d.kind (Name.join (spaceOf way) name) doc.path ↔
      Name.join (doc.spaceOn (doc.lineAt offset)) "" = Name.join (spaceOf way) "") ∧
    ((∀ node, .space node ∈ way → node ∈ doc.namespaces) →
      (∀ node ∈ doc.namespaces, doc.onLine (doc.lineAt offset) node = true →
        node.space = spaceOf way) →
      (d.op a doc.site).Enters d.kind (Name.join (spaceOf way) name) doc.path) := by
  have hspace : (doc.site.contextAt offset).space = doc.spaceOn (doc.lineAt offset) :=
    Document.contextAt_space hdoc (hplaced.meets hdoc hwritten)
  have henters : ∀ space, (d.op a doc.site).Enters d.kind (Name.join space name) doc.path ↔
      Name.join (doc.spaceOn (doc.lineAt offset)) "" = Name.join space "" := by
    intro space
    have henters := d.enters_iff a doc.site (Name.join space name)
    rw [Declaration.full_eq_join hwritten, hspace, Name.join_eq_join_iff] at henters
    exact henters
  refine ⟨(henters _).2 rfl, henters _, fun htop hline => (henters _).2 ?_⟩
  rw [hplaced.spaceOn_eq hdoc hwritten htop hline]

end Placed

/-- A class without members. -/
def bareClass (span : Span) (name : String) : ClassDecl Expr Stmt :=
  ⟨span, .cls, [], name, [], [], []⟩

/-- Two namespaces without braces, on lines of their own. -/
def ownLines : Document :=
  ⟨"a.php", "<?php\nnamespace A;\nclass X {}\nnamespace B;\nclass Y {}\n".toList, [
    .openTag ⟨0, 5⟩,
    .space ⟨6, 29⟩ (some "A") false [.classlike (bareClass ⟨19, 29⟩ "X")],
    .space ⟨30, 53⟩ (some "B") false [.classlike (bareClass ⟨43, 53⟩ "Y")]], [], []⟩

/-- The second class is entered under the second namespace, which alone has its line. -/
theorem ownLines_entered :
    ((Declaration.classlike (bareClass ⟨43, 53⟩ "Y")).op ⟨Tables.empty, 10⟩ ownLines.site).Enters
      .classlike "\\B\\Y" "a.php" := by
  have hdoc : ownLines.Laid := Document.laid_of_holdsDown 4 (by decide +kernel)
    (by decide +kernel) (by decide +kernel) (by decide +kernel)
  have hplaced : Placed ownLines.statements
      [.space ⟨⟨30, 53⟩, some "B", false, [.classlike (bareClass ⟨43, 53⟩ "Y")]⟩]
      (.classlike (bareClass ⟨43, 53⟩ "Y")) :=
    ⟨_, .space .file (.tail _ (.tail _ (.head _))), _, .head _, 0, .classlike _⟩
  exact (entered_under_namespace_of_line hdoc hplaced rfl ⟨Tables.empty, 10⟩).2.1.2
    (by decide +kernel)

/-- Two namespaces that share a line. -/
def sharedLine : Document :=
  ⟨"a.php", "<?php namespace A { class X {} } namespace B { class Y {} }".toList, [
    .openTag ⟨0, 5⟩,
    .space ⟨6, 32⟩ (some "A") true [.classlike (bareClass ⟨20, 30⟩ "X")],
    .space ⟨33, 59⟩ (some "B") true [.classlike (bareClass ⟨47, 57⟩ "Y")]], [], []⟩

/-- A class is not always entered under the namespace around it: here both classes are entered under
the second namespace. -/
theorem not_forall_entered_under_own_namespace :
    ¬ ∀ (a : Atlas) (doc : Document) (way : List Enclosure) (d : Declaration) (offset : Nat)
      (name : String), doc.Laid → Placed doc.statements way d →
      d.written? = some (offset, name) →
      (d.op a doc.site).Enters d.kind (Name.join (spaceOf way) name) doc.path := by
  intro h
  have hdoc : sharedLine.Laid := Document.laid_of_holdsDown 4 (by decide +kernel)
    (by decide +kernel) (by decide +kernel) (by decide +kernel)
  have hplaced : Placed sharedLine.statements
      [.space ⟨⟨6, 32⟩, some "A", true, [.classlike (bareClass ⟨20, 30⟩ "X")]⟩]
      (.classlike (bareClass ⟨20, 30⟩ "X")) :=
    ⟨_, .space .file (.tail _ (.head _)), _, .head _, 0, .classlike _⟩
  have henters := h ⟨Tables.empty, 10⟩ sharedLine _ _ _ _ hdoc hplaced rfl
  have hfull := (Declaration.enters_iff _ sharedLine.site _ _).1 henters
  revert hfull
  decide +kernel

end PhpAtlas
