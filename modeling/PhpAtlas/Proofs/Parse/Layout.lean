import PhpAtlas.Proofs.Doc.Location
import PhpAtlas.Proofs.Parse.Statements
import PhpAtlas.Proofs.Scope.Namespaces

/-!
# The layout of a source file

The lexemes of a text stand one behind the other, so a file is read from tokens in their order.
Whatever the text is, the nodes of the document are nested.  A file that is read without complaints
is laid out as the results about namespaces ask for: a namespace without braces runs to the next
one.  A complaint can break this, because statements go on behind a namespace whose head fails.

## Main definitions

* `Lined` — lexemes in their order behind an offset.
* `Runs` — a namespace without braces is followed by a namespace.

## Main results

* `lined_scan` — the lexemes of a text are in their order.
* `Reader.ends_file` — the statements of a file stand in a row.
* `Document.nestedStmts_ofSource` — the statements of a document are nested.
* `Document.inPlace_ofSource` — and so are all nodes with their offsets.
* `Document.laid_ofSource` — a document without complaints is laid out.
* `Document.not_forall_laid_ofSource` — a document with complaints need not be.
-/

namespace PhpAtlas

/-! ### Lexemes -/

/-- Lexemes that are not empty stand in their order behind an offset. -/
structure Lined (pos : Nat) (lexemes : List Lexeme) : Prop where
  behind : ∀ l ∈ lexemes, pos ≤ l.span.start
  proper : ∀ l ∈ lexemes, l.span.start < l.span.stop
  ordered : lexemes.Pairwise fun a b => a.span.stop ≤ b.span.start

theorem Text.byteLength_cons_pos (c : Char) (cs : Text) : 0 < Text.byteLength (c :: cs) :=
  Nat.add_pos_left c.utf8Size_pos _

theorem Lined.cons {pos : Nat} {l : Lexeme} {lexemes : List Lexeme} (h : Lined l.span.stop lexemes)
    (hstart : pos ≤ l.span.start) (hproper : l.span.start < l.span.stop) :
    Lined pos (l :: lexemes) where
  behind := List.forall_mem_cons.2 ⟨hstart, fun m hm =>
    Nat.le_trans hstart (Nat.le_trans (Nat.le_of_lt hproper) (h.behind m hm))⟩
  proper := List.forall_mem_cons.2 ⟨hproper, h.proper⟩
  ordered := List.pairwise_cons.2 ⟨h.behind, h.ordered⟩

theorem lined_nil (pos : Nat) : Lined pos [] :=
  ⟨List.forall_mem_nil _, List.forall_mem_nil _, .nil⟩

/-- Each lexeme starts where the one in front of it ends. -/
theorem lined_scan (frames : List Frame) (pos : Nat) (t : Text) :
    Lined pos (scan frames pos t) := by
  fun_induction scan frames pos t with
  | case1 => exact lined_nil _
  | case2 frames pos c cs step text span fault =>
    have hpos := Text.byteLength_cons_pos c (cs.take step.extra)
    exact (lined_nil _).cons (Nat.le_refl _) (Nat.lt_add_of_pos_right hpos)
  | case3 frames pos c cs step text span _ ih =>
    have hpos := Text.byteLength_cons_pos c (cs.take step.extra)
    exact ih.cons (Nat.le_refl _) (Nat.lt_add_of_pos_right hpos)

/-- What is taken from lexemes keeps their ranges. -/
theorem Lined.pairwise_filterMap {α : Type} {pos : Nat} {lexemes : List Lexeme}
    (h : Lined pos lexemes) {f : Lexeme → Option α} {span : α → Span}
    (hf : ∀ l a, f l = some a → span a = l.span) :
    (lexemes.filterMap f).Pairwise fun a b => (span a).stop ≤ (span b).start := by
  refine List.pairwise_filterMap.2 (h.ordered.imp fun {l m} hlm a ha b hb => ?_)
  rwa [hf l a ha, hf m b hb]

theorem Lexeme.span_token? {l : Lexeme} {t : Token} (h : l.token? = some t) : t.span = l.span := by
  rw [token?] at h
  split at h
  · cases h
    rfl
  · cases h

theorem Lexeme.span_trivia? {l : Lexeme} {t : Trivia} (h : l.trivia? = some t) :
    t.span = l.span := by
  rw [trivia?] at h
  split at h
  · cases h
    rfl
  · cases h

theorem ordered_lex (t : Text) : (⟨(lex t).tokens, 0, []⟩ : Parse.State).Ordered where
  behind _ _ := Nat.zero_le _
  proper u hu := by
    obtain ⟨l, hl, hu⟩ := List.mem_filterMap.1 hu
    rw [Lexeme.span_token? hu]
    exact (lined_scan _ _ _).proper l hl
  ordered := (lined_scan _ _ _).pairwise_filterMap fun _ _ => Lexeme.span_token?

/-- Comments and blanks stand in their order in a document. -/
theorem Document.trivia_ordered (path : String) (text : Text) :
    Trivia.Ordered (ofText path text).trivia where
  range u hu := by
    obtain ⟨l, hl, hu⟩ := List.mem_filterMap.1 hu
    rw [Lexeme.span_trivia? hu]
    exact Nat.le_of_lt ((lined_scan _ _ _).proper l hl)
  apart := (lined_scan _ _ _).pairwise_filterMap fun _ _ => Lexeme.span_trivia?

/-! ### Files -/

/-- Behind a namespace without braces stands a namespace. -/
def Runs (ss : List Stmt) : Prop :=
  ss.IsChain fun a b => a.isOpenSpace = true → b.namespace?.isSome = true

namespace Reader

open Parse (State Failure)

/-- Statements run to the next namespace as far as they have been read without complaints. -/
structure Running (ss : List Stmt) (s : State) : Prop where
  ordered : s.Ordered
  runs : s.failures = [] → Runs ss
  last : s.failures = [] → ∀ stmt ∈ ss.getLast?, stmt.isOpenSpace = true →
    s.Stops (· == .reserved "namespace")

variable {g : Grammar} {s : State} {ss : List Stmt}

theorem running_nil (hs : s.Ordered) : Running [] s :=
  ⟨hs, fun _ => .nil, fun _ stmt hstmt => absurd hstmt (Option.not_mem_none stmt)⟩

/-- A statement behind a namespace without braces is a namespace. -/
theorem Running.read (hg : g.InOrder) (h : Running ss s) :
    Ends (statement g) s fun stmt s' => Running (ss ++ [stmt]) s' := by
  have hspace : Ends (statement g) s fun stmt _ =>
      s.Stops (· == .reserved "namespace") → stmt.namespace?.isSome = true := by
    by_cases hstops : s.Stops (· == .reserved "namespace")
    · exact (ends_statement_namespace hg h.ordered hstops).mono fun _ _ _ hstmt _ => hstmt
    · exact (ends_statement hg h.ordered).mono fun _ _ _ _ h => absurd h hstops
  refine ((ends_statement hg h.ordered).and hspace).mono fun stmt s' hleads hstmt => ?_
  obtain ⟨hstands, hspace⟩ := hstmt
  refine ⟨hleads.ordered, fun hclean => ?_, fun hclean stmt' hlast hopen => ?_⟩
  · have hclean := hleads.failures hclean
    refine .append (h.runs hclean) (.singleton _) fun a ha b hb hopen => ?_
    rw [← Option.some.inj hb]
    exact hspace (h.last hclean a ha hopen)
  · rw [List.getLast?_concat] at hlast
    rw [← Option.some.inj hlast] at hopen
    exact hstands.runs hopen

/-- The statements of a file stand in a row, and without complaints they run to the next
namespace. -/
theorem ends_file (hs : s.Ordered) (depth : Nat) :
    Ends (statements (Grammar.ofDepth (depth + 1)) fun _ => false) s fun ss s' =>
      Row s.offset (ss.map .stmt) s'.last ∧ (s'.failures = [] → Runs ss) := by
  have hrow := ends_statements_row (Grammar.inOrder_ofDepth (depth + 1)) hs fun _ => false
  have hruns : Ends (statements (Grammar.ofDepth (depth + 1)) fun _ => false) s _ :=
    ends_statements (I := Running) (fun _ _ h => h.ordered)
      (fun _ _ h => h.read (Grammar.inOrder_ofDepth depth))
      (fun _ _ _ _ hleads hne => ⟨hleads.ordered, fun h => absurd h hne, fun h => absurd h hne⟩)
      (running_nil hs)
  exact (hrow.and hruns).mono fun _ _ _ h => ⟨h.1.1, h.2.1.runs⟩

end Reader

/-- A file is clean if nothing is complained about, and then its tokens have not ended early. -/
theorem diagnosticsOf_eq_nil {fault : Option Diagnostic} {failures : List Parse.Failure}
    (h : diagnosticsOf fault failures = []) : failures = [] := by
  cases fault with
  | none => exact List.map_eq_nil_iff.1 h
  | some d => exact absurd h (List.append_ne_nil_of_right_ne_nil _ (List.cons_ne_nil _ _))

/-- What is read from tokens in their order stands in a row, and without complaints it runs to the
next namespace. -/
theorem parse_row {tokens : List Token} (hs : (⟨tokens, 0, []⟩ : Parse.State).Ordered)
    (fault : Option Diagnostic) :
    (∃ i j, Row i ((parse tokens fault).statements.map .stmt) j) ∧
      ((parse tokens fault).diagnostics = [] → Runs (parse tokens fault).statements) := by
  have hfile := Reader.ends_file hs (4 * tokens.length + 15)
  rw [Reader.Ends] at hfile
  rw [parse]
  split
  case h_1 ss s hrun =>
    rw [hrun] at hfile
    exact ⟨⟨_, _, hfile.2.1⟩, fun h => hfile.2.2 (diagnosticsOf_eq_nil h)⟩
  case h_2 => exact ⟨⟨0, 0, Row.nil⟩, fun _ => .nil⟩

/-! ### Documents -/

theorem Row.nestedStmts {i j : Nat} {ss : List Stmt} (h : Row i (ss.map .stmt) j) :
    NestedStmts ss where
  ordered := by
    refine (List.pairwise_map.1 h.ordered).imp_of_mem fun {a b} ha _ hab => ⟨?_, hab⟩
    exact Nat.lt_of_lt_of_le (h.proper _ (List.mem_map_of_mem ha)) hab
  nested s hs := (h.inPlace _ (List.mem_map_of_mem hs)).mono fun _ hn => hn.aligned

namespace Document

variable (path : String) (text : Text) (source : String)

theorem nestedStmts_ofText : NestedStmts (ofText path text).statements := by
  obtain ⟨⟨i, j, hrow⟩, -⟩ := parse_row (ordered_lex text) (lex text).fault
  exact hrow.nestedStmts

theorem inPlace_ofText :
    ∀ s ∈ (ofText path text).statements, Throughout Node.InPlace (.stmt s) := by
  obtain ⟨⟨i, j, hrow⟩, -⟩ := parse_row (ordered_lex text) (lex text).fault
  exact fun s hs => hrow.inPlace _ (List.mem_map_of_mem hs)

theorem laid_ofText (h : (ofText path text).diagnostics = []) : (ofText path text).Laid where
  nested := nestedStmts_ofText path text
  items s hs := (inPlace_ofText path text s hs).mono fun _ hn => hn.items
  runs := (parse_row (ordered_lex text) (lex text).fault).2 h

/-- **The nodes of a document are nested**, whatever its source is. -/
theorem nestedStmts_ofSource : NestedStmts (ofSource path source).statements :=
  nestedStmts_ofText path source.toList

/-- The offsets that a node keeps lie in it as well. -/
theorem inPlace_ofSource :
    ∀ s ∈ (ofSource path source).statements, Throughout Node.InPlace (.stmt s) :=
  inPlace_ofText path source.toList

/-- **A document without complaints is laid out**: a namespace without braces runs to the next
one. -/
theorem laid_ofSource (h : (ofSource path source).diagnostics = []) : (ofSource path source).Laid :=
  laid_ofText path source.toList h

example : (ofSource "a.php" "<?php namespace A; class X {} namespace B; f();").diagnostics.isEmpty =
    true := by
  decide +kernel

/-- Behind the head that fails, a statement follows the first namespace. -/
theorem not_forall_laid_ofSource : ¬∀ path source, (ofSource path source).Laid := by
  intro h
  have hruns := (h "a.php" "<?php namespace A; namespace B 2;").runs
  exact absurd hruns (by decide +kernel)

end Document
end PhpAtlas
