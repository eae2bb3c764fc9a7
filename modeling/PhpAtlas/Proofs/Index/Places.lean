import PhpAtlas.Index.Declaration
import PhpAtlas.Proofs.Source.Nodes

/-!
# Where declarations stand

Declarations are looked for in the statements of a file, and in those of its namespaces, blocks and
branches, to any depth.  What stands around such statements is a list of enclosures, the innermost
first.

A call defines a constant by what is called and what is passed; this is said of the tree itself, not
by the function that looks for such calls.

## Main definitions

* `Enclosure`, `Reached` — statements in which declarations are looked for, and what stands around
  them.
* `Expr.Defines` — a call that defines a constant.
* `Stmt.Declares` — what a statement declares by itself.
* `Placed` — a declaration and what stands around it.

## Main results

* `definition?_eq_some_iff` — the calls that are found are those that define a constant.
* `Stmt.declares_iff` — a statement that is not entered lists what it declares by itself.
* `mem_declarations_iff` — the declarations of a file are those that are placed in it.
* `Reached.throughout`, `Reached.nested` — what holds throughout the file holds there.
* `Reached.exists_top`, `Reached.space_covers` — the statement of the file and the namespaces around
  such a statement.
-/

namespace PhpAtlas

/-! ### Statements in which declarations are looked for -/

/-- What stands around statements in which declarations are looked for. -/
inductive Enclosure
  | space (node : NamespaceNode)
  | block
  /-- A branch of an `if`. -/
  | branch

/-- The namespace, where the enclosure is one. -/
def Enclosure.space? : Enclosure → Option NamespaceNode
  | space node => some node
  | block | branch => none

/-- The statement of an enclosure. -/
inductive Enclosure.MadeBy : Enclosure → Stmt → Prop
  | space (span : Span) (name : Option String) (braced : Bool) (inner : List Stmt) :
      MadeBy (.space ⟨span, name, braced, inner⟩) (.space span name braced inner)
  | block (body : Body Stmt) : MadeBy .block (.block body)
  | branch (span : Span) (branches : List (Branch Expr Stmt)) : MadeBy .branch (.cond span branches)

/-- Statements in which declarations are looked for, and what stands around them, from the inside
out. -/
inductive Reached (file : List Stmt) : List Enclosure → List Stmt → Prop
  | file : Reached file [] file
  | space {way : List Enclosure} {outer inner : List Stmt} (h : Reached file way outer)
      {span : Span} {name : Option String} {braced : Bool}
      (hspace : Stmt.space span name braced inner ∈ outer) :
      Reached file (.space ⟨span, name, braced, inner⟩ :: way) inner
  | block {way : List Enclosure} {outer : List Stmt} (h : Reached file way outer)
      {body : Body Stmt} (hblock : Stmt.block body ∈ outer) :
      Reached file (.block :: way) body.statements
  | branch {way : List Enclosure} {outer : List Stmt} (h : Reached file way outer) {span : Span}
      {branches : List (Branch Expr Stmt)} (hcond : Stmt.cond span branches ∈ outer)
      {b : Branch Expr Stmt} (hb : b ∈ branches) :
      Reached file (.branch :: way) b.body.statements

/-! ### Calls that define a constant -/

/-- A name is another one without the separators in front of it. -/
def Name.Bare (text name : String) : Prop :=
  (∃ n, text.toList = List.replicate n separator ++ name.toList) ∧
    name.toList.head? ≠ some separator

/-- An argument passes an expression, under the name of a parameter or not. -/
inductive Slot.Passes {ε : Type} : Slot ε → ε → Prop
  | value (e : ε) : Passes (.value e) e
  | pair (key e : ε) : Passes (.pair key e) e
  | spread (e : ε) : Passes (.spread e) e
  | named (parameter : String) (e : ε) : Passes (.named parameter e) e

/-- A call `define('NAME', value, …)` of the function by its name, in any case and with separators
in front of it or not.  The constant is named by a literal, whose own separators do not count and
which is not empty without them. -/
inductive Expr.Defines : Expr → String → Expr → Prop
  | call {span literal : Span} {r : NameRef} {first second : Slot Expr} {rest : List (Slot Expr)}
      {called text name : String} {value : Expr} (hcalled : Name.Bare r.text called)
      (hdefine : fold called = "define") (hfirst : first.Passes (.literal literal (.string text)))
      (hname : Name.Bare text name) (hnonempty : name ≠ "") (hsecond : second.Passes value) :
      Defines (.call span (.function (.name r)) (first :: second :: rest)) name value

theorem Name.bare_iff {text name : String} :
    Bare text name ↔ String.ofList (Text.dropLeading separator text.toList) = name := by
  rw [Text.dropLeading]
  constructor
  · rintro ⟨⟨n, htext⟩, hhead⟩
    have hname : name.toList.dropWhile (· == separator) = name.toList := by
      cases hchars : name.toList with
      | nil => rfl
      | cons c rest =>
        have hc : (c == separator) = false := by
          refine beq_eq_false_iff_ne.2 fun heq => hhead ?_
          rw [hchars, List.head?_cons, heq]
        rw [List.dropWhile_cons, hc, if_neg Bool.false_ne_true]
    rw [htext, List.dropWhile_append_of_pos (by simp), hname, String.ofList_toList]
  · rintro rfl
    rw [Bare, String.toList_ofList]
    refine ⟨⟨(text.toList.takeWhile (· == separator)).length, ?_⟩, fun hhead => ?_⟩
    · have hfront : text.toList.takeWhile (· == separator) =
          List.replicate (text.toList.takeWhile (· == separator)).length separator :=
        List.eq_replicate_of_mem fun c hc =>
          beq_iff_eq.1 (List.all_eq_true.1 List.all_takeWhile c hc)
      rw [← hfront, List.takeWhile_append_dropWhile]
    · have hnot := List.head?_dropWhile_not (· == separator) text.toList
      rw [hhead] at hnot
      simp at hnot

theorem Slot.value?_eq_some_iff {ε : Type} {slot : Slot ε} {e : ε} :
    slot.value? = some e ↔ slot.Passes e := by
  constructor
  · intro h
    cases slot <;> cases h <;> constructor
  · rintro (_ | _ | _ | _) <;> rfl

/-- The calls that are found are those that define a constant. -/
theorem definition?_eq_some_iff {e value : Expr} {name : String} :
    definition? e = some (name, value) ↔ e.Defines name value := by
  constructor
  · intro h
    unfold definition? at h
    split at h
    · rename_i r first second rest
      split at h
      · rename_i hdefine
        split at h
        · rename_i literal text passed hfirst hsecond
          dsimp only at h
          split at h
          · cases h
          · rename_i hname
            cases h
            refine .call (Name.bare_iff.2 rfl) (foldEq_iff.1 hdefine)
              (Slot.value?_eq_some_iff.1 hfirst) (Name.bare_iff.2 rfl) (fun hempty => hname ?_)
              (Slot.value?_eq_some_iff.1 hsecond)
            rw [List.isEmpty_iff, ← String.ofList_eq_empty_iff]
            exact hempty
        · cases h
      · cases h
    · cases h
  · rintro ⟨hcalled, hdefine, hfirst, hname, hnonempty, hsecond⟩
    have hfold : foldEq (String.ofList (Text.dropLeading Name.separator _)) "define" = true :=
      foldEq_iff.2 ((congrArg fold (Name.bare_iff.1 hcalled)).trans hdefine)
    obtain rfl := Name.bare_iff.1 hname
    have hname : ¬(Text.dropLeading Name.separator _).isEmpty = true := fun hempty =>
      hnonempty (congrArg String.ofList (List.isEmpty_iff.1 hempty))
    rw [definition?, if_pos hfold, Slot.value?_eq_some_iff.2 hfirst,
      Slot.value?_eq_some_iff.2 hsecond]
    exact if_neg hname

/-! ### Declarations -/

/-- A statement declares something by itself.  One that declares several constants counts them. -/
inductive Stmt.Declares : Stmt → Nat → Declaration → Prop
  | function (d : FunctionDecl Expr Stmt) : Declares (.function d) 0 (.function d)
  | constant (span : Span) {items : List (Item Expr)} {j : Nat} {item : Item Expr}
      (hitem : items[j]? = some item) :
      Declares (.constants span items) j (.constant span.start item)
  | defined (span : Span) {e value : Expr} {name : String} (h : e.Defines name value) :
      Declares (.expression span e) 0 (.defined span.start e.span.start name value)
  | classlike (d : ClassDecl Expr Stmt) : Declares (.classlike d) 0 (.classlike d)

/-- Whether declarations are looked for in the statements of a statement. -/
def Stmt.isEntered : Stmt → Bool
  | .space .. | .block _ | .cond .. => true
  | _ => false

/-- A declaration in a file, and what stands around it. -/
def Placed (file : List Stmt) (way : List Enclosure) (d : Declaration) : Prop :=
  ∃ ss, Reached file way ss ∧ ∃ s ∈ ss, ∃ j, s.Declares j d

section Declarations

variable {file : List Stmt} {way : List Enclosure} {d : Declaration}

theorem mem_declarations {ss : List Stmt} :
    d ∈ declarations ss ↔ ∃ s ∈ ss, d ∈ declarationsOf s := by
  induction ss with
  | nil => simp [declarations]
  | cons s rest ih =>
    rw [declarations, List.mem_append, ih]
    simp

theorem mem_branchDeclarations {branches : List (Branch Expr Stmt)} :
    d ∈ branchDeclarations branches ↔ ∃ b ∈ branches, d ∈ declarations b.body.statements := by
  induction branches with
  | nil => simp [branchDeclarations]
  | cons b rest ih =>
    rw [branchDeclarations, List.mem_append, ih]
    simp

/-- A statement that is not entered lists what it declares by itself. -/
theorem Stmt.declares_iff {s : Stmt} (hs : s.isEntered = false) {j : Nat} :
    s.Declares j d ↔ (declarationsOf s)[j]? = some d := by
  cases s with
  | function decl | classlike decl =>
    rw [declarationsOf, List.getElem?_singleton]
    constructor
    · rintro ⟨⟩
      rfl
    · intro h
      split at h
      · rename_i hj
        cases hj
        cases h
        constructor
      · cases h
  | constants span items =>
    rw [declarationsOf, List.getElem?_map, Option.map_eq_some_iff]
    constructor
    · rintro ⟨⟩
      exact ⟨_, ‹_›, rfl⟩
    · rintro ⟨item, hitem, rfl⟩
      exact .constant span hitem
  | expression span e =>
    rw [declarationsOf]
    constructor
    · rintro ⟨⟩
      rename_i hdefines
      rw [definition?_eq_some_iff.2 hdefines]
      rfl
    · intro h
      split at h
      · rename_i name value hdefinition
        rw [List.getElem?_singleton] at h
        split at h
        · rename_i hj
          cases hj
          cases h
          exact .defined span (definition?_eq_some_iff.1 hdefinition)
        · cases h
      · cases h
  | space | block | cond => cases hs
  | _ =>
    rw [declarationsOf]
    · exact ⟨nofun, nofun⟩
    all_goals simp

theorem Stmt.Declares.isEntered_eq_false {s : Stmt} {j : Nat} (h : s.Declares j d) :
    s.isEntered = false := by
  cases h <;> rfl

theorem Stmt.Declares.mem_declarationsOf {s : Stmt} {j : Nat} (h : s.Declares j d) :
    d ∈ declarationsOf s :=
  List.mem_of_getElem? ((Stmt.declares_iff h.isEntered_eq_false).1 h)

/-- All declarations of reached statements are declarations of the file. -/
theorem Reached.mem_declarations {ss : List Stmt} (h : Reached file way ss)
    (hd : d ∈ declarations ss) : d ∈ declarations file := by
  induction h with
  | file => exact hd
  | space _ hspace ih => exact ih (PhpAtlas.mem_declarations.2 ⟨_, hspace, hd⟩)
  | block _ hblock ih => exact ih (PhpAtlas.mem_declarations.2 ⟨_, hblock, hd⟩)
  | branch _ hcond hb ih =>
    have hbranch := mem_branchDeclarations.2 ⟨_, hb, hd⟩
    exact ih (PhpAtlas.mem_declarations.2 ⟨_, hcond, hbranch⟩)

mutual

-- The recursion is that of the search.  `all` are the reached statements and `ss` those that are
-- still to be searched, since only all of them stand in `Reached`.

/-- A declaration that is found in some of the reached statements is placed. -/
theorem placed_of_mem_declarations {way : List Enclosure} {all : List Stmt}
    (h : Reached file way all) (ss : List Stmt) (hss : ∀ s ∈ ss, s ∈ all)
    (hd : d ∈ declarations ss) : ∃ way, Placed file way d := by
  match ss with
  | [] => cases hd
  | s :: rest =>
    rw [declarations, List.mem_append] at hd
    rcases hd with hd | hd
    · exact placed_of_mem_declarationsOf h s (hss s List.mem_cons_self) hd
    · exact placed_of_mem_declarations h rest (fun s hs => hss s (List.mem_cons_of_mem _ hs)) hd
termination_by structural ss

theorem placed_of_mem_declarationsOf {way : List Enclosure} {all : List Stmt}
    (h : Reached file way all) (s : Stmt) (hs : s ∈ all) (hd : d ∈ declarationsOf s) :
    ∃ way, Placed file way d := by
  match s with
  | .space _ _ _ inner => exact placed_of_mem_declarations (.space h hs) inner (fun _ h => h) hd
  | .block ⟨_, inner⟩ => exact placed_of_mem_declarations (.block h hs) inner (fun _ h => h) hd
  | .cond _ branches => exact placed_of_mem_branches h hs branches (fun _ h => h) hd
  | .function _ | .constants _ _ | .expression _ _ | .classlike _ =>
    obtain ⟨j, hj⟩ := List.mem_iff_getElem?.1 hd
    exact ⟨way, all, h, _, hs, j, (Stmt.declares_iff rfl).2 hj⟩
  | .openTag _ | .closeTag _ | .html _ | .echoTag _ _ | .empty _ | .ret _ _ | .echo _ _
  | .whileLoop _ _ _ | .doLoop _ _ _ | .forLoop _ _ _ _ _ | .eachLoop _ _ _ _ _ | .switch _ _ _
  | .tryCatch _ _ _ _ _ | .use _ _ | .statics _ _ | .global _ _ | .unset _ _ | .declare _ _
  | .label _ | .goto _ | .jump _ _ => cases hd
termination_by structural s

theorem placed_of_mem_branches {way : List Enclosure} {all : List Stmt}
    (h : Reached file way all) {span : Span} {every : List (Branch Expr Stmt)}
    (hcond : Stmt.cond span every ∈ all) (branches : List (Branch Expr Stmt))
    (hbranches : ∀ b ∈ branches, b ∈ every)
    (hd : d ∈ branchDeclarations branches) : ∃ way, Placed file way d := by
  match branches with
  | [] => cases hd
  | ⟨condition, ⟨bodySpan, inner⟩⟩ :: rest =>
    rw [branchDeclarations, List.mem_append] at hd
    rcases hd with hd | hd
    · have hb := hbranches ⟨condition, ⟨bodySpan, inner⟩⟩ List.mem_cons_self
      exact placed_of_mem_declarations (.branch h hcond hb) inner (fun _ h => h) hd
    · exact placed_of_mem_branches h hcond rest
        (fun b hb => hbranches b (List.mem_cons_of_mem _ hb)) hd
termination_by structural branches

end

/-- The declarations of a file are those that are placed in it. -/
theorem mem_declarations_iff : d ∈ declarations file ↔ ∃ way, Placed file way d := by
  constructor
  · intro hd
    exact placed_of_mem_declarations .file file (fun _ h => h) hd
  · rintro ⟨way, ss, hss, s, hs, j, hd⟩
    exact hss.mem_declarations (mem_declarations.2 ⟨s, hs, hd.mem_declarationsOf⟩)

end Declarations

/-! ### What reached statements have from the file -/

namespace Reached

variable {file ss : List Stmt} {way : List Enclosure}

/-- What holds throughout the statements of a file holds throughout all that are reached. -/
theorem throughout {P : Node → Prop} (hfile : ∀ s ∈ file, Throughout P (.stmt s))
    (h : Reached file way ss) : ∀ s ∈ ss, Throughout P (.stmt s) := by
  induction h with
  | file => exact hfile
  | space _ hspace ih => exact fun s hs => (ih _ hspace).part (List.mem_map_of_mem hs)
  | block _ hblock ih => exact fun s hs => (ih _ hblock).part (List.mem_map_of_mem hs)
  | branch _ hcond hb ih =>
    exact fun s hs => ((ih _ hcond).part (Node.branch_mem hb)).part (List.mem_map_of_mem hs)

theorem nested (hfile : NestedStmts file) (h : Reached file way ss) : NestedStmts ss := by
  have hnested := h.throughout hfile.nested
  refine ⟨?_, hnested⟩
  -- only the innermost enclosure says in which order the statements stand
  cases h with
  | file => exact hfile.ordered
  | space houter hspace =>
    exact (Nested.statements (houter.throughout hfile.nested _ hspace) [] rfl).ordered
  | block houter hblock =>
    exact (Nested.statements (houter.throughout hfile.nested _ hblock) [] rfl).ordered
  | branch houter hcond hb =>
    have hbody := (houter.throughout hfile.nested _ hcond).part (Node.branch_mem hb)
    exact (Nested.statements hbody [] rfl).ordered

/-- Around enclosed statements stands the statement of the enclosure, which is reached, too. -/
theorem parent (hfile : NestedStmts file) {e : Enclosure} (h : Reached file (e :: way) ss) :
    ∃ outer, Reached file way outer ∧ ∃ t ∈ outer, e.MadeBy t ∧ ∀ s ∈ ss, t.span.Covers s.span := by
  cases h with
  | space houter hspace =>
    have hnested := (houter.nested hfile).nested _ hspace
    exact ⟨_, houter, _, hspace, .space .., fun s hs => hnested.inside (List.mem_map_of_mem hs)⟩
  | block houter hblock =>
    have hnested := (houter.nested hfile).nested _ hblock
    exact ⟨_, houter, _, hblock, .block _, fun s hs => hnested.inside (List.mem_map_of_mem hs)⟩
  | branch houter hcond hb =>
    have hnested := (houter.nested hfile).nested _ hcond
    have hbody := hnested.inside (Node.branch_mem hb)
    refine ⟨_, houter, _, hcond, .branch .., fun s hs => hbody.trans ?_⟩
    exact (hnested.part (Node.branch_mem hb)).inside (List.mem_map_of_mem hs)

/-- A reached statement lies in a statement of the file. -/
theorem exists_top (hfile : NestedStmts file) (h : Reached file way ss) {s : Stmt} (hs : s ∈ ss) :
    ∃ t ∈ file, t.span.Covers s.span := by
  -- along the way, since each enclosure gives the statement that stands around the next one
  induction way generalizing ss s with
  | nil =>
    cases h
    exact ⟨s, hs, Span.covers_refl⟩
  | cons e way ih =>
    obtain ⟨outer, houter, t, ht, -, hcovers⟩ := h.parent hfile
    obtain ⟨u, hu, hcovers'⟩ := ih houter ht
    exact ⟨u, hu, hcovers'.trans (hcovers s hs)⟩

/-- A reached statement lies in each of the namespaces around it. -/
theorem space_covers (hfile : NestedStmts file) (h : Reached file way ss) {node : NamespaceNode}
    (hnode : .space node ∈ way) {s : Stmt} (hs : s ∈ ss) : node.span.Covers s.span := by
  induction way generalizing ss s with
  | nil => cases hnode
  | cons e way ih =>
    obtain ⟨outer, houter, t, ht, hmade, hcovers⟩ := h.parent hfile
    rcases List.mem_cons.1 hnode with rfl | hnode
    · cases hmade
      exact hcovers s hs
    · exact (ih houter hnode ht).trans (hcovers s hs)

end Reached

end PhpAtlas
