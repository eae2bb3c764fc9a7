import PhpAtlas.Proofs.Doc.Nesting

/-!
# Reading one operator

What the outermost operator of a text says about the text, and which operator a text has that is put
together from an operator and its operands.

## Main definitions

* `Text.Sealed` — no bar and no ampersand is outside of brackets.
* `Text.isPlain` — there are no brackets and no operators.
* `TypeForm.Describes` — what a form says of the text that has it.
* `DocType.IsLeaf` — a type that is written as one atom and read back from it.

## Main results

* `TypeForm.describes_of` — the form of a text describes it.
* `DocType.parse_eq` — reading follows the form.
* `DocType.isLeaf_ofAtom` — what is read from an atom is read back.
* `DocType.parse_nullable`, `DocType.parse_array`, `DocType.parse_bracket`, `DocType.parse_join` —
  reading what is put together.
-/

namespace PhpAtlas

open Text

/-- No bar and no ampersand is outside of brackets, when the text starts at the given depth. -/
def Text.Sealed (depth : Int) (t : Text) : Prop :=
  exposed '|' depth t = false ∧ exposed '&' depth t = false

/-- The brackets and operators. -/
def operatorChars : List Char :=
  ['<', '>', '(', ')', '[', ']', '\x7b', '\x7d', '|', '&', '?', ',']

/-- There are no brackets and no operators. -/
def Text.isPlain (t : Text) : Bool := t.all fun c => !operatorChars.contains c

namespace Text

theorem ne_of_isPlain {t : Text} (h : t.isPlain = true) {c d : Char} (hc : c ∈ t)
    (hd : d ∈ operatorChars) : c ≠ d := by
  rintro rfl
  have hplain := List.all_eq_true.1 h c hc
  rw [List.contains_iff_mem.2 hd] at hplain
  cases hplain

theorem not_mem_of_isPlain {t : Text} (h : t.isPlain = true) {d : Char} (hd : d ∈ operatorChars) :
    d ∉ t :=
  fun hmem => ne_of_isPlain h hmem hd rfl

theorem net_of_isPlain {t : Text} (h : t.isPlain = true) : net t = 0 := by
  refine net_of_forall fun c hc => ?_
  have hne : ∀ d ∈ operatorChars, c ≠ d := fun d hd => ne_of_isPlain h hc hd
  simp [nesting, hne '<' (by decide), hne '>' (by decide), hne '(' (by decide), hne ')' (by decide),
    hne '[' (by decide), hne ']' (by decide), hne '\x7b' (by decide), hne '\x7d' (by decide)]

/-- Characters of a class without brackets and operators make a plain text. -/
theorem isPlain_of_forall {p : Char → Bool} (hp : (operatorChars.all fun d => !p d) = true)
    {t : Text} (h : ∀ c ∈ t, p c = true) : t.isPlain = true := by
  rw [isPlain, List.all_eq_true]
  intro c hc
  rw [Bool.not_eq_true', ← Bool.not_eq_true, List.contains_iff_mem]
  intro hmem
  have hnot := List.all_eq_true.1 hp c hmem
  rw [h c hc] at hnot
  cases hnot

end Text

/-! ### Round brackets -/

theorem exists_of_closesAtEnd {depth : Nat} {t : Text} (h : closesAtEnd depth t = true) :
    ∃ inner, t = inner ++ [')'] := by
  induction t generalizing depth with
  | nil => simp [closesAtEnd] at h
  | cons c t ih =>
    rw [closesAtEnd] at h
    split at h
    · obtain ⟨inner, rfl⟩ := ih h
      exact ⟨c :: inner, rfl⟩
    · split at h
      · rename_i hclose
        split at h
        · obtain rfl := List.isEmpty_iff.1 h
          rw [beq_iff_eq] at hclose
          exact ⟨[], by rw [hclose]; rfl⟩
        · obtain ⟨inner, rfl⟩ := ih h
          exact ⟨c :: inner, rfl⟩
      · obtain ⟨inner, rfl⟩ := ih h
        exact ⟨c :: inner, rfl⟩

namespace TypeForm

/-! ### What a form says -/

/-- What a form says of the text that has it. -/
def Describes : TypeForm → Text → Prop
  | .blank, t => t = []
  | .union parts, t => exposed '|' 0 t = true ∧ parts = outerParts '|' t
  | .intersection first, t =>
      exposed '|' 0 t = false ∧ ∃ w rest, t = w ++ '&' :: rest ∧ first = trim w
  | .nullable rest, t => Sealed 0 t ∧ t = '?' :: rest
  | .array base, t => Sealed 0 t ∧ t.head? ≠ some '?' ∧ t = base ++ ['[', ']']
  | .group inner, t => Sealed 0 t ∧ t = bracket inner
  | .generic base arguments, t =>
      Sealed 0 t ∧ ∃ inner, t = base ++ '<' :: inner ++ ['>'] ∧ arguments = outerParts ',' inner
  | .shape base, t => Sealed 0 t ∧ ∃ rest, t = base ++ '\x7b' :: rest
  | .atom, t => Sealed 0 t ∧ t.head? ≠ some '?' ∧ '\x7b' ∉ t

theorem describes_group {t inner : Text} (h : group? t = some inner) : t = bracket inner := by
  unfold group? at h
  split at h
  · rename_i rest
    split at h
    · rename_i hcloses
      obtain rfl := Option.some.inj h
      obtain ⟨front, hfront⟩ := exists_of_closesAtEnd hcloses
      cases front with
      | nil => cases hfront
      | cons c front =>
        obtain ⟨rfl, rfl⟩ := List.cons.inj hfront
        exact congrArg bracket List.dropLast_concat.symm
    · cases h
  · cases h

theorem describes_generic {t base : Text} {arguments : List Text}
    (h : generic? t = some (base, arguments)) :
    ∃ inner, t = base ++ '<' :: inner ++ ['>'] ∧ arguments = outerParts ',' inner := by
  unfold generic? at h
  split at h
  · rename_i base' rest front hsplit hend
    obtain ⟨rfl, rfl⟩ := Prod.mk.inj (Option.some.inj h)
    obtain ⟨c, hc, -, rfl⟩ := splitOnce?_eq_some_iff.1 hsplit
    obtain rfl := beq_iff_eq.1 hc
    have hend := stripEnd?_eq_some_iff.1 hend
    rcases List.eq_nil_or_concat rest with rfl | ⟨inner, d, hconcat⟩
    · -- the last character would be the one that opens
      obtain ⟨-, hlast⟩ := List.append_inj' hend rfl
      simp at hlast
    · rw [List.concat_eq_append] at hconcat
      subst hconcat
      rw [← List.cons_append, ← List.append_assoc] at hend
      obtain ⟨-, hlast⟩ := List.append_inj' hend rfl
      rw [hlast, List.dropLast_concat]
      exact ⟨inner, by simp, rfl⟩
  · cases h

theorem describes_ofOperand {t : Text} (h : Sealed 0 t) : (ofOperand t).Describes t := by
  unfold ofOperand
  split
  · rename_i rest hstrip
    exact ⟨h, stripStart?_eq_some_iff.1 hstrip⟩
  · rename_i hquery
    have hhead : t.head? ≠ some '?' := by
      intro hhead
      cases t with
      | nil => cases hhead
      | cons c t =>
        obtain rfl := Option.some.inj hhead
        exact stripStart?_eq_none_iff.1 hquery t rfl
    split
    · rename_i base hstrip
      exact ⟨h, hhead, stripEnd?_eq_some_iff.1 hstrip⟩
    split
    · rename_i inner hgroup
      exact ⟨h, describes_group hgroup⟩
    split
    · rename_i base arguments hgeneric
      exact ⟨h, describes_generic hgeneric⟩
    split
    · rename_i base rest hsplit
      obtain ⟨c, hc, -, rfl⟩ := splitOnce?_eq_some_iff.1 hsplit
      obtain rfl := beq_iff_eq.1 hc
      exact ⟨h, rest, rfl⟩
    · rename_i hshape
      refine ⟨h, hhead, fun hmem => ?_⟩
      have := splitOnce?_eq_none_iff.1 hshape _ hmem
      simp at this

theorem group?_eq_none {t : Text} (h : t.head? ≠ some '(') : group? t = none := by
  unfold group?
  split
  · exact absurd rfl h
  · rfl

theorem of_eq_ofOperand {t : Text} (hne : t ≠ []) (h : Sealed 0 t) : of t = ofOperand t := by
  rw [of, if_neg (by simpa using hne), outerParts_of_not_exposed h.1, outerParts_of_not_exposed h.2]

/-- A text without brackets and operators is an atom. -/
theorem of_of_isPlain {t : Text} (hne : t ≠ []) (h : t.isPlain = true) : of t = .atom := by
  have hhead : ∀ d : Char, d ∈ operatorChars → t.head? ≠ some d :=
    fun d hd hhead => not_mem_of_isPlain h hd (List.mem_of_head? hhead)
  have hlast : ∀ d : Char, d ∈ operatorChars → t.getLast? ≠ some d :=
    fun d hd hlast => not_mem_of_isPlain h hd (List.mem_of_getLast? hlast)
  have hsplit : ∀ d : Char, d ∈ operatorChars → splitOnce? (· == d) t = none := by
    intro d hd
    rw [splitOnce?_eq_none_iff]
    exact fun c hc => beq_eq_false_iff_ne.2 (ne_of_isPlain h hc hd)
  have hsealed : Sealed 0 t :=
    ⟨exposed_of_not_mem (not_mem_of_isPlain h (by decide)) 0,
      exposed_of_not_mem (not_mem_of_isPlain h (by decide)) 0⟩
  have hgeneric : generic? t = none := by
    rw [generic?, hsplit '<' (by decide)]
  rw [of_eq_ofOperand hne hsealed, ofOperand,
    stripStart?_eq_none_of_head? (by decide) (hhead '?' (by decide)),
    stripEnd?_eq_none_of_getLast? (by decide) (hlast ']' (by decide)),
    group?_eq_none (hhead '(' (by decide)), hgeneric, hsplit '\x7b' (by decide)]

/-- The form of a text describes it. -/
theorem describes_of (t : Text) : (of t).Describes t := by
  by_cases hne : t = []
  · subst hne
    rfl
  by_cases hbar : exposed '|' 0 t = true
  · obtain ⟨w, rest, q, ps, -, hparts⟩ := exists_outerParts_of_exposed hbar
    rw [of, if_neg (by simpa using hne), hparts]
    exact ⟨hbar, hparts.symm⟩
  rw [Bool.not_eq_true] at hbar
  by_cases hand : exposed '&' 0 t = true
  · obtain ⟨w, rest, q, ps, ht, hparts⟩ := exists_outerParts_of_exposed hand
    rw [of, if_neg (by simpa using hne), outerParts_of_not_exposed hbar, hparts]
    exact ⟨hbar, w, rest, ht, rfl⟩
  rw [Bool.not_eq_true] at hand
  rw [of_eq_ofOperand hne ⟨hbar, hand⟩]
  exact describes_ofOperand ⟨hbar, hand⟩

end TypeForm

namespace DocType

/-! ### Reading by form -/

/-- The type of a text of a known form. -/
def readForm (t : Text) : TypeForm → DocType
  | .blank => .special "mixed"
  | .union parts => .union (parts.flatMap fun p => alternatives (parse p))
  | .intersection first => parse first
  | .nullable rest => .nullable (parse rest)
  | .array base => .array (parse base)
  | .group inner => parse inner
  | .generic base arguments =>
      match elementsOf base arguments with
      | .list element => .array (parse element)
      | .values value => .iterable (parse base) (parse value)
      | .unknown => parse base
  | .shape base => parse base
  | .atom => ofAtom t

theorem parse_eq (t : Text) : parse t = readForm (trim t) (TypeForm.of (trim t)) := by
  rw [parse]
  split <;> rename_i heq <;> simp only [heq, readForm]
  · rename_i parts
    have hparts :=
      List.flatMap_map Subtype.val (fun p => alternatives (parse p)) (l := parts.attach)
    rw [List.attach_map_subtype_val] at hparts
    rw [hparts]
  · split <;> rename_i helements <;> rw [helements]

theorem parse_of_tight {t : Text} (h : Tight t) : parse t = readForm t (TypeForm.of t) := by
  rw [parse_eq, h.trim_eq]

/-! ### Atoms -/

/-- A type that is written as one atom and read back from it. -/
structure IsLeaf (t : DocType) : Prop where
  tight : Tight t.print
  atom : TypeForm.of t.print = .atom
  read : ofAtom t.print = t

theorem IsLeaf.parse_print {t : DocType} (h : IsLeaf t) : parse t.print = t := by
  rw [parse_of_tight h.tight, h.atom]
  exact h.read

theorem IsLeaf.ne_nil {t : DocType} (h : IsLeaf t) : t.print ≠ [] := by
  intro hnil
  have hatom := h.atom
  rw [hnil] at hatom
  cases hatom

theorem isLeaf_keyword {k : String} (h : k ∈ scalarWords.map (·.2)) : IsLeaf (.keyword k) := by
  have hwords : ∀ k ∈ scalarWords.map (·.2), k.toList ≠ [] ∧ isPlain k.toList = true ∧
      trim k.toList = k.toList ∧
      scalarWords.find? (·.1 == String.ofList (Text.fold k.toList)) = some (k, k) := by decide
  obtain ⟨hne, hplain, htrim, hfind⟩ := hwords k h
  refine ⟨?_, TypeForm.of_of_isPlain hne hplain, ?_⟩
  · rw [print, ← htrim]
    exact tight_trim _
  · rw [print, ofAtom, hfind]

theorem isLeaf_special {w : String} (h : w ∈ specialWords) : IsLeaf (.special w) := by
  have hwords : ∀ w ∈ specialWords, w.toList ≠ [] ∧ isPlain w.toList = true ∧
      trim w.toList = w.toList ∧ String.ofList (Text.fold w.toList) = w ∧
      scalarWords.find? (·.1 == w) = none := by decide
  obtain ⟨hne, hplain, htrim, hfold, hfind⟩ := hwords w h
  refine ⟨?_, TypeForm.of_of_isPlain hne hplain, ?_⟩
  · rw [print, ← htrim]
    exact tight_trim _
  · rw [print, ofAtom, hfold, hfind, List.contains_eq_mem, decide_eq_true h]
    rfl

/-- The type of a text that is no known word. -/
def asWritten (t : Text) : DocType :=
  if isClassName t then .named (String.ofList t) else .keyword (String.ofList t)

@[simp] theorem print_asWritten (t : Text) : (asWritten t).print = t := by
  unfold asWritten
  split <;> exact String.toList_ofList

@[simp] theorem isOperand_asWritten (t : Text) : (asWritten t).isOperand = false := by
  unfold asWritten
  split <;> rfl

/-- What is read from an atom: a known word in its canonical spelling, or the text as it is. -/
theorem ofAtom_cases (t : Text) :
    (∃ p ∈ scalarWords, p.1 = String.ofList (Text.fold t) ∧ ofAtom t = .keyword p.2) ∨
    (∃ w ∈ specialWords, w = String.ofList (Text.fold t) ∧ ofAtom t = .special w) ∨
    ofAtom t = asWritten t := by
  cases hfind : scalarWords.find? (·.1 == String.ofList (Text.fold t)) with
  | some p =>
    have hp := List.find?_some hfind
    exact .inl ⟨p, List.mem_of_find?_eq_some hfind, beq_iff_eq.1 hp, by rw [ofAtom, hfind]⟩
  | none =>
    by_cases hspecial : specialWords.contains (String.ofList (Text.fold t)) = true
    · refine .inr (.inl ⟨_, List.contains_iff_mem.1 hspecial, rfl, ?_⟩)
      rw [ofAtom, hfind]
      exact if_pos hspecial
    · refine .inr (.inr ?_)
      rw [ofAtom, hfind]
      exact if_neg hspecial

theorem ofAtom_of_not_word {t : Text}
    (hscalar : ∀ p ∈ scalarWords, p.1 ≠ String.ofList (Text.fold t))
    (hspecial : String.ofList (Text.fold t) ∉ specialWords) : ofAtom t = asWritten t := by
  rcases ofAtom_cases t with ⟨p, hp, heq, -⟩ | ⟨w, hw, rfl, -⟩ | h
  · exact absurd heq (hscalar p hp)
  · exact absurd hw hspecial
  · exact h

theorem isOperand_ofAtom (t : Text) : (ofAtom t).isOperand = false := by
  rcases ofAtom_cases t with ⟨p, -, -, h⟩ | ⟨w, -, -, h⟩ | h
  · rw [h]
    rfl
  · rw [h]
    rfl
  · rw [h, isOperand_asWritten]

/-- What is read from an atom is read back. -/
theorem isLeaf_ofAtom {t : Text} (htight : Tight t) (h : TypeForm.of t = .atom) :
    IsLeaf (ofAtom t) := by
  rcases ofAtom_cases t with ⟨p, hp, -, hatom⟩ | ⟨w, hw, -, hatom⟩ | hatom
  · rw [hatom]
    exact isLeaf_keyword (List.mem_map_of_mem hp)
  · rw [hatom]
    exact isLeaf_special hw
  · have hprint : (ofAtom t).print = t := by rw [hatom, print_asWritten]
    exact ⟨by rwa [hprint], by rwa [hprint], by rw [hprint]⟩

/-! ### Reading what is put together -/

/-- A question mark in front of a text makes it nullable. -/
theorem parse_nullable {t : Text} (htight : Tight t) (h : Sealed 0 t) :
    parse ('?' :: t) = .nullable (parse t) := by
  have hsealed : Sealed 0 ('?' :: t) :=
    ⟨(exposed_cons_of_ne (by decide) 0 t).trans h.1, (exposed_cons_of_ne (by decide) 0 t).trans h.2⟩
  rw [parse_of_tight (tight_cons (by decide) htight),
    TypeForm.of_eq_ofOperand (List.cons_ne_nil _ _) hsealed]
  rfl

theorem head?_append_brackets {t : Text} (h : t.head? ≠ some '?') :
    (t ++ ['[', ']']).head? ≠ some '?' := by
  cases t with
  | nil => decide
  | cons c t => exact h

/-- Square brackets behind a text make it a list. -/
theorem parse_array {t : Text} (htight : Tight t) (h : Sealed 0 t) (hhead : t.head? ≠ some '?') :
    parse (t ++ ['[', ']']) = .array (parse t) := by
  have hsealed : Sealed 0 (t ++ ['[', ']']) := by
    constructor
    · rw [exposed_append, h.1, exposed_of_not_mem (by decide)]
      rfl
    · rw [exposed_append, h.2, exposed_of_not_mem (by decide)]
      rfl
  have hquery : stripStart? ['?'] (t ++ ['[', ']']) = none :=
    stripStart?_eq_none_of_head? (by decide) (head?_append_brackets hhead)
  have hend : stripEnd? ['[', ']'] (t ++ ['[', ']']) = some t := stripEnd?_eq_some_iff.2 rfl
  have hfull : Tight (t ++ ['[', ']']) :=
    tight_append_cons htight (by decide) (tight_of_ends rfl rfl (by decide) (by decide))
  rw [parse_of_tight hfull,
    TypeForm.of_eq_ofOperand (by simp) hsealed, TypeForm.ofOperand, hquery, hend]
  rfl

/-- A text that starts with a round bracket is no word and no name. -/
theorem ofAtom_of_bracket (t : Text) : ofAtom ('(' :: t) = .keyword (String.ofList ('(' :: t)) := by
  have hne : ∀ w : String, w.toList.head? ≠ some '(' →
      w ≠ String.ofList (Text.fold ('(' :: t)) := by
    rintro w hw rfl
    exact hw (by rw [String.toList_ofList]; rfl)
  have hscalar : ∀ p ∈ scalarWords, p.1.toList.head? ≠ some '(' := by decide
  have hspecial : ∀ w ∈ specialWords, w.toList.head? ≠ some '(' := by decide
  have hclass : isClassName ('(' :: t) = false := by
    obtain ⟨w, ws, hsplit⟩ := splitAll_cons_of_not (p := (· == '\\')) (c := '(') (by decide) t
    have hstrip : stripStart? ['\\'] ('(' :: t) = none := rfl
    rw [isClassName, hstrip, Option.getD_none, hsplit]
    rfl
  rw [ofAtom_of_not_word (fun p hp => hne p.1 (hscalar p hp))
    (fun hmem => hne _ (hspecial _ hmem) rfl), asWritten, hclass]
  rfl

/-- Round brackets around a text are left out if the first one is closed by the last.  Else they are
part of a text that makes no sense. -/
theorem parse_bracket {t : Text} (h : Sealed 1 t) (hbrace : '\x7b' ∉ t) :
    parse (bracket t) =
      if closesAtEnd 1 (t ++ [')']) then parse t else .keyword (String.ofList (bracket t)) := by
  have hhead : (bracket t).head? = some '(' := rfl
  have hlast : (bracket t).getLast? = some ')' := List.getLast?_concat
  have htight : Tight (bracket t) := tight_of_ends hhead hlast (by decide) (by decide)
  have hsealed : Sealed 0 (bracket t) :=
    ⟨(exposed_bracket (by decide) (by decide) 0 t).trans h.1,
      (exposed_bracket (by decide) (by decide) 0 t).trans h.2⟩
  have hquery : stripStart? ['?'] (bracket t) = none :=
    stripStart?_eq_none_of_head? (by decide) (by rw [hhead]; decide)
  have hend : stripEnd? ['[', ']'] (bracket t) = none :=
    stripEnd?_eq_none_of_getLast? (by decide) (by rw [hlast]; decide)
  have hgroup : TypeForm.group? (bracket t) =
      if closesAtEnd 1 (t ++ [')']) then some t else none := by
    change (if closesAtEnd 1 (t ++ [')']) then some (t ++ [')']).dropLast else none) = _
    rw [List.dropLast_concat]
  have hne : bracket t ≠ [] := List.cons_ne_nil _ _
  rw [parse_of_tight htight, TypeForm.of_eq_ofOperand hne hsealed, TypeForm.ofOperand, hquery, hend,
    hgroup]
  by_cases hcloses : closesAtEnd 1 (t ++ [')']) = true
  · rw [if_pos hcloses, if_pos hcloses]
    rfl
  · have hgeneric : TypeForm.generic? (bracket t) = none := by
      rw [TypeForm.generic?, stripEnd?_eq_none_of_getLast? (by decide) (by rw [hlast]; decide)]
      split
      · rename_i hnone
        cases hnone
      · rfl
    have hshape : splitOnce? (· == '\x7b') (bracket t) = none := by
      rw [splitOnce?_eq_none_iff]
      intro c hc
      rw [beq_eq_false_iff_ne]
      rintro rfl
      simp [bracket, hbrace] at hc
    rw [if_neg hcloses, if_neg hcloses, hgeneric, hshape]
    exact ofAtom_of_bracket _

/-- Bars between texts make a union. -/
theorem parse_join {ws : List Text} (hlength : 2 ≤ ws.length) (htight : ∀ w ∈ ws, Tight w)
    (hnet : ∀ w ∈ ws.dropLast, net w = 0) (h : ∀ w ∈ ws, exposed '|' 0 w = false) :
    parse (join ['|'] ws) = .union (ws.flatMap fun w => alternatives (parse w)) := by
  match ws, hlength with
  | w :: v :: ws, _ =>
    have hparts := outerParts_join (List.cons_ne_nil _ _) htight hnet h
    have hne : join ['|'] (w :: v :: ws) ≠ [] := by
      rw [join_cons_cons]
      simp
    rw [parse_of_tight (tight_join htight), TypeForm.of, if_neg (by simpa using hne), hparts]
    rfl

end DocType
end PhpAtlas
