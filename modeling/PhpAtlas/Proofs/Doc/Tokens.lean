import PhpAtlas.Doc.Comment
import PhpAtlas.Proofs.Doc.RoundTrip
import PhpAtlas.Proofs.Text.Words

/-!
# Types in a line of text

In a tag a type is followed by other words.  It is found again when its text has no blanks: its
brackets are closed at its end and its last character is no bar, so that the blank behind it ends
it.

## Main definitions

* `Tag.marks` — the marks in front of the name of a parameter.
* `DocType.IsToken` — what is common to the texts of types, as a part of a line.
* `DocType.Unbroken` — the types that can be written into a line.

## Main results

* `DocType.WellFormed.isToken` — every well-formed type is written so.
* `DocType.splitToken_append_behind` — the type at the front of a line.
-/

namespace PhpAtlas

open Text

namespace Tag

/-- The marks of a parameter that is passed by reference or takes the remaining arguments. -/
def marks (byRef variadic : Bool) : Text :=
  (if byRef then ['&'] else []) ++ if variadic then ['.', '.', '.'] else []

theorem solid_marks (byRef variadic : Bool) : Solid (marks byRef variadic) := by
  cases byRef <;> cases variadic <;> decide

/-- The text of a type, if there is one. -/
def typeText (type : Option DocType) : Text := (type.map DocType.print).getD []

theorem firstWord_append_behind {w : Text} (hw : Solid w) (d : Text) :
    firstWord (w ++ behind d) = (w, d) := by
  cases d with
  | nil =>
    have hnone : splitOnce? isBlank w = none := splitOnce?_eq_none_iff.2 hw
    simp [behind, firstWord, hnone]
  | cons c d =>
    have hsplit : splitOnce? isBlank (w ++ ' ' :: c :: d) = some (w, c :: d) :=
      splitOnce?_append_cons hw (by decide)
    rw [behind_of_ne_nil (by simp), firstWord, hsplit]
    rfl

end Tag

namespace DocType

/-! ### The texts of types -/

/-- The characters that types are written with. -/
def isTypeChar (c : Char) : Bool := Name.isRest c || "\\-$?|()[]<>".toList.contains c

/-- How much deeper the nesting inside of a tag is behind a text than in front of it. -/
def tagNet (t : Text) : Int := (t.map tagNesting).sum

@[simp] theorem tagNet_nil : tagNet [] = 0 := rfl

@[simp] theorem tagNet_cons (c : Char) (t : Text) :
    tagNet (c :: t) = tagNesting c + tagNet t := by
  simp [tagNet]

@[simp] theorem tagNet_append (a b : Text) : tagNet (a ++ b) = tagNet a + tagNet b := by
  simp [tagNet]

theorem tagNet_of_isPlain {t : Text} (h : t.isPlain = true) : tagNet t = 0 := by
  induction t with
  | nil => rfl
  | cons c t ih =>
    have hne : ∀ d ∈ operatorChars, c ≠ d := fun d hd => ne_of_isPlain h List.mem_cons_self hd
    obtain ⟨-, htail⟩ := Bool.and_eq_true_iff.1 h
    rw [tagNet_cons, ih htail]
    simp [tagNesting, hne '<' (by decide), hne '>' (by decide), hne '(' (by decide),
      hne ')' (by decide), hne '\x7b' (by decide), hne '\x7d' (by decide)]

/-- Behind every opening round bracket stands a closing one. -/
def Closing (t : Text) : Prop := ∀ a b, t = a ++ '(' :: b → ')' ∈ b

theorem closing_of_not_mem {t : Text} (h : '(' ∉ t) : Closing t := by
  rintro a b rfl
  exact absurd (by simp) h

theorem closing_concat (t : Text) : Closing (t ++ [')']) := by
  intro a b h
  have hlast := congrArg List.getLast? h
  rw [List.getLast?_concat, List.getLast?_append_of_ne_nil _ (by simp)] at hlast
  cases b with
  | nil => cases Option.some.inj hlast
  | cons c b => exact List.mem_of_getLast? hlast.symm

theorem Closing.append {u v : Text} (hu : Closing u) (hv : Closing v) : Closing (u ++ v) := by
  intro a b h
  rcases List.append_eq_append_iff.1 h with ⟨c, -, hc⟩ | ⟨c, hc, hb⟩
  · exact hv c b hc
  · cases c with
    | nil => exact hv [] b hb.symm
    | cons e c =>
      obtain ⟨rfl, rfl⟩ := List.cons.inj hb
      exact List.mem_append_left _ (hu a c hc)

/-- What is common to the texts of types, as parts of a line. -/
structure IsToken (t : Text) : Prop where
  ne_nil : t ≠ []
  chars : t.all isTypeChar = true
  level : tagNet t = 0
  last : t.getLast? ≠ some '|'
  closing : Closing t
  opening : ')' ∈ t → '(' ∈ t

theorem IsToken.not_mem {t : Text} (h : IsToken t) {c : Char} (hc : isTypeChar c = false) :
    c ∉ t := by
  intro hmem
  rw [List.all_eq_true.1 h.chars c hmem] at hc
  cases hc

theorem isToken_of_isPlain {t : Text} (hne : t ≠ []) (hchars : t.all isTypeChar = true)
    (hplain : t.isPlain = true) : IsToken t where
  ne_nil := hne
  chars := hchars
  level := tagNet_of_isPlain hplain
  last := fun h => not_mem_of_isPlain hplain (by decide) (List.mem_of_getLast? h)
  closing := closing_of_not_mem (not_mem_of_isPlain hplain (by decide))
  opening h := absurd h (not_mem_of_isPlain hplain (by decide))

theorem IsToken.enclosedIf {t : Text} (h : IsToken t) (needed : Bool) :
    IsToken (enclosedIf needed t) := by
  cases needed with
  | false => exact h
  | true =>
    rw [Text.enclosedIf, if_pos rfl, bracket]
    refine ⟨by simp, ?_, by simp [h.level, tagNesting], ?_, closing_concat _, by simp⟩
    · rw [List.all_append, List.all_cons, h.chars]
      decide
    · rw [List.getLast?_concat]
      decide

theorem IsToken.array {t : Text} (h : IsToken t) : IsToken (t ++ ['[', ']']) where
  ne_nil := by simp
  chars := by
    rw [List.all_append, h.chars]
    decide
  level := by simp [h.level, tagNesting]
  last := by simp
  closing := h.closing.append (closing_of_not_mem (by decide))
  opening := by simpa using h.opening

theorem IsToken.nullable {t : Text} (h : IsToken t) : IsToken ('?' :: t) where
  ne_nil := by simp
  chars := by
    rw [List.all_cons, h.chars]
    decide
  level := by simp [h.level, tagNesting]
  last := by
    rw [← List.singleton_append, List.getLast?_append_of_ne_nil _ h.ne_nil]
    exact h.last
  closing := Closing.append (closing_of_not_mem (t := ['?']) (by decide)) h.closing
  opening := by simpa using h.opening

theorem IsToken.generic {base t : Text} (hbase : IsToken base) (h : IsToken t) :
    IsToken (generic base t) where
  ne_nil := by simp [DocType.generic]
  chars := by
    rw [DocType.generic, List.all_append, List.all_append, List.all_cons, hbase.chars, h.chars]
    decide
  level := by simp [DocType.generic, hbase.level, h.level, tagNesting]
  last := by
    rw [DocType.generic, List.getLast?_concat]
    decide
  closing := by
    refine Closing.append (hbase.closing.append ?_) (closing_of_not_mem (by decide))
    exact Closing.append (closing_of_not_mem (t := ['<']) (by decide)) h.closing
  opening := by simpa [DocType.generic] using Or.imp hbase.opening h.opening

theorem IsToken.join {ws : List Text} (hne : ws ≠ []) (h : ∀ w ∈ ws, IsToken w) :
    IsToken (join ['|'] ws) := by
  induction ws with
  | nil => exact absurd rfl hne
  | cons w ws ih =>
    obtain ⟨hw, hws⟩ := List.forall_mem_cons.1 h
    cases ws with
    | nil => exact hw
    | cons v ws =>
      have ih := ih (by simp) hws
      rw [join_cons_cons]
      refine ⟨by simp, ?_, ?_, ?_, ?_, ?_⟩
      · rw [List.all_append, List.all_append, hw.chars, ih.chars]
        decide
      · simp [hw.level, ih.level, tagNesting]
      · rw [List.getLast?_append_of_ne_nil _ ih.ne_nil]
        exact ih.last
      · exact (hw.closing.append (closing_of_not_mem (by decide))).append ih.closing
      · simpa using Or.imp hw.opening ih.opening

theorem isToken_of_isClassName {t : Text} (h : isClassName t = true) : IsToken t := by
  refine isToken_of_isPlain (ne_nil_of_isClassName h) ?_ (isPlain_of_isClassName h)
  rw [List.all_eq_true]
  intro c hc
  rcases Bool.or_eq_true_iff.1 (isRest_of_isClassName h hc) with hrest | hslash
  · rw [isTypeChar, hrest, Bool.true_or]
  · rw [beq_iff_eq.1 hslash]
    decide

theorem isToken_of_word {w : String} (h : w ∈ scalarWords.map (·.2) ++ specialWords) :
    IsToken w.toList := by
  have hwords : ∀ w ∈ scalarWords.map (·.2) ++ specialWords,
      w.toList ≠ [] ∧ w.toList.all isTypeChar = true ∧ isPlain w.toList = true := by
    decide
  obtain ⟨hne, hchars, hplain⟩ := hwords w h
  exact isToken_of_isPlain hne hchars hplain

/-- Every well-formed type is written as a token. -/
theorem WellFormed.isToken {t : DocType} (h : WellFormed t) : IsToken t.print := by
  induction h with
  | named n hclass htrim hscalar hspecial => exact isToken_of_isClassName hclass
  | keyword k h => exact isToken_of_word (List.mem_append_left _ h)
  | special w h => exact isToken_of_word (List.mem_append_right _ h)
  | @array e _ ih =>
    rw [print_array]
    exact (ih.enclosedIf _).array
  | @nullable e _ ih =>
    rw [print_nullable]
    exact (ih.enclosedIf _).nullable
  | @union members hlength _ _ ih =>
    rw [print_union]
    refine IsToken.join (fun hnil => ?_) (by simpa using ih)
    rw [List.map_eq_nil_iff.1 hnil] at hlength
    cases hlength
  | iterable n hclass _ ih =>
    rw [print_iterable]
    exact (isToken_of_isClassName (isClassName_of_body hclass)).generic ih

/-! ### The type at the front of a line -/

/-- A type that can be written into a line: a well-formed one without blanks in its text. -/
structure Unbroken (t : DocType) : Prop where
  wellFormed : WellFormed t
  solid : Solid t.print

theorem Unbroken.isToken {t : DocType} (h : Unbroken t) : IsToken t.print := h.wellFormed.isToken

theorem Unbroken.parse_print {t : DocType} (h : Unbroken t) : parse t.print = t :=
  h.wellFormed.parse_print

/-- A text without blanks is passed over; only its brackets and its last character count. -/
theorem takeToken_append {t : Text} (h : Solid t) (rest : Text) (depth : Int) (bar : Bool) :
    takeToken depth bar (t ++ rest) =
      let found := takeToken (depth + tagNet t) ((t.getLast?.map (· == '|')).getD bar) rest
      (t ++ found.1, found.2) := by
  induction t generalizing depth bar with
  | nil => simp
  | cons c t ih =>
    obtain ⟨hc, ht⟩ := List.forall_mem_cons.1 h
    rw [List.cons_append, takeToken, ih ht]
    simp [hc, Int.add_assoc, List.getLast?_cons]

theorem splitToken_append_behind {t d : Text} (ht : IsToken t) (hsolid : Solid t) (hd : Tight d)
    (hbar : d.head? ≠ some '|') : splitToken (t ++ behind d) = (t, behind d) := by
  have hstart : trimStart (t ++ behind d) = t ++ behind d := by
    refine dropWhile_of_head fun c hc => ?_
    rw [List.head?_append_of_ne_nil _ ht.ne_nil] at hc
    exact hsolid.tight.1 c hc
  have hlast : (t.getLast?.map (· == '|')).getD false = false := by
    have hbar := ht.last
    cases hlast : t.getLast? with
    | none => rfl
    | some c =>
      rw [hlast] at hbar
      simpa using hbar
  have hbehind : takeToken 0 false (behind d) = ([], behind d) := by
    cases d with
    | nil => rfl
    | cons c d =>
      have hbefore : (trimStart (c :: d)).head? = some c := by
        rw [trimStart, dropWhile_of_head hd.1]
        rfl
      rw [behind_of_ne_nil (by simp), takeToken, hbefore]
      refine if_pos ?_
      simpa [isBlank] using hbar
  rw [splitToken, hstart, takeToken_append hsolid, ht.level, hlast, Int.add_zero, hbehind]
  simp

end DocType
end PhpAtlas
