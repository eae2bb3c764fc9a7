import PhpAtlas.Proofs.Doc.Reading

/-!
# Writing what was read

A text that makes no sense is kept as it is, brackets included, so what is read from a text need not
be written with balanced brackets, and the written text may be taken apart in another way than the
text that was read.  It is not, if no member of a union leaves brackets open towards the next and no
value type has a comma outside of brackets: then writing what was read is stable.

The reason is that a separator that was not seen in a text is not seen in what is written for it:
brackets are left out only where the text around them hides what is in them as well, or where they
are written again.

## Main definitions

* `DocType.isClosed` — the condition.
* `DocType.Clear` — at which depths the members of a type show no separator.
* `DocType.Legible` — a type whose text is taken apart as the type says.

## Main results

* `DocType.Reads.clear` — what is read shows no more separators than the text.
* `DocType.Reads.legible` — what is read is legible.
* `DocType.display_ofString_display` — **writing what was read is stable.**
-/

namespace PhpAtlas

open Text

/-! ### Depths -/

/-- At none of the depths from `a` to `b` the separator is seen. -/
def Text.Unseen (sep : Char) (a b : Int) (t : Text) : Prop :=
  ∀ i : Int, a ≤ i → i ≤ b → exposed sep i t = false

namespace Text

theorem Unseen.within {sep : Char} {a b d : Int} {t piece : Text} (h : Unseen sep a b t)
    (hwithin : Within d t piece) : Unseen sep (a + d) (b + d) piece := by
  intro i ha hb
  have ht := hwithin.not_exposed (h (i - d) (by omega) (by omega))
  rwa [Int.sub_add_cancel] at ht

theorem Unseen.trim {sep : Char} {a b : Int} {t : Text} (h : Unseen sep a b t) :
    Unseen sep a b (trim t) := by
  simpa using h.within (within_trim t)

theorem Unseen.mono {sep : Char} {a b c d : Int} {t : Text} (h : Unseen sep a b t) (ha : a ≤ c)
    (hb : d ≤ b) : Unseen sep c d t :=
  fun i hc hd => h i (by omega) (by omega)

theorem Unseen.from_zero {sep : Char} {b : Int} {t : Text} (h : Unseen sep 1 b t)
    (hzero : exposed sep 0 t = false) : Unseen sep 0 b t := by
  intro i ha hb
  rcases Int.lt_or_eq_of_le ha with hpos | rfl
  · exact h i (by omega) hb
  · exact hzero

theorem unseen_of_not_mem {sep : Char} {t : Text} (h : sep ∉ t) (a b : Int) : Unseen sep a b t :=
  fun i _ _ => exposed_of_not_mem h i

end Text

/-- The separators that the pieces of a type are cut at. -/
def IsSeparator (sep : Char) : Prop := sep = '|' ∨ sep = '&'

theorem Text.Sealed.not_exposed {depth : Int} {t : Text} (h : Sealed depth t) {sep : Char}
    (hsep : IsSeparator sep) : exposed sep depth t = false := by
  rcases hsep with rfl | rfl
  · exact h.1
  · exact h.2

namespace DocType

/-! ### Closed types -/

mutual

/-- In no union a member but the last leaves brackets open, or closes more than it opens, and no
value type has a comma outside of brackets. -/
def isClosed : DocType → Bool
  | .named _ | .special _ | .keyword _ => true
  | .array element => isClosed element
  | .nullable inner => isClosed inner
  | .union members => allClosed members && members.dropLast.all fun m => net m.print == 0
  | .iterable container value =>
      isClosed container && isClosed value && !exposed ',' 0 value.print

/-- Whether several types are closed. -/
def allClosed : List DocType → Bool
  | [] => true
  | m :: ms => isClosed m && allClosed ms

end

theorem allClosed_eq_true {members : List DocType} :
    allClosed members = true ↔ ∀ m ∈ members, m.isClosed = true := by
  induction members with
  | nil => simp [allClosed]
  | cons m members ih => simp [allClosed, ih]

theorem isClosed_union {members : List DocType} : (union members).isClosed = true ↔
    (∀ m ∈ members, m.isClosed = true) ∧ ∀ m ∈ members.dropLast, net m.print = 0 := by
  rw [isClosed, Bool.and_eq_true_iff, allClosed_eq_true]
  simp

theorem isClosed_value {c v : DocType} (h : (iterable c v).isClosed = true) :
    v.isClosed = true := by
  rw [isClosed, Bool.and_eq_true_iff, Bool.and_eq_true_iff] at h
  exact h.1.2

theorem not_exposed_comma {c v : DocType} (h : (iterable c v).isClosed = true) :
    exposed ',' 0 v.print = false := by
  rw [isClosed, Bool.and_eq_true_iff] at h
  simpa using h.2

theorem isOperand_of_isUnion {t : DocType} (h : t.isUnion = true) : t.isOperand = true := by
  cases t with
  | union members => rfl
  | _ => cases h

theorem alternatives_of_not_isUnion {t : DocType} (h : t.isUnion = false) :
    alternatives t = [t] := by
  cases t with
  | union members => cases h
  | _ => rfl

/-! ### What the members of a type show -/

/-- The members of a type do not show the separator down to the given depth. -/
def Clear (sep : Char) (depth : Int) (t : DocType) : Prop :=
  ∀ m ∈ alternatives t, Unseen sep 0 depth m.print

theorem clear_of_not_isUnion {sep : Char} {depth : Int} {t : DocType} (hunion : t.isUnion = false)
    (h : Unseen sep 0 depth t.print) : Clear sep depth t := by
  rw [Clear, alternatives_of_not_isUnion hunion]
  simpa using h

theorem Clear.mono {sep : Char} {d e : Int} {t : DocType} (h : Clear sep d t) (hle : e ≤ d) :
    Clear sep e t :=
  fun m hm => (h m hm).mono (Int.le_refl 0) hle

theorem Clear.whole {sep : Char} {depth : Int} {t : DocType} (h : Clear sep depth t)
    (hunion : t.isUnion = false) : Unseen sep 0 depth t.print :=
  h t (by rw [alternatives_of_not_isUnion hunion]; exact List.mem_singleton_self t)

/-- Between brackets the bars of a union do not count. -/
theorem Clear.inside {sep : Char} {depth : Int} {t : DocType} (h : Clear sep depth t)
    (hclosed : t.isClosed = true) : Unseen sep 1 depth t.print := by
  by_cases hunion : t.isUnion = true
  · cases t with
    | union members =>
      intro i ha hb
      rw [print_union]
      -- at a depth of one or more the bars between the members are not seen
      refine exposed_join (.inr (by omega)) ?_ ?_
      · simpa [← List.map_dropLast] using (isClosed_union.1 hclosed).2
      · intro w hw
        obtain ⟨m, hm, rfl⟩ := List.mem_map.1 hw
        exact h m hm i (by omega) hb
    | _ => cases hunion
  · rw [Bool.not_eq_true] at hunion
    exact (h.whole hunion).mono (by decide) (Int.le_refl _)

theorem Clear.enclosedIf {sep : Char} (hsep : IsSeparator sep) {depth : Int} {t : DocType}
    (hclosed : t.isClosed = true) {needed : Bool} (hneeded : needed = false → t.isUnion = false)
    (h : Clear sep depth t) (hinside : needed = true → Clear sep (depth + 1) t) :
    Unseen sep 0 depth (enclosedIf needed t.print) := by
  cases needed with
  | false => exact h.whole (hneeded rfl)
  | true =>
    intro i ha hb
    have hopen : '(' ≠ sep := by rcases hsep with rfl | rfl <;> decide
    have hclose : ')' ≠ sep := by rcases hsep with rfl | rfl <;> decide
    rw [Text.enclosedIf, if_pos rfl, exposed_bracket hopen hclose]
    exact (hinside rfl).inside hclosed (i + 1) (by omega) (by omega)

theorem clear_array {sep : Char} (hsep : IsSeparator sep) {depth : Int} {e : DocType}
    (h : Unseen sep 0 depth (enclosedIf e.isOperand e.print)) : Clear sep depth (.array e) := by
  refine clear_of_not_isUnion rfl fun i ha hb => ?_
  have hbrackets : sep ∉ ['[', ']'] := by rcases hsep with rfl | rfl <;> decide
  rw [print_array, exposed_append, h i ha hb, exposed_of_not_mem hbrackets]
  rfl

theorem clear_nullable {sep : Char} (hsep : IsSeparator sep) {depth : Int} {e : DocType}
    (h : Unseen sep 0 depth (enclosedIf e.isUnion e.print)) : Clear sep depth (.nullable e) := by
  refine clear_of_not_isUnion rfl fun i ha hb => ?_
  have hquery : '?' ≠ sep := by rcases hsep with rfl | rfl <;> decide
  rw [print_nullable, exposed_cons_of_ne hquery]
  exact h (i + nesting '?') (by simpa [nesting] using ha) (by simpa [nesting] using hb)

theorem clear_iterable {sep : Char} (hsep : IsSeparator sep) {depth : Int} {base : Text}
    {v : DocType} (hbase : IsContainer base) (hclosed : v.isClosed = true)
    (h : Clear sep (depth + 1) v) : Clear sep depth (.iterable (parse base) v) := by
  refine clear_of_not_isUnion rfl fun i ha hb => ?_
  have hoperator : sep ∈ operatorChars ∧ '<' ≠ sep ∧ '>' ≠ sep := by
    rcases hsep with rfl | rfl <;> decide
  rw [print_iterable, hbase.parse_eq, print_asWritten,
    exposed_generic hbase hoperator.1 hoperator.2.1 hoperator.2.2]
  exact h.inside hclosed (i + 1) (by omega) (by omega)

theorem clear_ofAtom {sep : Char} (hsep : IsSeparator sep) {depth : Int} {t : Text}
    (h : Unseen sep 0 depth t) : Clear sep depth (ofAtom t) := by
  have hoperator : sep ∈ operatorChars := by rcases hsep with rfl | rfl <;> decide
  refine clear_of_not_isUnion (isUnion_of_not_isOperand (isOperand_ofAtom t)) ?_
  rcases ofAtom_cases t with ⟨p, hp, -, hatom⟩ | ⟨w, hw, -, hatom⟩ | hatom
  · have hplain : ∀ p ∈ scalarWords, isPlain p.2.toList = true := by decide
    rw [hatom]
    exact unseen_of_not_mem (not_mem_of_isPlain (hplain p hp) hoperator) 0 depth
  · have hplain : ∀ w ∈ specialWords, isPlain w.toList = true := by decide
    rw [hatom]
    exact unseen_of_not_mem (not_mem_of_isPlain (hplain w hw) hoperator) 0 depth
  · rwa [hatom, print_asWritten]

/-! ### Closed parts of a union -/

theorem mem_dropLast_flatMap {α β : Type} {f : α → List β} {l : List α} {a : α} {b : β} (ha : a ∈ l)
    (hb : b ∈ (f a).dropLast) : b ∈ (l.flatMap f).dropLast := by
  induction l with
  | nil => cases ha
  | cons c l ih =>
    rw [List.flatMap_cons]
    by_cases hrest : l.flatMap f = []
    -- behind the last part that has members, no part is left that could hold `b`
    · rcases List.mem_cons.1 ha with rfl | ha
      · rwa [hrest, List.append_nil]
      · have hb := ih ha
        rw [hrest] at hb
        cases hb
    · rw [List.dropLast_append_of_ne_nil hrest, List.mem_append]
      rcases List.mem_cons.1 ha with rfl | ha
      · exact .inl (List.mem_of_mem_dropLast hb)
      · exact .inr (ih ha)

theorem isClosed_of_part {parts : List Text} {read : Text → DocType}
    (h : (union (parts.flatMap fun p => alternatives (read p))).isClosed = true) {p : Text}
    (hp : p ∈ parts) : (read p).isClosed = true := by
  obtain ⟨hmembers, hnet⟩ := isClosed_union.1 h
  have hpart : ∀ m ∈ alternatives (read p), m.isClosed = true :=
    fun m hm => hmembers m (List.mem_flatMap.2 ⟨p, hp, hm⟩)
  by_cases hunion : (read p).isUnion = true
  · have hdropLast : ∀ m ∈ (alternatives (read p)).dropLast, net m.print = 0 :=
      fun m hm => hnet m (mem_dropLast_flatMap hp hm)
    cases hread : read p with
    | union members =>
      rw [hread] at hpart hdropLast
      exact isClosed_union.2 ⟨hpart, hdropLast⟩
    | _ =>
      rw [hread] at hunion
      cases hunion
  · rw [Bool.not_eq_true] at hunion
    rw [alternatives_of_not_isUnion hunion] at hpart
    exact hpart _ (List.mem_singleton_self _)

/-! ### What is read shows no more than the text -/

/-- The first character of a text is that of what is in front in it. -/
theorem head?_trim_of_front {x front back : Text} (hx : trim x = front ++ back) {c : Char}
    (h : (trim front).head? = some c) : (trim x).head? = some c := by
  have hstart := head?_trimStart_of_trim h
  cases front with
  | nil => cases h
  | cons d front =>
    have hd : isBlank d = false := (tight_trim x).1 d (by rw [hx]; rfl)
    have hhead : trimStart (d :: front) = d :: front := dropWhile_of_head (by simpa using hd)
    rw [hhead] at hstart
    rw [hx]
    exact hstart

/-- A separator that is not seen in a text is not seen in the members of what is read.  If moreover
no bar cuts the text, an operand that is read was found in brackets, where its members show even
less, or it is a nullable type that starts as the text does. -/
theorem Reads.clear {x : Text} {t : DocType} (h : Reads x t) (hclosed : t.isClosed = true)
    {sep : Char} (hsep : IsSeparator sep) {depth : Int} (hunseen : Unseen sep 1 depth x) :
    Clear sep depth t ∧ (exposed '|' 0 x = false → t.isOperand = true →
      ((trim x).head? = some '?' ∧ t.isUnion = false) ∨ Clear sep (depth + 1) t) := by
  -- a piece that lies in brackets of the text is read at a greater depth than the text
  induction h generalizing depth with
  | blank =>
    refine ⟨clear_of_not_isUnion rfl (unseen_of_not_mem ?_ 0 depth), fun _ h => nomatch h⟩
    rcases hsep with rfl | rfl <;> decide
  | @atom x hatom =>
    have hdescribes := TypeForm.describes_of (trim x)
    rw [hatom] at hdescribes
    have htrim := (hunseen.trim).from_zero (hdescribes.1.not_exposed hsep)
    refine ⟨clear_ofAtom hsep htrim, fun _ h => ?_⟩
    rw [isOperand_ofAtom] at h
    cases h
  | @union x parts read hbar _ hwithin _ ih =>
    refine ⟨fun m hm => ?_, fun hnot => ?_⟩
    · obtain ⟨p, hp, hm⟩ := List.mem_flatMap.1 hm
      have hpart : Unseen sep 1 depth p := by simpa using hunseen.trim.within (hwithin p hp)
      exact (ih p hp (isClosed_of_part hclosed hp) hpart).1 m hm
    · rw [(within_trim x).exposed_of hbar] at hnot
      cases hnot
  | @front x front back t hx _ ih =>
    have hwithin : Within 0 (trim x) front := hx ▸ within_start front back
    have hfront : Unseen sep 1 depth front := by simpa using hunseen.trim.within hwithin
    obtain ⟨hclear, hoperand⟩ := ih hclosed hfront
    refine ⟨hclear, fun hnot h => ?_⟩
    have hnot : exposed '|' 0 front = false :=
      hwithin.not_exposed ((within_trim x).not_exposed hnot)
    exact (hoperand hnot h).imp_left fun ⟨hhead, hunion⟩ => ⟨head?_trim_of_front hx hhead, hunion⟩
  | @nullable x rest t hx hsealed _ ih =>
    have hclosed : t.isClosed = true := hclosed
    have hwithin : Within 0 (trim x) rest := ⟨['?'], [], by simp [hx], by decide⟩
    have hrest : Unseen sep 1 depth rest := by simpa using hunseen.trim.within hwithin
    obtain ⟨hclear, hoperand⟩ := ih hclosed hrest
    refine ⟨clear_nullable hsep (hclear.enclosedIf hsep hclosed id fun hunion => ?_),
      fun _ _ => .inl ⟨by rw [hx]; rfl, rfl⟩⟩
    -- a union behind the question mark was in brackets, since no bar cuts the text
    rcases hoperand (hwithin.not_exposed hsealed.1) (isOperand_of_isUnion hunion) with h | h
    · rw [h.2] at hunion
      cases hunion
    · exact h
  | @array x base t hx hsealed hhead _ ih =>
    have hclosed : t.isClosed = true := hclosed
    have hwithin : Within 0 (trim x) base := hx ▸ within_start base _
    have hbase : Unseen sep 1 depth base := by simpa using hunseen.trim.within hwithin
    obtain ⟨hclear, hoperand⟩ := ih hclosed hbase
    refine ⟨clear_array hsep (hclear.enclosedIf hsep hclosed isUnion_of_not_isOperand fun h => ?_),
      fun _ h => nomatch h⟩
    -- an operand in front of the square brackets cannot be nullable without brackets
    rcases hoperand (hwithin.not_exposed hsealed.1) h with h | h
    · exact absurd (head?_trim_of_front hx h.1) hhead
    · exact h
  | @group x inner t hx hsealed _ ih =>
    have hwithin : Within 1 (trim x) inner := ⟨['('], [')'], hx, by decide⟩
    have hinner : Unseen sep 1 (depth + 1) inner :=
      (hunseen.trim.from_zero (hsealed.not_exposed hsep)).within hwithin
    have hclear := (ih hclosed hinner).1
    exact ⟨hclear.mono (by omega), fun _ _ => .inr hclear⟩
  | @list x element t hsealed hwithin _ ih =>
    have hclosed : t.isClosed = true := hclosed
    have helement : Unseen sep 1 (depth + 1) element :=
      (hunseen.trim.from_zero (hsealed.not_exposed hsep)).within hwithin
    have hinside := (ih hclosed helement).1
    have hclear : Clear sep depth t := hinside.mono (by omega)
    have henclosed :=
      hclear.enclosedIf hsep hclosed isUnion_of_not_isOperand fun _ => hinside
    exact ⟨clear_array hsep henclosed, fun _ h => nomatch h⟩
  | @values x base value t hbase hsealed hwithin _ ih =>
    have hvalue : Unseen sep 1 (depth + 1) value :=
      (hunseen.trim.from_zero (hsealed.not_exposed hsep)).within hwithin
    have hclosed := isClosed_value hclosed
    exact ⟨clear_iterable hsep hbase hclosed (ih hclosed hvalue).1, fun _ h => nomatch h⟩

theorem Reads.sealed {x : Text} {t : DocType} (h : Reads x t) (hclosed : t.isClosed = true) :
    ∀ m ∈ alternatives t, Sealed 0 m.print := by
  -- no depth lies between one and zero
  have hunseen : ∀ sep, Unseen sep 1 0 x := fun sep i ha hb => by omega
  intro m hm
  exact ⟨(h.clear hclosed (.inl rfl) (hunseen '|')).1 m hm 0 (by decide) (by decide),
    (h.clear hclosed (.inr rfl) (hunseen '&')).1 m hm 0 (by decide) (by decide)⟩

/-! ### Legible types -/

/-- A type whose text is taken apart as the type says: no part of it that is no union shows a
separator. -/
inductive Legible : DocType → Prop
  | leaf {t : DocType} (h : IsLeaf t) : Legible t
  | array {e : DocType} (h : Legible e) (hsealed : Sealed 0 (array e).print) : Legible (.array e)
  | nullable {e : DocType} (h : Legible e) (hsealed : Sealed 0 (nullable e).print) :
      Legible (.nullable e)
  | union {members : List DocType} (hlength : 2 ≤ members.length) (h : ∀ m ∈ members, Legible m)
      (hflat : ∀ m ∈ members, m.isUnion = false) (hsealed : ∀ m ∈ members, Sealed 0 m.print) :
      Legible (.union members)
  | iterable {c v : DocType} (hcontainer : IsContainer c.print) (hleaf : IsLeaf c) (h : Legible v)
      (hsealed : Sealed 0 (iterable c v).print) : Legible (.iterable c v)

theorem Legible.neat {t : DocType} (h : Legible t) : Neat t := by
  induction h with
  | leaf h => exact h.neat
  | array _ _ ih => exact ih.array
  | nullable _ _ ih => exact ih.nullable
  | union hlength _ _ _ ih => exact Neat.union hlength ih
  | iterable hcontainer _ _ _ ih => exact ih.iterable hcontainer

theorem IsLeaf.isOperand {t : DocType} (h : IsLeaf t) : t.isOperand = false := by
  rw [← h.read]
  exact isOperand_ofAtom _

theorem Legible.of_mem_alternatives {t m : DocType} (h : Legible t) (hm : m ∈ alternatives t) :
    Legible m ∧ m.isUnion = false := by
  by_cases hunion : t.isUnion = true
  · cases h with
    | leaf h =>
      rw [isUnion_of_not_isOperand h.isOperand] at hunion
      cases hunion
    | union _ h hflat _ => exact ⟨h m hm, hflat m hm⟩
    | _ => cases hunion
  · rw [Bool.not_eq_true] at hunion
    rw [alternatives_of_not_isUnion hunion, List.mem_singleton] at hm
    subst hm
    exact ⟨h, hunion⟩

theorem Legible.alternatives_ne_nil {t : DocType} (h : Legible t) : alternatives t ≠ [] := by
  cases h with
  | leaf h =>
    rw [alternatives_of_not_isUnion (isUnion_of_not_isOperand h.isOperand)]
    exact List.cons_ne_nil _ _
  | union hlength _ _ _ =>
    rintro rfl
    cases hlength
  | _ => exact List.cons_ne_nil _ _

theorem length_flatMap_of_ne_nil {α β : Type} {f : α → List β} {l : List α}
    (h : ∀ a ∈ l, f a ≠ []) : l.length ≤ (l.flatMap f).length := by
  induction l with
  | nil => simp
  | cons a l ih =>
    obtain ⟨ha, hl⟩ := List.forall_mem_cons.1 h
    have hpos := List.length_pos_of_ne_nil ha
    have := ih hl
    rw [List.flatMap_cons, List.length_append, List.length_cons]
    omega

/-- What is read is legible. -/
theorem Reads.legible {x : Text} {t : DocType} (h : Reads x t) (hclosed : t.isClosed = true) :
    Legible t := by
  induction h with
  | blank => exact .leaf (isLeaf_special (by decide))
  | @atom x hatom => exact .leaf (isLeaf_ofAtom (tight_trim x) hatom)
  | @union x parts read hbar hlength hwithin h ih =>
    have hlegible : ∀ p ∈ parts, Legible (read p) :=
      fun p hp => ih p hp (isClosed_of_part hclosed hp)
    have hmembers : ∀ m ∈ parts.flatMap fun p => alternatives (read p),
        Legible m ∧ m.isUnion = false := by
      intro m hm
      obtain ⟨p, hp, hm⟩ := List.mem_flatMap.1 hm
      exact (hlegible p hp).of_mem_alternatives hm
    refine .union ?_ (fun m hm => (hmembers m hm).1) (fun m hm => (hmembers m hm).2)
      ((Reads.union hbar hlength hwithin h).sealed hclosed)
    exact hlength.trans (length_flatMap_of_ne_nil fun p hp => (hlegible p hp).alternatives_ne_nil)
  | front _ _ ih => exact ih hclosed
  | nullable hx hsealed h ih =>
    exact .nullable (ih hclosed)
      ((Reads.nullable hx hsealed h).sealed hclosed _ (List.mem_singleton_self _))
  | array hx hsealed hhead h ih =>
    exact .array (ih hclosed)
      ((Reads.array hx hsealed hhead h).sealed hclosed _ (List.mem_singleton_self _))
  | group _ _ _ ih => exact ih hclosed
  | list hsealed hwithin h ih =>
    exact .array (ih hclosed)
      ((Reads.list hsealed hwithin h).sealed hclosed _ (List.mem_singleton_self _))
  | values hbase hsealed hwithin h ih =>
    refine .iterable ?_ hbase.isLeaf (ih (isClosed_value hclosed))
      ((Reads.values hbase hsealed hwithin h).sealed hclosed _ (List.mem_singleton_self _))
    rwa [hbase.parse_eq, print_asWritten]

/-! ### Reading again -/

/-- What is read again from the text of a type has the same text and needs brackets where the type
does. -/
structure Rereads (t : DocType) : Prop where
  print_eq : (parse t.print).print = t.print
  isOperand_eq : (parse t.print).isOperand = t.isOperand
  isUnion_eq : (parse t.print).isUnion = t.isUnion

/-- Brackets are written again, or they are part of a text that makes no sense. -/
theorem Rereads.print_enclosedIf {t : DocType} (h : Rereads t) (hneat : Neat t)
    (needs : DocType → Bool) (hneeds : needs (parse t.print) = needs t)
    (hkeyword : ∀ k, needs (.keyword k) = false)
    (hsealed : Sealed 0 (enclosedIf (needs t) t.print)) :
    enclosedIf (needs (parse (enclosedIf (needs t) t.print)))
      (parse (enclosedIf (needs t) t.print)).print = enclosedIf (needs t) t.print := by
  cases hneed : needs t with
  | false =>
    rw [hneed] at hneeds
    simp only [enclosedIf, Bool.false_eq_true, if_false, hneeds, h.print_eq]
  | true =>
    rw [hneed] at hneeds hsealed
    simp only [enclosedIf, if_true] at hsealed ⊢
    have hinside : Sealed 1 t.print :=
      ⟨(exposed_bracket (by decide) (by decide) 0 _).symm.trans hsealed.1,
        (exposed_bracket (by decide) (by decide) 0 _).symm.trans hsealed.2⟩
    rw [parse_bracket hinside hneat.brace]
    by_cases hcloses : closesAtEnd 1 (t.print ++ [')']) = true
    · rw [if_pos hcloses, if_pos hneeds, h.print_eq]
    · -- the brackets do not belong together, and the whole text is kept as a word
      rw [if_neg hcloses, hkeyword, if_neg (by decide)]
      exact String.toList_ofList

theorem sealed_of_array {e : DocType} (h : Sealed 0 (array e).print) :
    Sealed 0 (enclosedIf e.isOperand e.print) := by
  rw [print_array, Sealed, exposed_append, exposed_append, Bool.or_eq_false_iff,
    Bool.or_eq_false_iff] at h
  exact ⟨h.1.1, h.2.1⟩

theorem sealed_of_nullable {e : DocType} (h : Sealed 0 (nullable e).print) :
    Sealed 0 (enclosedIf e.isUnion e.print) := by
  rw [print_nullable, Sealed, exposed_cons_of_ne (by decide), exposed_cons_of_ne (by decide)] at h
  exact h

theorem sealed_of_iterable {c v : DocType} (hcontainer : IsContainer c.print)
    (h : Sealed 0 (iterable c v).print) : Sealed 1 v.print := by
  rw [print_iterable, Sealed, exposed_generic hcontainer (by decide) (by decide) (by decide),
    exposed_generic hcontainer (by decide) (by decide) (by decide)] at h
  exact h

theorem Legible.rereads {t : DocType} (h : Legible t) (hclosed : t.isClosed = true) :
    Rereads t := by
  induction h with
  | leaf h => exact ⟨by rw [h.parse_print], by rw [h.parse_print], by rw [h.parse_print]⟩
  | array h hsealed ih =>
    have hrereads := ih hclosed
    have hoperand := sealed_of_array hsealed
    have hparse := parse_print_array h.neat hoperand
    refine ⟨?_, by rw [hparse]; rfl, by rw [hparse]; rfl⟩
    rw [hparse, print_array, print_array,
      hrereads.print_enclosedIf h.neat isOperand hrereads.isOperand_eq (fun _ => rfl) hoperand]
  | nullable h hsealed ih =>
    have hrereads := ih hclosed
    have hoperand := sealed_of_nullable hsealed
    have hparse := parse_print_nullable h.neat hoperand
    refine ⟨?_, by rw [hparse]; rfl, by rw [hparse]; rfl⟩
    rw [hparse, print_nullable, print_nullable,
      hrereads.print_enclosedIf h.neat isUnion hrereads.isUnion_eq (fun _ => rfl) hoperand]
  | @union members hlength h hflat hsealed ih =>
    obtain ⟨hmembers, hnet⟩ := isClosed_union.1 hclosed
    have hrereads : ∀ m ∈ members, Rereads m := fun m hm => ih m hm (hmembers m hm)
    have hparse := parse_print_union hlength (fun m hm => (h m hm).neat) hnet
      (fun m hm => (hsealed m hm).1) fun m hm => (hrereads m hm).isUnion_eq.trans (hflat m hm)
    refine ⟨?_, by rw [hparse]; rfl, by rw [hparse]; rfl⟩
    rw [hparse, print_union, print_union, List.map_map]
    exact congrArg _ (List.map_congr_left fun m hm => (hrereads m hm).print_eq)
  | iterable hcontainer hleaf h hsealed ih =>
    have hrereads := ih (isClosed_value hclosed)
    have hparse := parse_print_iterable hcontainer h.neat (sealed_of_iterable hcontainer hsealed)
      (not_exposed_comma hclosed)
    refine ⟨?_, by rw [hparse]; rfl, by rw [hparse]; rfl⟩
    rw [hparse, print_iterable, print_iterable, hleaf.parse_print, hrereads.print_eq]

/-- **Writing what was read is stable.** -/
theorem display_ofString_display (s : String) (h : (ofString s).isClosed = true) :
    (ofString (ofString s).display).display = (ofString s).display := by
  have hrereads := ((reads_parse s.toList).legible h).rereads h
  rw [display, display, ofString, String.toList_ofList]
  exact congrArg String.ofList hrereads.print_eq

/-- A text with brackets and arguments to leave out, words, and a fragment that makes no sense. -/
def looseText : String :=
  "((p)|(q))[]|Foo bar baz|\\iterator<k, (u|v)[]>|?x&y|array{id: int}|>)z("

theorem display_ofString_display_looseText :
    (ofString looseText).display = "(p|q)[]|Foo bar baz|\\iterator<(u|v)[]>|?x|array|>)z(" ∧
      (ofString (ofString looseText).display).display = (ofString looseText).display :=
  ⟨by decide +kernel, display_ofString_display looseText (by decide +kernel)⟩

/-- A member that leaves a bracket open hides the bar behind it from the second reading, which then
leaves out the values of the class. -/
theorem not_forall_display_ofString_display :
    ¬∀ s, (ofString (ofString s).display).display = (ofString s).display := by
  intro h
  have hopen := h "callable(array{id: int})|Iterator<Foo>"
  revert hopen
  decide +kernel

-- A comma that was inside of brackets separates arguments once the brackets are left out.
example : (ofString "Iterator<(a,b)>").display = "Iterator<a,b>" ∧
    (ofString "Iterator<a,b>").display = "Iterator<b>" := by
  decide +kernel

end DocType
end PhpAtlas
