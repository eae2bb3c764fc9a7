import PhpAtlas.Proofs.Doc.Written

/-!
# Reading back what was written

The text of a well-formed type is read back as the type.  Brackets are written only where an
operator around the text would otherwise take it apart, so what has to be known of each text is how
it behaves between others: its brackets are balanced, and a bar outside of them is seen at its own
level only.

## Main definitions

* `DocType.WellFormed` — the types that can be written.
* `Text.Balanced` — a text whose brackets are balanced.
* `DocType.Regular` — what the text of a well-formed type is like.

## Main results

* `DocType.WellFormed.regular` — every well-formed type is written so.
* `DocType.ofString_display` — **a well-formed type is read back from its text.**
-/

namespace PhpAtlas

open Text

/-! ### Balanced texts -/

theorem closesAtEnd_append_of_not_mem {t : Text} (hopen : '(' ∉ t) (hclose : ')' ∉ t) (depth : Nat)
    (rest : Text) : closesAtEnd depth (t ++ rest) = closesAtEnd depth rest := by
  induction t with
  | nil => rfl
  | cons c t ih =>
    obtain ⟨hc, hopen⟩ := not_or.1 (List.mem_cons.not.1 hopen)
    obtain ⟨hc', hclose⟩ := not_or.1 (List.mem_cons.not.1 hclose)
    rw [List.cons_append, closesAtEnd, if_neg (by simpa using Ne.symm hc),
      if_neg (by simpa using Ne.symm hc'), ih hopen hclose]

/-- A text whose brackets are balanced.  Inside of other brackets none of its bars is seen, and it
has no ampersands and commas at all. -/
structure Text.Balanced (t : Text) : Prop where
  net_eq : net t = 0
  hidden : ∀ depth : Int, 1 ≤ depth → exposed '|' depth t = false
  absent : (t.all fun c => c != '&' && c != ',') = true
  closes : ∀ depth : Nat, 1 ≤ depth → ∀ rest, closesAtEnd depth (t ++ rest) = closesAtEnd depth rest

namespace Text

theorem Balanced.not_mem {t : Text} (h : Balanced t) : '&' ∉ t ∧ ',' ∉ t := by
  have habsent := List.all_eq_true.1 h.absent
  exact ⟨fun hmem => (nomatch habsent _ hmem), fun hmem => (nomatch habsent _ hmem)⟩

theorem balanced_of_not_mem {t : Text} (hnet : net t = 0)
    (habsent : (t.all fun c => c != '&' && c != ',') = true) (hbar : '|' ∉ t)
    (hopen : '(' ∉ t) (hclose : ')' ∉ t) : Balanced t where
  net_eq := hnet
  hidden depth _ := exposed_of_not_mem hbar depth
  absent := habsent
  closes depth _ rest := closesAtEnd_append_of_not_mem hopen hclose depth rest

theorem balanced_of_isPlain {t : Text} (h : t.isPlain = true) : Balanced t := by
  refine balanced_of_not_mem (net_of_isPlain h) ?_ (not_mem_of_isPlain h (by decide))
    (not_mem_of_isPlain h (by decide)) (not_mem_of_isPlain h (by decide))
  rw [List.all_eq_true]
  intro c hc
  simp [ne_of_isPlain h hc (d := '&') (by decide), ne_of_isPlain h hc (d := ',') (by decide)]

theorem balanced_bar : Balanced ['|'] where
  net_eq := by decide
  hidden depth hdepth := by
    have hne : depth ≠ 0 := by omega
    simp [exposed_cons, hne]
  absent := by decide
  closes depth _ rest := closesAtEnd_append_of_not_mem (by decide) (by decide) depth rest

theorem Balanced.append {a b : Text} (ha : Balanced a) (hb : Balanced b) : Balanced (a ++ b) where
  net_eq := by rw [net_append, ha.net_eq, hb.net_eq]; rfl
  hidden depth hdepth := by
    rw [exposed_append, ha.hidden depth hdepth, ha.net_eq, Int.add_zero, hb.hidden depth hdepth]
    rfl
  absent := by rw [List.all_append, ha.absent, hb.absent]; rfl
  closes depth hdepth rest := by
    rw [List.append_assoc, ha.closes depth hdepth, hb.closes depth hdepth]

theorem Balanced.bracket {t : Text} (h : Balanced t) : Balanced (bracket t) where
  net_eq := by simp [Text.bracket, h.net_eq, nesting]
  hidden depth hdepth := by
    rw [exposed_bracket (by decide) (by decide)]
    exact h.hidden (depth + 1) (by omega)
  absent := by
    rw [Text.bracket, List.cons_append, List.all_cons, List.all_append, h.absent]
    rfl
  closes depth hdepth rest := by
    have hopen : closesAtEnd depth (Text.bracket t ++ rest) =
        closesAtEnd (depth + 1) (t ++ ')' :: rest) := by
      simp [Text.bracket, closesAtEnd]
    -- the closing bracket leads back to a depth that is still inside
    have hdepth' : ¬depth + 1 ≤ 1 := by omega
    rw [hopen, h.closes (depth + 1) (by omega), closesAtEnd]
    simp [hdepth']

theorem Balanced.enclosedIf {t : Text} (h : Balanced t) (needed : Bool) :
    Balanced (enclosedIf needed t) := by
  cases needed with
  | false => exact h
  | true => exact h.bracket

theorem Balanced.generic {base t : Text} (hbase : DocType.IsContainer base) (h : Balanced t) :
    Balanced (DocType.generic base t) where
  net_eq := by simp [DocType.generic, net_of_isPlain hbase.isPlain, h.net_eq, nesting]
  hidden depth hdepth := by
    rw [DocType.exposed_generic hbase (by decide) (by decide) (by decide)]
    exact h.hidden (depth + 1) (by omega)
  absent := by
    rw [DocType.generic, List.all_append, List.all_append, List.all_cons, h.absent,
      (balanced_of_isPlain hbase.isPlain).absent]
    rfl
  closes depth hdepth rest := by
    have hopen : DocType.generic base t ++ rest = (base ++ ['<']) ++ (t ++ (['>'] ++ rest)) := by
      simp [DocType.generic]
    have hfront : ∀ d ∈ operatorChars, d ≠ '<' → d ∉ base ++ ['<'] := by
      intro d hd hne
      simpa [hne] using not_mem_of_isPlain hbase.isPlain hd
    rw [hopen, closesAtEnd_append_of_not_mem (hfront _ (by decide) (by decide))
      (hfront _ (by decide) (by decide)), h.closes depth hdepth,
      closesAtEnd_append_of_not_mem (by decide) (by decide)]

theorem Balanced.join {ws : List Text} (h : ∀ w ∈ ws, Balanced w) : Balanced (join ['|'] ws) := by
  induction ws with
  | nil => exact balanced_of_isPlain rfl
  | cons w ws ih =>
    obtain ⟨hw, hws⟩ := List.forall_mem_cons.1 h
    cases ws with
    | nil => exact hw
    | cons v ws =>
      rw [join_cons_cons]
      exact (hw.append balanced_bar).append (ih hws)

end Text

namespace DocType

/-! ### Well-formed types -/

/-- The types that can be written. -/
inductive WellFormed : DocType → Prop
  | named (n : String) (hclass : isClassName n.toList = true) (htrim : trim n.toList = n.toList)
      (hscalar : ∀ p ∈ scalarWords, p.1 ≠ fold n) (hspecial : fold n ∉ specialWords) :
      WellFormed (.named n)
  | keyword (k : String) (h : k ∈ scalarWords.map (·.2)) : WellFormed (.keyword k)
  | special (w : String) (h : w ∈ specialWords) : WellFormed (.special w)
  | array {element : DocType} (h : WellFormed element) : WellFormed (.array element)
  | nullable {inner : DocType} (h : WellFormed inner) : WellFormed (.nullable inner)
  | union {members : List DocType} (hlength : 2 ≤ members.length)
      (h : ∀ m ∈ members, WellFormed m) (hflat : ∀ m ∈ members, m.isUnion = false) :
      WellFormed (.union members)
  /-- The container is an iterable class, written with at most one leading backslash. -/
  | iterable (n : String) {value : DocType}
      (hclass : foldMem (String.ofList ((stripStart? ['\\'] n.toList).getD n.toList))
        iterableClasses = true)
      (h : WellFormed value) : WellFormed (.iterable (.named n) value)

/-- What the text of a well-formed type is like: only a union has bars outside of its brackets. -/
structure Regular (t : DocType) : Prop extends Neat t where
  balanced : Balanced t.print
  whole : t.isUnion = false → exposed '|' 0 t.print = false

theorem IsLeaf.regular {t : DocType} (h : IsLeaf t) (hplain : t.print.isPlain = true) :
    Regular t where
  toNeat := h.neat
  balanced := balanced_of_isPlain hplain
  whole _ := exposed_of_not_mem (not_mem_of_isPlain hplain (by decide)) 0

/-- Brackets around every union hide its bars. -/
theorem Regular.sealed {t : DocType} (h : Regular t) {needed : Bool}
    (hneeded : needed = false → t.isUnion = false) : Sealed 0 (enclosedIf needed t.print) := by
  refine ⟨?_, exposed_of_not_mem (h.balanced.enclosedIf needed).not_mem.1 0⟩
  cases needed with
  | false => exact h.whole (hneeded rfl)
  | true =>
    rw [enclosedIf, if_pos rfl, exposed_bracket (by decide) (by decide)]
    exact h.balanced.hidden 1 (by decide)

theorem Regular.sealed_one {t : DocType} (h : Regular t) : Sealed 1 t.print :=
  ⟨h.balanced.hidden 1 (by decide), exposed_of_not_mem h.balanced.not_mem.1 1⟩

theorem Regular.array {e : DocType} (h : Regular e) : Regular (.array e) where
  toNeat := h.toNeat.array
  balanced := by
    rw [print_array]
    exact (h.balanced.enclosedIf _).append
      (balanced_of_not_mem (by decide) (by decide) (by decide) (by decide) (by decide))
  whole _ := by
    rw [print_array, exposed_append, (h.sealed isUnion_of_not_isOperand).1,
      exposed_of_not_mem (by decide)]
    rfl

theorem Regular.nullable {e : DocType} (h : Regular e) : Regular (.nullable e) where
  toNeat := h.toNeat.nullable
  balanced := by
    rw [print_nullable, ← List.singleton_append]
    exact (balanced_of_not_mem (by decide) (by decide) (by decide) (by decide) (by decide)).append
      (h.balanced.enclosedIf _)
  whole _ := by
    rw [print_nullable, exposed_cons_of_ne (by decide)]
    exact (h.sealed id).1

theorem Regular.union {members : List DocType} (hlength : 2 ≤ members.length)
    (h : ∀ m ∈ members, Regular m) : Regular (.union members) where
  toNeat := Neat.union hlength fun m hm => (h m hm).toNeat
  balanced := by
    rw [print_union]
    exact Balanced.join (by simpa using fun m hm => (h m hm).balanced)
  whole h := nomatch h

theorem Regular.iterable {c v : DocType} (hc : IsContainer c.print) (h : Regular v) :
    Regular (.iterable c v) where
  toNeat := h.toNeat.iterable hc
  balanced := by
    rw [print_iterable]
    exact h.balanced.generic hc
  whole _ := by
    rw [print_iterable, exposed_generic hc (by decide) (by decide) (by decide)]
    exact h.balanced.hidden 1 (by decide)

/-! ### Names -/

theorem isRest_of_isSegment {w : Text} (h : isSegment w = true) {c : Char} (hc : c ∈ w) :
    Name.isRest c = true := by
  cases w with
  | nil => cases h
  | cons d w =>
    obtain ⟨hd, hw⟩ := Bool.and_eq_true_iff.1 h
    rcases List.mem_cons.1 hc with rfl | hc
    · rw [Name.isRest, hd, Bool.true_or]
    · exact List.all_eq_true.1 hw c hc

/-- A text is the name in it, perhaps behind a backslash. -/
theorem eq_body (t : Text) : t = (stripStart? ['\\'] t).getD t ∨
    t = '\\' :: (stripStart? ['\\'] t).getD t := by
  cases hstrip : stripStart? ['\\'] t with
  | none => exact .inl rfl
  | some rest => exact .inr (stripStart?_eq_some_iff.1 hstrip)

/-- A name has only characters of segments and backslashes. -/
theorem isRest_of_isClassName {t : Text} (h : isClassName t = true) {c : Char} (hc : c ∈ t) :
    (Name.isRest c || c == '\\') = true := by
  obtain ⟨-, hsegments⟩ := Bool.and_eq_true_iff.1 h
  have hbody : ∀ c ∈ (stripStart? ['\\'] t).getD t, (Name.isRest c || c == '\\') = true := by
    intro c hc
    rcases mem_splitAll (p := (· == '\\')) hc with hslash | ⟨w, hw, hcw⟩
    · rw [hslash, Bool.or_true]
    · rw [isRest_of_isSegment (List.all_eq_true.1 hsegments w hw) hcw, Bool.true_or]
  rcases eq_body t with hbare | hrooted
  · rw [hbare] at hc
    exact hbody c hc
  · rw [hrooted] at hc
    rcases List.mem_cons.1 hc with rfl | hc
    · rfl
    · exact hbody c hc

/-- A name has no brackets and no operators. -/
theorem isPlain_of_isClassName {t : Text} (h : isClassName t = true) : t.isPlain = true :=
  isPlain_of_forall (p := fun c => Name.isRest c || c == '\\') (by decide)
    fun _ hc => isRest_of_isClassName h hc

theorem ne_nil_of_isClassName {t : Text} (h : isClassName t = true) : t ≠ [] := by
  rintro rfl
  cases h

theorem isLeaf_named {n : String} (hclass : isClassName n.toList = true)
    (htight : Tight n.toList) (hscalar : ∀ p ∈ scalarWords, p.1 ≠ fold n)
    (hspecial : fold n ∉ specialWords) : IsLeaf (.named n) where
  tight := htight
  atom := TypeForm.of_of_isPlain (ne_nil_of_isClassName hclass) (isPlain_of_isClassName hclass)
  read := by
    rw [print, ofAtom_of_not_word hscalar hspecial, asWritten, if_pos hclass, String.ofList_toList]

section Container

variable {t : Text}
  (h : foldMem (String.ofList ((stripStart? ['\\'] t).getD t)) iterableClasses = true)

include h

/-- An iterable class with at most one backslash in front is a container. -/
theorem isContainer_of_body : IsContainer t := by
  have hhead : ∀ c ∈ ((stripStart? ['\\'] t).getD t).head?, (c == '\\') = false := by
    intro c hc
    rw [beq_eq_false_iff_ne]
    rintro rfl
    cases isAlpha_of_foldMem h (List.mem_of_head? hc)
  -- all leading backslashes are dropped, and there is at most one
  have hdrop : dropLeading '\\' t = (stripStart? ['\\'] t).getD t := by
    rcases eq_body t with hbare | hrooted
    · rw [← hbare] at hhead ⊢
      exact dropWhile_of_head hhead
    · calc dropLeading '\\' t
          = dropLeading '\\' ('\\' :: (stripStart? ['\\'] t).getD t) := congrArg _ hrooted
        _ = dropLeading '\\' ((stripStart? ['\\'] t).getD t) := rfl
        _ = (stripStart? ['\\'] t).getD t := dropWhile_of_head hhead
  rw [IsContainer, hdrop]
  exact h

theorem isClassName_of_body : isClassName t = true := by
  have halpha : ∀ c ∈ (stripStart? ['\\'] t).getD t, c.isAlpha = true :=
    fun c hc => isAlpha_of_foldMem h hc
  have hsplit : splitAll (· == '\\') ((stripStart? ['\\'] t).getD t) =
      [(stripStart? ['\\'] t).getD t] := by
    refine splitAll_of_forall fun c hc => ?_
    rw [beq_eq_false_iff_ne]
    rintro rfl
    cases halpha _ hc
  rw [isClassName, hsplit]
  generalize (stripStart? ['\\'] t).getD t = body at h halpha
  cases body with
  | nil => exact absurd rfl (IsContainer.ne_nil h)
  | cons c body =>
    obtain ⟨hc, hbody⟩ := List.forall_mem_cons.1 halpha
    have hrest : body.all Name.isRest = true := by
      rw [List.all_eq_true]
      intro d hd
      simp [Name.isRest, Name.isStart, hbody d hd]
    simp [isSegment, Name.isStart, hc, hrest]

theorem isLeaf_container (n : String) (hn : n.toList = t) : IsLeaf (.named n) := by
  subst hn
  have hcontainer := isContainer_of_body h
  exact isLeaf_named (isClassName_of_body h) hcontainer.tight hcontainer.not_scalar
    hcontainer.not_special

end Container

/-! ### Reading back -/

theorem WellFormed.regular {t : DocType} (h : WellFormed t) : Regular t := by
  induction h with
  | named n hclass htrim hscalar hspecial =>
    exact (isLeaf_named hclass (tight_of_trim htrim) hscalar hspecial).regular
      (isPlain_of_isClassName hclass)
  | keyword k h =>
    have hplain : ∀ k ∈ scalarWords.map (·.2), isPlain k.toList = true := by decide
    exact (isLeaf_keyword h).regular (hplain k h)
  | special w h =>
    have hplain : ∀ w ∈ specialWords, isPlain w.toList = true := by decide
    exact (isLeaf_special h).regular (hplain w h)
  | array _ ih => exact ih.array
  | nullable _ ih => exact ih.nullable
  | union hlength _ _ ih => exact Regular.union hlength ih
  | iterable n hclass _ ih => exact ih.iterable (isContainer_of_body hclass)

/-- Brackets around a well-formed type are left out. -/
theorem Regular.parse_enclosedIf {t : DocType} (h : Regular t) (needed : Bool) :
    parse (enclosedIf needed t.print) = parse t.print := by
  cases needed with
  | false => rfl
  | true =>
    rw [enclosedIf, if_pos rfl, parse_bracket h.sealed_one h.brace,
      h.balanced.closes 1 (by decide)]
    rfl

theorem WellFormed.parse_print {t : DocType} (h : WellFormed t) : parse t.print = t := by
  induction h with
  | named n hclass htrim hscalar hspecial =>
    exact (isLeaf_named hclass (tight_of_trim htrim) hscalar hspecial).parse_print
  | keyword k h => exact (isLeaf_keyword h).parse_print
  | special w h => exact (isLeaf_special h).parse_print
  | array h ih =>
    have hregular := h.regular
    rw [parse_print_array hregular.toNeat (hregular.sealed isUnion_of_not_isOperand),
      hregular.parse_enclosedIf, ih]
  | nullable h ih =>
    have hregular := h.regular
    rw [parse_print_nullable hregular.toNeat (hregular.sealed id), hregular.parse_enclosedIf, ih]
  | @union members hlength h hflat ih =>
    have hflat' : ∀ m ∈ members, (parse m.print).isUnion = false := by
      intro m hm
      rw [ih m hm, hflat m hm]
    rw [parse_print_union hlength (fun m hm => (h m hm).regular.toNeat)
      (fun m hm => (h m (List.mem_of_mem_dropLast hm)).regular.balanced.net_eq)
      (fun m hm => (h m hm).regular.whole (hflat m hm)) hflat', List.map_congr_left ih,
      List.map_id']
  | iterable n hclass h ih =>
    have hregular := h.regular
    have hcontainer : IsContainer (DocType.named n).print := isContainer_of_body hclass
    rw [parse_print_iterable hcontainer hregular.toNeat hregular.sealed_one
      (exposed_of_not_mem hregular.balanced.not_mem.2 0),
      (isLeaf_container hclass n rfl).parse_print, ih]

/-- **A well-formed type is read back from its text.** -/
theorem ofString_display (t : DocType) (h : WellFormed t) : ofString t.display = t := by
  rw [ofString, display, String.toList_ofList, h.parse_print]

/-- A type in which each operator stands below one that needs brackets around it. -/
def nestedType : DocType :=
  .nullable (.union
    [.array (.union [.named "App\\Foo", .nullable (.special "self")]),
      .array (.nullable (.keyword "array-key")),
      .iterable (.named "\\iterator") (.union [.keyword "int", .named "Bar"])])

theorem wellFormed_nestedType : WellFormed nestedType := by
  have hfoo : WellFormed (.named "App\\Foo") :=
    .named _ (by decide) (by decide) (by decide) (by decide)
  have hbar : WellFormed (.named "Bar") := .named _ (by decide) (by decide) (by decide) (by decide)
  have hself : WellFormed (.nullable (.special "self")) := .nullable (.special _ (by decide))
  have hint : WellFormed (.keyword "int") := .keyword _ (by decide)
  have hkey : WellFormed (.array (.nullable (.keyword "array-key"))) :=
    .array (.nullable (.keyword _ (by decide)))
  have hlist : WellFormed (.array (.union [.named "App\\Foo", .nullable (.special "self")])) :=
    .array (.union (by decide) (by simp [hfoo, hself]) (by simp [isUnion]))
  have hvalues : WellFormed (.union [.keyword "int", .named "Bar"]) :=
    .union (by decide) (by simp [hint, hbar]) (by simp [isUnion])
  have hiterator : WellFormed (.iterable (.named "\\iterator")
      (.union [.keyword "int", .named "Bar"])) := .iterable _ (by decide) hvalues
  exact .nullable (.union (by decide) (by simp [hlist, hkey, hiterator]) (by simp [isUnion]))

theorem ofString_display_nestedType :
    nestedType.display = "?((App\\Foo|?self)[]|(?array-key)[]|\\iterator<int|Bar>)" ∧
      ofString nestedType.display = nestedType :=
  ⟨by decide, ofString_display nestedType wellFormed_nestedType⟩

end DocType
end PhpAtlas
