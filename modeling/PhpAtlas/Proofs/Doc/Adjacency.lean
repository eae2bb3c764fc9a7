import PhpAtlas.Deduction.Annotation
import PhpAtlas.Proofs.Scope.Names
import PhpAtlas.Proofs.Text.Occurrences
import PhpAtlas.Store.Basic

/-!
# The comment directly above a statement

An inline annotation is looked for backwards from an offset: over blanks to the end of a comment,
and from there to the last start of a documentation comment.  What is found always stands directly
in front of the offset.  It is one comment exactly when a documentation comment ends there.  When a
plain comment ends there, the search goes on to an earlier documentation comment and takes the code
in between with it.

## Main results

* `inlineComment?_eq_some_iff` — what is found, for all texts and offsets.
* `oneComment_iff_stands` — it is one comment when one stands in front of the offset.
* `not_oneComment_iff_overruns` — otherwise it is an earlier comment with what stands behind it.
* `inlineComment?_stands_directly` — all of this, and what it says about annotations.
* `not_forall_inlineComment?_one` — the text found need not be one comment.
-/

namespace PhpAtlas

open Text

/-- How a documentation comment begins. -/
def opener : Text := ['/', '*', '*']

/-- How a comment ends. -/
def closer : Text := ['*', '/']

/-- One documentation comment, which ends with the first end of a comment in it. -/
def OneComment (text : Text) : Prop :=
  opener <+: text ∧ closer <:+ text ∧ ¬closer <:+: text.dropLast

instance (text : Text) : Decidable (OneComment text) :=
  inferInstanceAs (Decidable (_ ∧ _ ∧ ¬_))

/-- One documentation comment and something behind it that ends like a comment, but in which no
documentation comment begins. -/
def Overruns (text : Text) : Prop :=
  ∃ doc code, text = doc ++ code ∧ OneComment doc ∧ closer <:+ code ∧ ¬opener <:+: code

/-- Behind `front` stands the text, and behind the text only blanks up to the offset. -/
def StandsBefore (source : Text) (offset : Nat) (front text : Text) : Prop :=
  ∃ blanks rest, source = front ++ text ++ blanks ++ rest ∧
    byteLength (front ++ text ++ blanks) = offset ∧ ∀ c ∈ blanks, isBlank c = true

/-- What stands behind this text has only ASCII blanks in front of it on its line. -/
def StartsLine (front : Text) : Prop :=
  ∃ above indent, front = above ++ indent ∧ (∀ c ∈ above.getLast?, c = '\n') ∧
    ∀ c ∈ indent, isAsciiBlank c = true

variable {source front text : Text} {offset start : Nat}

/-! ### What is found -/

theorem isBlank_of_closer (hend : closer <:+ text) : ∀ c ∈ text.getLast?, isBlank c = false := by
  obtain ⟨t, rfl⟩ := hend
  intro c hc
  rw [closer, List.getLast?_append_of_ne_nil _ (List.cons_ne_nil _ _)] at hc
  obtain rfl := Option.some.inj hc
  decide

/-- A text that ends like a comment stands in front of the offset when the trimmed text up to there
ends with it. -/
theorem standsBefore_iff (hend : closer <:+ text) : StandsBefore source offset front text ↔
    ∃ before rest, splitAtByte? offset source = some (before, rest) ∧
      trimEnd before = front ++ text := by
  constructor
  · rintro ⟨blanks, rest, hsource, hoffset, hblanks⟩
    refine ⟨front ++ text ++ blanks, rest, splitAtByte?_eq_some_iff.2 ⟨hsource, hoffset⟩, ?_⟩
    exact trimEnd_append hblanks (isBlank_of_closer (hend.trans (List.suffix_append front text)))
  · rintro ⟨before, rest, hcut, htrim⟩
    obtain ⟨hsource, hoffset⟩ := splitAtByte?_eq_some_iff.1 hcut
    obtain ⟨blanks, hbefore, hblanks⟩ := exists_trimEnd before
    rw [htrim] at hbefore
    exact ⟨blanks, rest, hbefore ▸ hsource, hbefore ▸ hoffset, hblanks⟩

/-- An end of a comment behind its start. -/
theorem closer_of_append (hstart : opener <+: text) (hend : closer <:+ front ++ text) :
    closer <:+ text := by
  refine List.suffix_of_suffix_length_le hend (List.suffix_append front text) ?_
  exact le_trans (by decide) hstart.length_le

theorem startsLine_iff :
    StartsLine front ↔ (front.reverse.takeWhile (· != '\n')).all isAsciiBlank = true := by
  rw [List.all_eq_true]
  constructor
  · rintro ⟨above, indent, rfl, habove, hindent⟩ c hc
    -- the line ends in `above` at the latest, whose last character is a line feed
    have hline : above.reverse.takeWhile (· != '\n') = [] := by
      rw [List.takeWhile_eq_nil_iff]
      intro hlength
      have hlast : above.reverse[0] ∈ above.getLast? := by
        rw [← List.head?_reverse, List.head?_eq_getElem?, List.getElem?_eq_getElem hlength]
        rfl
      simp [habove _ hlast]
    rw [List.reverse_append, List.takeWhile_append, hline, List.append_nil] at hc
    split at hc
    · exact hindent c (List.mem_reverse.1 hc)
    · exact hindent c (List.mem_reverse.1 (List.takeWhile_subset _ hc))
  · intro h
    refine ⟨dropEndWhile (· != '\n') front, (front.reverse.takeWhile (· != '\n')).reverse,
      (dropEndWhile_append_takeWhile _ front).symm, fun c hc => ?_, fun c hc => ?_⟩
    · rw [dropEndWhile, List.getLast?_reverse] at hc
      simpa using head?_dropWhile_not hc
    · exact h c (List.mem_reverse.1 hc)

/-- The text found begins with the last start of a documentation comment and stands directly in
front of the offset, alone on its lines. -/
theorem inlineComment?_eq_some_iff : inlineComment? source offset = some (text, start) ↔
    ∃ front, byteLength front = start ∧ StandsBefore source offset front text ∧
      opener <+: text ∧ closer <:+ text ∧ ¬opener <:+: text.tail ∧ StartsLine front := by
  have hopener : opener ≠ [] := List.cons_ne_nil _ _
  constructor
  · intro h
    rw [inlineComment?] at h
    split at h
    · cases h
    rename_i before rest hcut
    dsimp only at h
    split at h
    · rename_i hends
      split at h
      · cases h
      rename_i front comment hlast
      split at h
      · rename_i hline
        obtain ⟨rfl, rfl⟩ := Prod.mk.inj (Option.some.inj h)
        obtain ⟨htrim, hstart, hrest⟩ := (splitLast?_eq_some_iff hopener).1 hlast
        have hend : closer <:+ comment := closer_of_append hstart (htrim ▸ endsWith_iff.1 hends)
        exact ⟨front, rfl, (standsBefore_iff hend).2 ⟨before, rest, hcut, htrim⟩, hstart, hend,
          hrest, startsLine_iff.2 hline⟩
      · cases h
    · cases h
  · rintro ⟨front, rfl, hstands, hstart, hend, hlast, hline⟩
    obtain ⟨before, rest, hcut, htrim⟩ := (standsBefore_iff hend).1 hstands
    have hends : endsWith closer (front ++ text) = true :=
      endsWith_iff.2 (hend.trans (List.suffix_append front text))
    have hsplit : splitLast? opener (front ++ text) = some (front, text) :=
      (splitLast?_eq_some_iff hopener).2 ⟨rfl, hstart, hlast⟩
    rw [opener] at hsplit
    rw [closer] at hends
    rw [inlineComment?, hcut]
    dsimp only
    rw [htrim, if_pos hends, hsplit]
    dsimp only
    rw [if_pos (startsLine_iff.1 hline)]

/-! ### One comment or more -/

/-- A suffix of one comment that begins like one is one. -/
theorem OneComment.of_suffix {doc : Text} (h : OneComment doc) (hsuffix : text <:+ doc)
    (hstart : opener <+: text) : OneComment text := by
  obtain ⟨t, rfl⟩ := hsuffix
  obtain ⟨-, hend, honce⟩ := h
  have hne : text ≠ [] := hstart.ne_nil (List.cons_ne_nil _ _)
  rw [List.dropLast_append_of_ne_nil hne] at honce
  refine ⟨hstart, closer_of_append hstart hend, fun hinner => honce ?_⟩
  exact hinner.trans (List.suffix_append t text.dropLast).isInfix

/-- The text found is one comment when one stands in front of the offset. -/
theorem oneComment_iff_stands (h : inlineComment? source offset = some (text, start)) :
    OneComment text ↔ ∃ front doc, StandsBefore source offset front doc ∧ OneComment doc := by
  obtain ⟨front, -, hstands, hstart, hend, hlast, -⟩ := inlineComment?_eq_some_iff.1 h
  refine ⟨fun hone => ⟨front, text, hstands, hone⟩, ?_⟩
  rintro ⟨front', doc, hdoc, hone⟩
  obtain ⟨before, rest, hcut, htrim⟩ := (standsBefore_iff hend).1 hstands
  obtain ⟨before', rest', hcut', htrim'⟩ := (standsBefore_iff hone.2.1).1 hdoc
  obtain ⟨rfl, rfl⟩ := Prod.mk.inj (Option.some.inj (hcut.symm.trans hcut'))
  -- both end the same text, so one ends the other
  have htext : text <:+ trimEnd before := htrim ▸ List.suffix_append front text
  have hsame : doc <:+ trimEnd before := htrim' ▸ List.suffix_append front' doc
  rcases List.suffix_or_suffix_of_suffix htext hsame with hinner | houter
  · exact hone.of_suffix hinner hstart
  · cases text with
    | nil => exact absurd (List.prefix_nil.1 hstart) (List.cons_ne_nil _ _)
    | cons c tail =>
      rcases List.suffix_cons_iff.1 houter with rfl | htail
      · exact hone
      · exact absurd (hone.1.isInfix.trans htail.isInfix) hlast

/-- What begins and ends like a comment is one, or the search went over an earlier one. -/
theorem not_oneComment_iff_overruns (hstart : opener <+: text) (hend : closer <:+ text)
    (hlast : ¬opener <:+: text.tail) : ¬OneComment text ↔ Overruns text := by
  constructor
  · intro hnot
    obtain ⟨doc, code, rfl, hdoc, honce⟩ := exists_first (List.cons_ne_nil _ _) hend.isInfix
    -- the first end of a comment cannot lie in the start of the text
    have hlength : opener.length ≤ doc.length := by
      obtain ⟨t, rfl⟩ := hdoc
      cases t with
      | nil => exact absurd (List.cons_prefix_cons.1 hstart).1 (by decide)
      | cons c t => simp [opener]
    have hfirst : OneComment doc :=
      ⟨List.prefix_of_prefix_length_le hstart (List.prefix_append doc code) hlength, hdoc, honce⟩
    have hcode : closer <:+ code := by
      match code with
      | [] => exact absurd (by rwa [List.append_nil]) hnot
      | [c] =>
        obtain ⟨t, rfl⟩ := hdoc
        obtain ⟨u, hu⟩ := hend
        have hback := congrArg List.reverse hu
        simp [closer] at hback
      | _ :: _ :: rest =>
        exact List.suffix_of_suffix_length_le hend (List.suffix_append ..) (Nat.le_add_left ..)
    refine ⟨doc, code, rfl, hfirst, hcode, fun hinner => hlast (hinner.trans ?_)⟩
    rw [List.tail_append_of_ne_nil (hdoc.ne_nil (List.cons_ne_nil _ _))]
    exact (List.suffix_append doc.tail code).isInfix
  · rintro ⟨doc, code, rfl, ⟨-, hdoc, -⟩, hcode, -⟩ ⟨-, -, honce⟩
    have hne : code ≠ [] := hcode.ne_nil (List.cons_ne_nil _ _)
    rw [List.dropLast_append_of_ne_nil hne] at honce
    exact honce (hdoc.isInfix.trans (List.prefix_append doc _).isInfix)

/-! ### Annotations -/

namespace Lookup

/-- Some reading of the annotation in front of the offset has an effect: at the position of the
look-up, at a statement, or at an assignment. -/
def TakesEffect (l : Lookup) (offset : Nat) : Prop :=
  (∃ p scopeStart types, p.offset = offset ∧ l.override p scopeStart types ≠ types) ∨
    (∃ conditional types, l.annotate offset conditional types ≠ types) ∨
      l.annotation? offset ≠ none

theorem TakesEffect.exists_comment {l : Lookup} (h : l.TakesEffect offset) :
    ∃ text start, inlineComment? l.site.doc.text offset = some (text, start) := by
  by_contra hnone
  have hcomment : inlineComment? l.site.doc.text offset = none :=
    Option.eq_none_iff_forall_ne_some.2 fun pair hpair => hnone ⟨pair.1, pair.2, hpair⟩
  have hnamed : l.namedAnnotation? offset = none := by
    rw [namedAnnotation?, hcomment]
    rfl
  rcases h with ⟨p, scopeStart, types, rfl, heffect⟩ | ⟨conditional, types, heffect⟩ | heffect
  · apply heffect
    rw [override, hcomment]
  · apply heffect
    rw [annotate, hnamed]
  · apply heffect
    rw [annotation?, hcomment]
    rfl

end Lookup

/-- What is found in front of an offset is a text of the source that begins and ends like a
documentation comment and from which only blanks lead to the offset.  It is one comment exactly
when one ends there; otherwise code and a plain comment follow the comment in it.  An annotation
takes effect only from such a text. -/
theorem inlineComment?_stands_directly (source : Text) (offset : Nat) :
    (∀ text start, inlineComment? source offset = some (text, start) ↔
      ∃ front, byteLength front = start ∧ StandsBefore source offset front text ∧
        opener <+: text ∧ closer <:+ text ∧ ¬opener <:+: text.tail ∧ StartsLine front) ∧
    (∀ text start, inlineComment? source offset = some (text, start) →
      (OneComment text ↔ ∃ front doc, StandsBefore source offset front doc ∧ OneComment doc) ∧
        (¬OneComment text ↔ Overruns text)) ∧
    ∀ l : Lookup, l.site.doc.text = source → l.TakesEffect offset →
      ∃ front text, StandsBefore source offset front text ∧ (OneComment text ∨ Overruns text) := by
  refine ⟨fun text start => inlineComment?_eq_some_iff, fun text start h => ?_, ?_⟩
  · obtain ⟨front, -, -, hstart, hend, hlast, -⟩ := inlineComment?_eq_some_iff.1 h
    exact ⟨oneComment_iff_stands h, not_oneComment_iff_overruns hstart hend hlast⟩
  · rintro l rfl heffect
    obtain ⟨text, start, h⟩ := heffect.exists_comment
    obtain ⟨front, -, hstands, hstart, hend, hlast, -⟩ := inlineComment?_eq_some_iff.1 h
    refine ⟨front, text, hstands, or_iff_not_imp_left.2 ?_⟩
    exact (not_oneComment_iff_overruns hstart hend hlast).1

/-- Code and a plain comment stand between an annotation and a statement. -/
def overrunDocument : Document :=
  .ofSource "a.php" "<?php\n/** @var B $x */ f(); /* c */ $x;"

/-- The look-up of the variable in a project without other files. -/
def overrunLookup : Lookup :=
  ⟨Tables.empty.knows, ⟨overrunDocument, overrunDocument.scopes, none⟩, "$x", fun _ _ => none⟩

/-- The annotation takes effect, as what is found reaches back over the code. -/
theorem inlineComment?_stands_directly_overrun :
    inlineComment? overrunDocument.text 36 = some ("/** @var B $x */ f(); /* c */".toList, 6) ∧
      Overruns "/** @var B $x */ f(); /* c */".toList ∧ overrunLookup.TakesEffect 36 ∧
      ∃ front text, StandsBefore overrunDocument.text 36 front text ∧
        (OneComment text ∨ Overruns text) := by
  obtain ⟨-, hfound, heffect⟩ := inlineComment?_stands_directly overrunDocument.text 36
  have hcomment : inlineComment? overrunDocument.text 36 =
      some ("/** @var B $x */ f(); /* c */".toList, 6) := by
    decide +kernel
  have htakes : overrunLookup.TakesEffect 36 := by
    refine .inr (.inr (Option.isSome_iff_ne_none.1 ?_))
    decide +kernel
  exact ⟨hcomment, (hfound _ _ hcomment).2.1 (by decide +kernel), htakes,
    heffect overrunLookup rfl htakes⟩

/-- The text that is found need not be one comment. -/
theorem not_forall_inlineComment?_one :
    ¬ ∀ source offset text start, inlineComment? source offset = some (text, start) →
      OneComment text := by
  intro h
  have hone := h "/** a */ b; /* c */".toList 19 "/** a */ b; /* c */".toList 0 (by decide +kernel)
  exact absurd hone (by decide +kernel)

end PhpAtlas
