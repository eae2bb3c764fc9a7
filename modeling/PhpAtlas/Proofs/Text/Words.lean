import PhpAtlas.Proofs.Text.Occurrences

/-!
# Words, items and lines

Texts that are put together from parts with blanks, commas or line feeds between them fall into
these parts again.

## Main definitions

* `Text.Solid` — a text without blanks.
* `Text.behind` — a text with a space in front, if there is any.

## Main results

* `Text.trim_append_space` — the blank in front of a missing part is left out.
* `Text.trimEnd_append_cons`, `Text.count_trim` — only blanks are trimmed.
* `Text.exists_splitOnce?_append` — nothing behind a separator is lost.
* `Text.words_append_space`, `Text.items_join`, `Text.lines_flatMap_concat` — words, the items of a
  list, and lines.
-/

namespace PhpAtlas
namespace Text

variable {a d t : Text}

/-! ### Texts without blanks -/

/-- A text without blanks. -/
def Solid (t : Text) : Prop := ∀ c ∈ t, isBlank c = false

theorem solid_iff : Solid t ↔ t.all (!isBlank ·) = true := by
  simp [Solid, List.all_eq_true]

instance (t : Text) : Decidable (Solid t) := decidable_of_iff _ solid_iff.symm

theorem Solid.tight (h : Solid t) : Tight t :=
  ⟨fun c hc => h c (List.mem_of_head? hc), fun c hc => h c (List.mem_of_getLast? hc)⟩

theorem Solid.cons {c : Char} (hc : isBlank c = false) (ht : Solid t) : Solid (c :: t) :=
  List.forall_mem_cons.2 ⟨hc, ht⟩

theorem Solid.append (ha : Solid a) (hd : Solid d) : Solid (a ++ d) := by
  intro c hc
  rcases List.mem_append.1 hc with hc | hc
  · exact ha c hc
  · exact hd c hc

/-- The text with a space in front, if there is any. -/
def behind (t : Text) : Text := if t.isEmpty then [] else ' ' :: t

theorem behind_of_ne_nil (h : t ≠ []) : behind t = ' ' :: t := by
  rw [behind, if_neg (by simpa using h)]

theorem tight_append_behind (ha : Tight a) (hne : a ≠ []) (hd : Tight d) :
    Tight (a ++ behind d) := by
  cases d with
  | nil => simpa [behind] using ha
  | cons c d =>
    refine ⟨fun e he => ?_, fun e he => ?_⟩
    · rw [List.head?_append_of_ne_nil _ hne] at he
      exact ha.1 e he
    · rw [behind, List.getLast?_append_of_ne_nil _ (by simp)] at he
      exact hd.2 e he

/-- A space in front of a missing description is left out. -/
theorem trim_append_space (ha : Tight a) (hne : a ≠ []) (hd : Tight d) :
    trim (a ++ ' ' :: d) = a ++ behind d := by
  cases d with
  | nil =>
    have hstart : trimStart (a ++ [' ']) = a ++ [' '] := by
      refine dropWhile_of_head fun c hc => ?_
      rw [List.head?_append_of_ne_nil _ hne] at hc
      exact ha.1 c hc
    rw [trim, hstart, trimEnd_append (List.forall_mem_singleton.2 rfl) ha.2]
    exact (List.append_nil a).symm
  | cons c d => exact (tight_append_behind ha hne hd).trim_eq

theorem trimStart_behind (d : Text) : trimStart (behind d) = trimStart d := by
  cases d with
  | nil => rfl
  | cons c d => rfl

theorem trim_behind (hd : Tight d) : trim (behind d) = d := by
  rw [trim, trimStart_behind]
  exact hd.trim_eq

/-! ### Blanks at the end -/

theorem trimEnd_trimEnd (t : Text) : trimEnd (trimEnd t) = trimEnd t := by
  refine dropEndWhile_of_getLast? fun c hc => ?_
  rw [trimEnd, dropEndWhile, List.getLast?_reverse] at hc
  exact head?_dropWhile_not hc

/-- Only what stands behind the last character that is no blank is left out. -/
theorem trimEnd_append_cons {c : Char} (hc : isBlank c = false) (a b : Text) :
    trimEnd (a ++ c :: b) = a ++ c :: trimEnd b := by
  obtain ⟨blanks, hb, hblanks⟩ := exists_trimEnd b
  have hlast : ∀ e ∈ (a ++ c :: trimEnd b).getLast?, isBlank e = false := by
    intro e he
    rw [List.getLast?_append_of_ne_nil _ (by simp), List.getLast?_cons] at he
    obtain rfl := Option.some.inj he
    cases hend : (trimEnd b).getLast? with
    | none => exact hc
    | some e =>
      rw [trimEnd, dropEndWhile, List.getLast?_reverse] at hend
      exact head?_dropWhile_not hend
  have happend : a ++ c :: b = a ++ c :: trimEnd b ++ blanks := by
    rw [List.append_assoc, List.cons_append, ← hb]
  rw [happend, trimEnd_append hblanks hlast]

theorem trimEnd_cons {c : Char} (hc : isBlank c = false) (t : Text) :
    trimEnd (c :: t) = c :: trimEnd t :=
  trimEnd_append_cons hc [] t

theorem mem_of_mem_trimEnd {c : Char} (h : c ∈ trimEnd t) : c ∈ t := by
  obtain ⟨blanks, ht, -⟩ := exists_trimEnd t
  rw [ht]
  exact List.mem_append_left _ h

theorem mem_trimEnd {c : Char} (hc : isBlank c = false) (h : c ∈ t) : c ∈ trimEnd t := by
  obtain ⟨a, b, rfl⟩ := List.append_of_mem h
  rw [trimEnd_append_cons hc]
  simp

theorem trim_concat {c : Char} (hc : isBlank c = true) (t : Text) : trim (t ++ [c]) = trim t := by
  have hend : ∀ x : Text, trimEnd (x ++ [c]) = trimEnd x := by
    intro x
    rw [trimEnd, dropEndWhile, List.reverse_concat, List.dropWhile_cons_of_pos hc]
    rfl
  rw [trim, trimStart, List.dropWhile_append]
  split
  · rename_i hblank
    rw [trim, trimStart, List.isEmpty_iff.1 hblank, List.dropWhile_cons_of_pos hc]
    rfl
  · exact hend _

theorem count_trim {c : Char} (hc : isBlank c = false) (t : Text) :
    (trim t).count c = t.count c := by
  obtain ⟨front, back, ht, hfront, hback⟩ := exists_trim t
  have hzero : ∀ {u : Text}, (∀ x ∈ u, isBlank x = true) → u.count c = 0 := by
    intro u hu
    refine List.count_eq_zero.2 fun hmem => ?_
    rw [hu c hmem] at hc
    cases hc
  conv_rhs => rw [ht]
  rw [List.count_append, List.count_append, hzero hfront, hzero hback, Nat.zero_add, Nat.add_zero]

theorem dropTrailing_of_getLast? {c : Char} (h : t.getLast? ≠ some c) : dropTrailing c t = t := by
  refine dropEndWhile_of_getLast? fun e he => ?_
  rw [beq_eq_false_iff_ne]
  rintro rfl
  exact h he

theorem dropTrailing_concat (c : Char) (t : Text) :
    dropTrailing c (t ++ [c]) = dropTrailing c t := by
  simp [dropTrailing, dropEndWhile]

/-! ### The first separator -/

/-- A text is cut at a separator or before, so that what stands behind it is kept. -/
theorem exists_splitOnce?_append {p : Char → Bool} {c : Char} (hc : p c = true) (a b : Text) :
    ∃ x y, splitOnce? p (a ++ c :: b) = some (x, y ++ b) := by
  induction a with
  | nil => exact ⟨[], [], by simp [splitOnce?, hc]⟩
  | cons d a ih =>
    by_cases hd : p d = true
    · exact ⟨[], a ++ [c], by simp [splitOnce?, hd]⟩
    · obtain ⟨x, y, hsplit⟩ := ih
      exact ⟨d :: x, y, by simp [splitOnce?, hd, hsplit]⟩

theorem splitOnce?_append_of_not_mem {a : Text} {c : Char} (ha : c ∉ a) (b : Text) :
    splitOnce? (· == c) (a ++ c :: b) = some (a, b) := by
  refine splitOnce?_append_cons (fun x hx => ?_) (beq_self_eq_true c)
  rw [beq_eq_false_iff_ne]
  rintro rfl
  exact ha hx

/-! ### Words and items -/

theorem not_of_mem_splitAll {p : Char → Bool} {w : Text} (hw : w ∈ splitAll p t) :
    ∀ c ∈ w, p c = false := by
  induction t generalizing w with
  | nil =>
    rw [List.mem_singleton.1 hw]
    simp
  | cons d t ih =>
    by_cases hd : p d = true
    · rw [splitAll, if_pos hd] at hw
      rcases List.mem_cons.1 hw with rfl | hw
      · simp
      · exact ih hw
    · obtain ⟨v, vs, hsplit⟩ := List.exists_cons_of_ne_nil (splitAll_ne_nil p t)
      rw [hsplit] at ih
      rw [splitAll, if_neg hd, hsplit] at hw
      rcases List.mem_cons.1 hw with rfl | hw
      · exact List.forall_mem_cons.2 ⟨Bool.not_eq_true _ ▸ hd, ih List.mem_cons_self⟩
      · exact ih (List.mem_cons_of_mem _ hw)

theorem solid_of_mem_words {w : Text} (h : w ∈ words t) : Solid w :=
  not_of_mem_splitAll (List.mem_of_mem_filter h)

theorem words_of_solid (h : Solid t) (hne : t ≠ []) : words t = [t] := by
  rw [words, splitAll_of_forall h]
  simp [hne]

theorem words_append_space (a b : Text) : words (a ++ ' ' :: b) = words a ++ words b := by
  rw [words, splitAll_append_cons (by decide), List.filter_append]
  rfl

theorem join_eq_flatMap (c : Char) (sep w : Text) (ws : List Text) :
    join (c :: sep) (w :: ws) = w ++ (ws.map (sep ++ ·)).flatMap (c :: ·) := by
  induction ws generalizing w with
  | nil => exact (List.append_nil w).symm
  | cons v ws ih =>
    rw [join_cons_cons, ih]
    simp

theorem splitAll_join {p : Char → Bool} {c : Char} {sep : Text} (hc : p c = true)
    (hsep : ∀ x ∈ sep, p x = false) {w : Text} {ws : List Text}
    (h : ∀ v ∈ w :: ws, ∀ x ∈ v, p x = false) :
    splitAll p (join (c :: sep) (w :: ws)) = w :: ws.map (sep ++ ·) := by
  obtain ⟨hw, hws⟩ := List.forall_mem_cons.1 h
  have hpieces : ∀ v ∈ w :: ws.map (sep ++ ·), ∀ x ∈ v, p x = false := by
    refine List.forall_mem_cons.2 ⟨hw, List.forall_mem_map.2 fun v hv => ?_⟩
    exact List.forall_mem_append.2 ⟨hsep, hws v hv⟩
  have hsplit := splitAll_flatMap_cons hc hpieces
  rw [List.flatMap_cons, List.cons_append, splitAll, if_pos hc, ← join_eq_flatMap] at hsplit
  exact (List.cons.inj hsplit).2

/-- The items of a list with a comma and a space between neighbours. -/
theorem items_join {ws : List Text} (h : ∀ w ∈ ws, ',' ∉ w) (hne : ∀ w ∈ ws, trim w ≠ []) :
    ((splitAll (· == ',') (join [',', ' '] ws)).map trim).filter (!·.isEmpty) = ws.map trim := by
  cases ws with
  | nil => rfl
  | cons w ws =>
    have hcomma : ∀ v ∈ w :: ws, ∀ x ∈ v, (x == ',') = false := by
      intro v hv x hx
      rw [beq_eq_false_iff_ne]
      rintro rfl
      exact h v hv hx
    have hspace : (ws.map ([' '] ++ ·)).map trim = ws.map trim := by
      rw [List.map_map]
      exact List.map_congr_left fun v _ => rfl
    rw [splitAll_join (by decide) (List.forall_mem_singleton.2 rfl) hcomma, List.map_cons, hspace,
      ← List.map_cons, List.filter_eq_self, List.forall_mem_map]
    intro v hv
    simp [hne v hv]

theorem mem_join {c : Char} {sep : Text} {ws : List Text} (h : c ∈ join sep ws) :
    c ∈ sep ∨ ∃ w ∈ ws, c ∈ w := by
  induction ws with
  | nil => cases h
  | cons w ws ih =>
    cases ws with
    | nil => exact .inr ⟨w, by simp, h⟩
    | cons v ws =>
      rw [join_cons_cons, List.mem_append, List.mem_append] at h
      rcases h with (h | h) | h
      · exact .inr ⟨w, by simp, h⟩
      · exact .inl h
      · refine (ih h).imp_right ?_
        rintro ⟨u, hu, hc⟩
        exact ⟨u, List.mem_cons_of_mem _ hu, hc⟩

theorem mem_join_of_mem {c : Char} {w : Text} (hc : c ∈ w) {ws : List Text} (hw : w ∈ ws)
    (sep : Text) : c ∈ join sep ws := by
  induction ws with
  | nil => cases hw
  | cons v ws ih =>
    cases ws with
    | nil =>
      obtain rfl := List.mem_singleton.1 hw
      exact hc
    | cons u ws =>
      rw [join_cons_cons, List.mem_append, List.mem_append]
      rcases List.mem_cons.1 hw with rfl | hw
      · exact .inl (.inl hc)
      · exact .inr (ih hw)

/-! ### Lines -/

theorem linesOf_concat (ws : List Text) {w : Text} (hw : w ≠ []) :
    linesOf (ws ++ [w]) = ws.map dropReturn ++ [w] := by
  induction ws with
  | nil => simp [linesOf, hw]
  | cons v ws ih =>
    rw [List.cons_append, linesOf, ih]
    · rfl
    · simp

theorem lines_flatMap_concat {ws : List Text} {w : Text} (hw : w ≠ [])
    (h : ∀ v ∈ ws ++ [w], '\n' ∉ v) :
    lines ((ws ++ [w]).flatMap ('\n' :: ·)) = [] :: ws.map dropReturn ++ [w] := by
  have hsplit : splitAll (· == '\n') ((ws ++ [w]).flatMap ('\n' :: ·)) = [] :: (ws ++ [w]) := by
    refine splitAll_flatMap_cons (by decide) fun v hv x hx => ?_
    rw [beq_eq_false_iff_ne]
    rintro rfl
    exact h v hv hx
  rw [lines, hsplit, ← List.cons_append, linesOf_concat _ hw]
  rfl

/-- The carriage return of a line is a blank at its end. -/
theorem trim_dropReturn (w : Text) : trim (dropReturn w) = trim w := by
  cases hstrip : stripEnd? ['\r'] w with
  | none =>
    rw [dropReturn, hstrip]
    rfl
  | some r =>
    rw [dropReturn, hstrip, stripEnd?_eq_some_iff.1 hstrip, trim_concat (by decide)]
    rfl

end Text
end PhpAtlas
