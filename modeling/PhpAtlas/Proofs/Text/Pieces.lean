import Mathlib.Data.List.TakeWhile
import PhpAtlas.Text.Basic

/-!
# Taking texts apart

What the operations on texts find, each said by the way in which the text is put together.

## Main definitions

* `Text.Tight` — a text with no blanks at its ends.

## Main results

* `Text.stripStart?_eq_some_iff`, `Text.stripEnd?_eq_some_iff` — affixes.
* `Text.splitOnce?_eq_some_iff`, `Text.splitOnce?_eq_none_iff` — the first character of a class.
* `Text.mem_splitAll`, `Text.splitAll_append_cons` — segments.
* `Text.exists_trim`, `Text.tight_trim`, `Text.Tight.trim_eq` — trimming.
-/

namespace PhpAtlas
namespace Text

/-! ### Affixes -/

theorem stripStart?_eq_some_iff {front t rest : Text} :
    stripStart? front t = some rest ↔ t = front ++ rest := by
  induction front generalizing t with
  | nil => simp [stripStart?, eq_comm]
  | cons f fs ih =>
    cases t with
    | nil => simp [stripStart?]
    | cons c cs =>
      by_cases hc : f = c
      · subst hc
        simp [stripStart?, ih]
      · simp [stripStart?, hc, Ne.symm hc]

theorem stripStart?_eq_none_iff {front t : Text} :
    stripStart? front t = none ↔ ∀ rest, t ≠ front ++ rest := by
  constructor
  · intro h rest ht
    rw [stripStart?_eq_some_iff.2 ht] at h
    cases h
  · intro h
    cases hstrip : stripStart? front t with
    | none => rfl
    | some rest => exact absurd (stripStart?_eq_some_iff.1 hstrip) (h rest)

theorem stripEnd?_eq_some_iff {back t rest : Text} :
    stripEnd? back t = some rest ↔ t = rest ++ back := by
  rw [stripEnd?, Option.map_eq_some_iff]
  constructor
  · rintro ⟨r, hr, rfl⟩
    have ht := congrArg List.reverse (stripStart?_eq_some_iff.1 hr)
    simpa using ht
  · rintro rfl
    exact ⟨rest.reverse, stripStart?_eq_some_iff.2 (by simp), by simp⟩

theorem stripStart?_eq_none_of_head? {front t : Text} (hne : front ≠ [])
    (h : t.head? ≠ front.head?) : stripStart? front t = none := by
  rw [stripStart?_eq_none_iff]
  rintro rest rfl
  obtain ⟨c, front, rfl⟩ := List.exists_cons_of_ne_nil hne
  exact h rfl

theorem stripEnd?_eq_none_of_getLast? {back t : Text} (hne : back ≠ [])
    (h : t.getLast? ≠ back.getLast?) : stripEnd? back t = none := by
  rw [stripEnd?, stripStart?_eq_none_of_head? (by simpa using hne) (by simpa using h)]
  rfl

/-! ### The first character of a class -/

theorem splitOnce?_eq_none_iff {p : Char → Bool} {t : Text} :
    splitOnce? p t = none ↔ ∀ c ∈ t, p c = false := by
  induction t with
  | nil => simp [splitOnce?]
  | cons c t ih =>
    by_cases hc : p c = true
    · simp [splitOnce?, hc]
    · simp [splitOnce?, hc, ih]

theorem splitOnce?_append_cons {p : Char → Bool} {a b : Text} {c : Char}
    (ha : ∀ x ∈ a, p x = false) (hc : p c = true) :
    splitOnce? p (a ++ c :: b) = some (a, b) := by
  induction a with
  | nil => simp [splitOnce?, hc]
  | cons x a ih =>
    obtain ⟨hx, ha⟩ := List.forall_mem_cons.1 ha
    simp [splitOnce?, hx, ih ha]

theorem splitOnce?_eq_some_iff {p : Char → Bool} {t a b : Text} :
    splitOnce? p t = some (a, b) ↔
      ∃ c, p c = true ∧ (∀ x ∈ a, p x = false) ∧ t = a ++ c :: b := by
  constructor
  · intro h
    induction t generalizing a with
    | nil => simp [splitOnce?] at h
    | cons c t ih =>
      by_cases hc : p c = true
      · simp only [splitOnce?, hc, if_true, Option.some.injEq, Prod.mk.injEq] at h
        obtain ⟨rfl, rfl⟩ := h
        exact ⟨c, hc, by simp, rfl⟩
      · rw [splitOnce?, if_neg hc] at h
        obtain ⟨⟨a', b'⟩, htail, hpair⟩ := Option.map_eq_some_iff.1 h
        obtain ⟨rfl, rfl⟩ := Prod.mk.inj hpair
        obtain ⟨d, hd, ha', rfl⟩ := ih htail
        exact ⟨d, hd, List.forall_mem_cons.2 ⟨Bool.not_eq_true _ ▸ hc, ha'⟩, rfl⟩
  · rintro ⟨c, hc, ha, rfl⟩
    exact splitOnce?_append_cons ha hc

/-! ### Segments -/

theorem splitAll_cons_of_not {p : Char → Bool} {c : Char} (hc : p c = false) (t : Text) :
    ∃ w ws, splitAll p (c :: t) = (c :: w) :: ws := by
  rw [splitAll, if_neg (by simp [hc])]
  split
  · exact ⟨[], [], rfl⟩
  · rename_i w ws _
    exact ⟨w, ws, rfl⟩

theorem splitAll_of_forall {p : Char → Bool} {t : Text} (h : ∀ c ∈ t, p c = false) :
    splitAll p t = [t] := by
  induction t with
  | nil => rfl
  | cons c t ih =>
    obtain ⟨hc, ht⟩ := List.forall_mem_cons.1 h
    rw [splitAll, ih ht]
    simp [hc]

theorem mem_splitAll {p : Char → Bool} {t : Text} {c : Char} (hc : c ∈ t) :
    p c = true ∨ ∃ w ∈ splitAll p t, c ∈ w := by
  induction t with
  | nil => cases hc
  | cons d t ih =>
    by_cases hd : p d = true
    · rw [splitAll, if_pos hd]
      rcases List.mem_cons.1 hc with rfl | hc
      · exact .inl hd
      · exact (ih hc).imp_right fun ⟨w, hw, hcw⟩ => ⟨w, List.mem_cons_of_mem _ hw, hcw⟩
    · rw [splitAll, if_neg hd]
      cases hsplit : splitAll p t with
      | nil =>
        rw [hsplit] at ih
        rcases List.mem_cons.1 hc with rfl | hc
        · exact .inr ⟨[c], by simp, by simp⟩
        · exact (ih hc).imp_right fun ⟨w, hw, _⟩ => nomatch hw
      | cons v vs =>
        rw [hsplit] at ih
        rcases List.mem_cons.1 hc with rfl | hc
        · exact .inr ⟨c :: v, by simp, by simp⟩
        · refine (ih hc).imp_right fun ⟨w, hw, hcw⟩ => ?_
          rcases List.mem_cons.1 hw with rfl | hw
          · exact ⟨d :: w, by simp, List.mem_cons_of_mem _ hcw⟩
          · exact ⟨w, List.mem_cons_of_mem _ hw, hcw⟩

theorem splitAll_ne_nil (p : Char → Bool) (t : Text) : splitAll p t ≠ [] := by
  cases t with
  | nil => exact List.cons_ne_nil _ _
  | cons c t =>
    unfold splitAll
    split
    · exact List.cons_ne_nil _ _
    · split <;> exact List.cons_ne_nil _ _

theorem splitAll_append_cons {p : Char → Bool} {c : Char} (hc : p c = true) (a b : Text) :
    splitAll p (a ++ c :: b) = splitAll p a ++ splitAll p b := by
  induction a with
  | nil => simp [splitAll, hc]
  | cons d a ih =>
    by_cases hd : p d = true
    · simp [splitAll, hd, ih]
    · obtain ⟨w, ws, hsplit⟩ := List.exists_cons_of_ne_nil (splitAll_ne_nil p a)
      simp [splitAll, hd, ih, hsplit]

theorem join_cons_cons (sep w v : Text) (ws : List Text) :
    join sep (w :: v :: ws) = w ++ sep ++ join sep (v :: ws) := rfl

/-- Segments that each stand behind a separator are found behind an empty one. -/
theorem splitAll_flatMap_cons {p : Char → Bool} {c : Char} (hc : p c = true) {ws : List Text}
    (h : ∀ w ∈ ws, ∀ x ∈ w, p x = false) : splitAll p (ws.flatMap (c :: ·)) = [] :: ws := by
  induction ws with
  | nil => rfl
  | cons w ws ih =>
    obtain ⟨hw, hws⟩ := List.forall_mem_cons.1 h
    have ih := ih hws
    rw [List.flatMap_cons, List.cons_append, splitAll, if_pos hc]
    cases ws with
    | nil => rw [List.flatMap_nil, List.append_nil, splitAll_of_forall hw]
    | cons v ws =>
      rw [List.flatMap_cons, List.cons_append, splitAll, if_pos hc] at ih
      rw [List.flatMap_cons, List.cons_append, splitAll_append_cons hc, splitAll_of_forall hw,
        (List.cons.inj ih).2]
      rfl

/-! ### Trimming -/

/-- No blanks at the ends. -/
def Tight (t : Text) : Prop :=
  (∀ c ∈ t.head?, isBlank c = false) ∧ ∀ c ∈ t.getLast?, isBlank c = false

theorem dropWhile_of_head {p : Char → Bool} {t : Text} (h : ∀ c ∈ t.head?, p c = false) :
    t.dropWhile p = t := by
  cases t with
  | nil => rfl
  | cons c t => simp [h c (by simp)]

theorem dropEndWhile_of_getLast? {p : Char → Bool} {t : Text}
    (h : ∀ c ∈ t.getLast?, p c = false) : dropEndWhile p t = t := by
  rw [dropEndWhile, dropWhile_of_head, List.reverse_reverse]
  intro c hc
  rw [List.head?_reverse] at hc
  exact h c hc

theorem Tight.trim_eq {t : Text} (h : Tight t) : trim t = t := by
  rw [trim, trimStart, dropWhile_of_head h.1, trimEnd, dropEndWhile_of_getLast? h.2]

theorem dropEndWhile_append_takeWhile (p : Char → Bool) (t : Text) :
    dropEndWhile p t ++ (t.reverse.takeWhile p).reverse = t := by
  rw [dropEndWhile, ← List.reverse_append, List.takeWhile_append_dropWhile, List.reverse_reverse]

/-- A text is its trimmed form between blanks. -/
theorem exists_trim (t : Text) : ∃ front back, t = front ++ trim t ++ back ∧
    (∀ c ∈ front, isBlank c = true) ∧ ∀ c ∈ back, isBlank c = true := by
  refine ⟨t.takeWhile isBlank, ((trimStart t).reverse.takeWhile isBlank).reverse, ?_, ?_, ?_⟩
  · rw [List.append_assoc, trim, trimEnd, dropEndWhile_append_takeWhile, trimStart,
      List.takeWhile_append_dropWhile]
  · intro c hc
    exact List.mem_takeWhile_imp hc
  · intro c hc
    exact List.mem_takeWhile_imp (List.mem_reverse.1 hc)

theorem head?_dropWhile_not {p : Char → Bool} {t : Text} {c : Char}
    (h : (t.dropWhile p).head? = some c) : p c = false := by
  have hnot := List.head?_dropWhile_not p t
  rw [h] at hnot
  simpa using hnot

theorem head?_trimStart_of_trim {t : Text} {c : Char} (h : (trim t).head? = some c) :
    (trimStart t).head? = some c := by
  rw [← dropEndWhile_append_takeWhile isBlank (trimStart t), List.head?_append]
  exact Option.or_eq_some_iff.2 (.inl h)

theorem tight_trim (t : Text) : Tight (trim t) := by
  constructor
  · intro c hc
    exact head?_dropWhile_not (head?_trimStart_of_trim hc)
  · intro c hc
    rw [trim, trimEnd, dropEndWhile, List.getLast?_reverse] at hc
    exact head?_dropWhile_not hc

theorem tight_of_trim {t : Text} (h : trim t = t) : Tight t := h ▸ tight_trim t

theorem tight_append_cons {a b : Text} {c : Char} (ha : Tight a) (hc : isBlank c = false)
    (hb : Tight b) : Tight (a ++ c :: b) := by
  constructor
  · intro d hd
    rw [List.head?_append] at hd
    rcases Option.or_eq_some_iff.1 hd with hd | ⟨-, hd⟩
    · exact ha.1 d hd
    · obtain rfl := Option.some.inj hd
      exact hc
  · intro d hd
    rw [List.getLast?_append, List.getLast?_cons, Option.some_or] at hd
    obtain rfl := Option.some.inj hd
    cases hlast : b.getLast? with
    | none => exact hc
    | some e => exact hb.2 e hlast

theorem tight_of_ends {t : Text} {c d : Char} (hhead : t.head? = some c)
    (hlast : t.getLast? = some d) (hc : isBlank c = false) (hd : isBlank d = false) : Tight t := by
  constructor
  · intro e he
    obtain rfl := Option.some.inj (hhead.symm.trans he)
    exact hc
  · intro e he
    obtain rfl := Option.some.inj (hlast.symm.trans he)
    exact hd

theorem tight_nil : Tight [] := ⟨fun _ h => (nomatch h), fun _ h => (nomatch h)⟩

theorem tight_cons {c : Char} {t : Text} (hc : isBlank c = false) (ht : Tight t) : Tight (c :: t) :=
  tight_append_cons tight_nil hc ht

end Text
end PhpAtlas
