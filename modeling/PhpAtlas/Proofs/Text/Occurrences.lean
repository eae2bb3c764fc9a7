import Mathlib.Data.List.Infix
import PhpAtlas.Proofs.Text.Pieces

/-!
# Occurrences of one text in another

The last occurrence of a text is found from the end, so that nothing of it begins behind the start
of what is found.  The first occurrence ends a front part in which it does not occur earlier.

## Main results

* `Text.startsWith_iff`, `Text.endsWith_iff` — affixes as relations.
* `Text.splitLast?_eq_some_iff`, `Text.splitLast?_eq_none_iff` — the last occurrence.
* `Text.exists_first` — the first occurrence.
* `Text.trimEnd_append`, `Text.exists_trimEnd` — blanks at the end.
-/

namespace PhpAtlas
namespace Text

variable {needle t a b : Text}

/-! ### Affixes -/

theorem startsWith_iff : startsWith needle t = true ↔ needle <+: t := by
  rw [startsWith, Option.isSome_iff_exists]
  simp only [stripStart?_eq_some_iff]
  exact exists_congr fun _ => eq_comm

theorem endsWith_iff : endsWith needle t = true ↔ needle <:+ t := by
  rw [endsWith, Option.isSome_iff_exists]
  simp only [stripEnd?_eq_some_iff]
  exact exists_congr fun _ => eq_comm

/-! ### The last occurrence -/

theorem splitLast?_eq_none_iff (hne : needle ≠ []) :
    splitLast? needle t = none ↔ ¬needle <:+: t := by
  induction t with
  | nil => simp [splitLast?, hne]
  | cons c t ih =>
    rw [splitLast?, List.infix_cons_iff, not_or, ← ih, ← startsWith_iff]
    cases splitLast? needle t with
    | none => simp
    | some pair => simp

/-- The last occurrence: none begins behind the start of what is found. -/
theorem splitLast?_eq_some_iff (hne : needle ≠ []) :
    splitLast? needle t = some (a, b) ↔ t = a ++ b ∧ needle <+: b ∧ ¬needle <:+: b.tail := by
  induction t generalizing a b with
  | nil =>
    have hnone : splitLast? needle [] = none := by simp [splitLast?, hne]
    rw [hnone]
    refine ⟨nofun, fun ⟨ht, hstart, _⟩ => ?_⟩
    obtain ⟨rfl, rfl⟩ := List.append_eq_nil_iff.1 ht.symm
    exact absurd (List.prefix_nil.1 hstart) hne
  | cons c t ih =>
    rw [splitLast?]
    cases hlast : splitLast? needle t with
    | none =>
      -- no occurrence begins behind the first character
      have hnone := (splitLast?_eq_none_iff hne).1 hlast
      dsimp only
      constructor
      · intro h
        split at h
        · rename_i hstart
          obtain ⟨rfl, rfl⟩ := Prod.mk.inj (Option.some.inj h)
          exact ⟨rfl, startsWith_iff.1 hstart, hnone⟩
        · cases h
      · rintro ⟨ht, hstart, -⟩
        cases a with
        | nil =>
          obtain rfl : c :: t = b := ht
          rw [if_pos (startsWith_iff.2 hstart)]
        | cons d a =>
          obtain ⟨-, rfl⟩ := List.cons.inj ht
          exact absurd (hstart.isInfix.trans (List.suffix_append a b).isInfix) hnone
    | some pair =>
      obtain ⟨a', b'⟩ := pair
      obtain ⟨rfl, hstart', hnone'⟩ := ih.1 hlast
      dsimp only
      constructor
      · intro h
        obtain ⟨rfl, rfl⟩ := Prod.mk.inj (Option.some.inj h)
        exact ⟨rfl, hstart', hnone'⟩
      · rintro ⟨ht, hstart, hnone⟩
        cases a with
        | nil =>
          obtain rfl : c :: (a' ++ b') = b := ht
          exact absurd (hstart'.isInfix.trans (List.suffix_append a' b').isInfix) hnone
        | cons d a =>
          obtain ⟨rfl, htail⟩ := List.cons.inj ht
          have hsame := hlast.symm.trans (ih.2 ⟨htail, hstart, hnone⟩)
          obtain ⟨rfl, rfl⟩ := Prod.mk.inj (Option.some.inj hsame)
          rfl

/-! ### The first occurrence -/

/-- The part up to the end of the first occurrence has no other one, not even up to its last
character. -/
theorem exists_first (hne : needle ≠ []) (h : needle <:+: t) :
    ∃ front rest, t = front ++ rest ∧ needle <:+ front ∧ ¬needle <:+: front.dropLast := by
  induction t using List.reverseRecOn with
  | nil => exact absurd (List.infix_nil.1 h) hne
  | append_singleton t c ih =>
    by_cases hearlier : needle <:+: t
    · obtain ⟨front, rest, rfl, hfront⟩ := ih hearlier
      exact ⟨front, rest ++ [c], List.append_assoc .., hfront⟩
    · refine ⟨t ++ [c], [], (List.append_nil _).symm, ?_, ?_⟩
      · exact (List.infix_concat_iff.1 h).resolve_right hearlier
      · rwa [List.dropLast_concat]

/-! ### Blanks at the end -/

theorem exists_trimEnd (t : Text) :
    ∃ blanks, t = trimEnd t ++ blanks ∧ ∀ c ∈ blanks, isBlank c = true := by
  refine ⟨(t.reverse.takeWhile isBlank).reverse, ?_, fun c hc => ?_⟩
  · exact (dropEndWhile_append_takeWhile isBlank t).symm
  · exact List.mem_takeWhile_imp (List.mem_reverse.1 hc)

theorem trimEnd_append {blanks : Text} (hblanks : ∀ c ∈ blanks, isBlank c = true)
    (ht : ∀ c ∈ t.getLast?, isBlank c = false) : trimEnd (t ++ blanks) = t := by
  have hend : ∀ c ∈ t.reverse.head?, isBlank c = false := by
    intro c hc
    rw [List.head?_reverse] at hc
    exact ht c hc
  rw [trimEnd, dropEndWhile, List.reverse_append, List.dropWhile_append_of_pos,
    dropWhile_of_head hend, List.reverse_reverse]
  intro c hc
  exact hblanks c (List.mem_reverse.1 hc)

end Text
end PhpAtlas
