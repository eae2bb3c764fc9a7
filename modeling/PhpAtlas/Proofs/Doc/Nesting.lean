import PhpAtlas.Doc.TypeExpr
import PhpAtlas.Proofs.Text.Pieces

/-!
# Brackets and separators of a text

A text is cut at the separators that stand outside of all brackets.  Where a text is put between
others, what counts is how deep it starts and how much deeper it ends, and at which depths one of
its separators would be outside.

## Main definitions

* `Text.net` — how much deeper the nesting is behind a text than in front of it.
* `Text.exposed` — whether a separator is outside of all brackets.
* `Text.Within` — a piece of a text, with the depth at which it starts.

## Main results

* `Text.Within.not_exposed` — what is not outside in a text is not so in a piece.
* `splitOuter_cases` — what cutting a text does.
* `within_of_mem_outerParts` — the parts of a text are pieces of it.
* `outerParts_join` — the parts of a text that was joined are what was joined.
-/

namespace PhpAtlas
namespace Text

/-! ### Depth -/

/-- How much deeper the nesting is behind a text than in front of it. -/
def net : Text → Int
  | [] => 0
  | c :: cs => nesting c + net cs

@[simp] theorem net_nil : net [] = 0 := rfl

@[simp] theorem net_cons (c : Char) (t : Text) : net (c :: t) = nesting c + net t := rfl

@[simp] theorem net_append (a b : Text) : net (a ++ b) = net a + net b := by
  induction a with
  | nil => simp
  | cons c a ih =>
    rw [List.cons_append, net_cons, net_cons, ih]
    omega

/-- Whether a separator is outside of all brackets, when the text starts at the given depth. -/
def exposed (sep : Char) : (depth : Int) → Text → Bool
  | _, [] => false
  | depth, c :: cs =>
      (c == sep && nesting c == 0 && depth == 0) || exposed sep (depth + nesting c) cs

@[simp] theorem exposed_nil (sep : Char) (depth : Int) : exposed sep depth [] = false := rfl

theorem exposed_cons (sep : Char) (depth : Int) (c : Char) (t : Text) :
    exposed sep depth (c :: t) =
      ((c == sep && nesting c == 0 && depth == 0) || exposed sep (depth + nesting c) t) := rfl

theorem exposed_append (sep : Char) (depth : Int) (a b : Text) :
    exposed sep depth (a ++ b) = (exposed sep depth a || exposed sep (depth + net a) b) := by
  induction a generalizing depth with
  | nil => simp
  | cons c a ih =>
    rw [List.cons_append, exposed_cons, exposed_cons, ih, net_cons, Bool.or_assoc, Int.add_assoc]

/-- A character that is no separator matters only by its brackets. -/
theorem exposed_cons_of_ne {sep c : Char} (h : c ≠ sep) (depth : Int) (t : Text) :
    exposed sep depth (c :: t) = exposed sep (depth + nesting c) t := by
  simp [exposed_cons, h]

theorem exposed_of_not_mem {sep : Char} {t : Text} (h : sep ∉ t) (depth : Int) :
    exposed sep depth t = false := by
  induction t generalizing depth with
  | nil => rfl
  | cons c t ih =>
    obtain ⟨hc, ht⟩ := not_or.1 (List.mem_cons.not.1 h)
    rw [exposed_cons_of_ne (Ne.symm hc), ih ht]

/-- A text in round brackets. -/
def bracket (t : Text) : Text := '(' :: t ++ [')']

theorem exposed_bracket {sep : Char} (hopen : '(' ≠ sep) (hclose : ')' ≠ sep) (depth : Int)
    (t : Text) : exposed sep depth (bracket t) = exposed sep (depth + 1) t := by
  rw [bracket, exposed_append, exposed_cons_of_ne hopen, exposed_of_not_mem (t := [')'])]
  · exact Bool.or_false _
  · simpa using Ne.symm hclose

/-- Brackets around a text, where they are needed. -/
def enclosedIf (needed : Bool) (t : Text) : Text := if needed then bracket t else t

theorem nesting_of_isBlank {c : Char} (h : isBlank c = true) : nesting c = 0 := by
  have hne : ∀ d : Char, isBlank d = false → c ≠ d := by
    rintro d hd rfl
    rw [h] at hd
    cases hd
  simp [nesting, hne '<' (by decide), hne '>' (by decide), hne '(' (by decide), hne ')' (by decide),
    hne '[' (by decide), hne ']' (by decide), hne '\x7b' (by decide), hne '\x7d' (by decide)]

theorem net_of_forall {t : Text} (h : ∀ c ∈ t, nesting c = 0) : net t = 0 := by
  induction t with
  | nil => rfl
  | cons c t ih =>
    obtain ⟨hc, ht⟩ := List.forall_mem_cons.1 h
    rw [net_cons, hc, ih ht]
    rfl

/-! ### Pieces of a text -/

/-- `piece` is a part of `t` that starts `depth` levels deep. -/
def Within (depth : Int) (t piece : Text) : Prop :=
  ∃ front back, t = front ++ piece ++ back ∧ net front = depth

theorem within_self (t : Text) : Within 0 t t := ⟨[], [], by simp, rfl⟩

theorem within_start (piece back : Text) : Within 0 (piece ++ back) piece := ⟨[], back, rfl, rfl⟩

theorem Within.trans {d e : Int} {a b c : Text} (hab : Within d a b) (hbc : Within e b c) :
    Within (d + e) a c := by
  obtain ⟨front, back, rfl, hfront⟩ := hab
  obtain ⟨front', back', rfl, hfront'⟩ := hbc
  exact ⟨front ++ front', back' ++ back, by simp, by simp [hfront, hfront']⟩

/-- A separator that is outside in a piece is outside in the text. -/
theorem Within.exposed_of {d : Int} {t piece : Text} (h : Within d t piece) {sep : Char}
    {depth : Int} (hpiece : exposed sep (depth + d) piece = true) : exposed sep depth t = true := by
  obtain ⟨front, back, rfl, rfl⟩ := h
  rw [List.append_assoc, exposed_append, exposed_append, hpiece]
  simp

theorem Within.not_exposed {d : Int} {t piece : Text} (h : Within d t piece) {sep : Char}
    {depth : Int} (ht : exposed sep depth t = false) :
    Text.exposed sep (depth + d) piece = false := by
  by_contra hpiece
  rw [Bool.not_eq_false] at hpiece
  rw [h.exposed_of hpiece] at ht
  cases ht

theorem within_trim (t : Text) : Within 0 t (trim t) := by
  obtain ⟨front, back, ht, hfront, -⟩ := exists_trim t
  exact ⟨front, back, ht, net_of_forall fun c hc => nesting_of_isBlank (hfront c hc)⟩

end Text

open Text

/-! ### Cutting -/

/-- What cutting a text does: it finds no separator, or cuts at the first and goes on behind it. -/
theorem splitOuter_cases (sep : Char) (depth : Int) (t : Text) :
    (exposed sep depth t = false ∧ splitOuter sep depth t = [t]) ∨
    ∃ w rest, t = w ++ sep :: rest ∧ nesting sep = 0 ∧ exposed sep depth w = false ∧
      depth + net w = 0 ∧ splitOuter sep depth t = w :: splitOuter sep 0 rest := by
  induction t generalizing depth with
  | nil => exact .inl ⟨rfl, rfl⟩
  | cons c t ih =>
    rw [splitOuter, exposed_cons]
    by_cases hc : (c == sep && nesting c == 0 && depth == 0) = true
    · rw [if_pos hc]
      simp only [Bool.and_eq_true, beq_iff_eq] at hc
      obtain ⟨⟨rfl, hnesting⟩, rfl⟩ := hc
      exact .inr ⟨[], t, rfl, hnesting, rfl, rfl, rfl⟩
    · rw [if_neg hc]
      rw [Bool.not_eq_true] at hc
      rcases ih (depth + nesting c) with ⟨hexposed, hsplit⟩ | ⟨w, rest, rfl, hsep, hw, hnet, hsplit⟩
      · exact .inl ⟨by rw [hc, hexposed]; rfl, by rw [hsplit]⟩
      · refine .inr ⟨c :: w, rest, rfl, hsep, ?_, ?_, by rw [hsplit]⟩
        · rw [exposed_cons, hc, hw]
          rfl
        · rw [net_cons]
          omega

theorem splitOuter_of_not_exposed {sep : Char} {depth : Int} {t : Text}
    (h : exposed sep depth t = false) : splitOuter sep depth t = [t] := by
  rcases splitOuter_cases sep depth t with ⟨-, hsplit⟩ | ⟨w, rest, rfl, hsep, hw, hnet, -⟩
  · exact hsplit
  · simp [exposed_append, exposed_cons, hsep, hnet] at h

theorem splitOuter_append_cons {sep : Char} (hsep : nesting sep = 0) {depth : Int} {a : Text}
    (ha : exposed sep depth a = false) (hnet : depth + net a = 0) (b : Text) :
    splitOuter sep depth (a ++ sep :: b) = a :: splitOuter sep 0 b := by
  induction a generalizing depth with
  | nil =>
    obtain rfl : depth = 0 := by simpa using hnet
    simp [splitOuter, hsep]
  | cons c a ih =>
    rw [exposed_cons, Bool.or_eq_false_iff] at ha
    rw [net_cons] at hnet
    rw [List.cons_append, splitOuter, ha.1, ih ha.2 (by omega)]
    rfl

/-- The cuts of a text are pieces of it, with no separator outside. -/
theorem within_of_mem_splitOuter {sep : Char} {t w : Text} (h : w ∈ splitOuter sep 0 t) :
    Within 0 t w ∧ exposed sep 0 w = false := by
  induction hn : t.length using Nat.strong_induction_on generalizing t with
  | _ n ih =>
    rcases splitOuter_cases sep 0 t with ⟨ht, hsplit⟩ | ⟨v, rest, rfl, hsep, hv, hnet, hsplit⟩
    · rw [hsplit, List.mem_singleton] at h
      subst h
      exact ⟨within_self w, ht⟩
    · rw [hsplit, List.mem_cons] at h
      rcases h with rfl | h
      · exact ⟨within_start w _, hv⟩
      · obtain ⟨hwithin, hw⟩ := ih rest.length (by simp at hn; omega) h rfl
        have hrest : Within 0 (v ++ sep :: rest) rest :=
          ⟨v ++ [sep], [], by simp, by simp only [net_append, net_cons, net_nil]; omega⟩
        exact ⟨hrest.trans hwithin, hw⟩

theorem within_of_mem_outerParts {sep : Char} {t p : Text} (h : p ∈ outerParts sep t) :
    Within 0 t p ∧ exposed sep 0 p = false := by
  obtain ⟨w, hw, rfl⟩ := List.mem_map.1 h
  obtain ⟨hwithin, hexposed⟩ := within_of_mem_splitOuter hw
  exact ⟨hwithin.trans (within_trim w), (within_trim w).not_exposed hexposed⟩

theorem outerParts_of_not_exposed {sep : Char} {t : Text} (h : exposed sep 0 t = false) :
    outerParts sep t = [trim t] := by
  rw [outerParts, splitOuter_of_not_exposed h]
  rfl

/-- A text with a separator outside has more than one part. -/
theorem exists_outerParts_of_exposed {sep : Char} {t : Text} (h : exposed sep 0 t = true) :
    ∃ w rest q ps, t = w ++ sep :: rest ∧ outerParts sep t = trim w :: q :: ps := by
  rcases splitOuter_cases sep 0 t with ⟨ht, -⟩ | ⟨w, rest, rfl, -, -, -, hsplit⟩
  · rw [ht] at h
    cases h
  · obtain ⟨q, ps, hrest⟩ := List.exists_cons_of_ne_nil (splitOuter_ne_nil sep 0 rest)
    exact ⟨w, rest, trim q, ps.map trim, rfl, by rw [outerParts, hsplit, hrest]; rfl⟩

/-! ### Joining -/

namespace Text

theorem tight_join {ws : List Text} (h : ∀ w ∈ ws, Tight w) : Tight (join ['|'] ws) := by
  induction ws with
  | nil => exact tight_nil
  | cons w ws ih =>
    obtain ⟨hw, hws⟩ := List.forall_mem_cons.1 h
    cases ws with
    | nil => exact hw
    | cons v ws =>
      rw [join_cons_cons, List.append_assoc, List.singleton_append]
      exact tight_append_cons hw (by decide) (ih hws)

/-- Joining adds no separator but its own, and that only at its own depth. -/
theorem exposed_join {sep : Char} {depth : Int} (hdepth : sep ≠ '|' ∨ depth ≠ 0) {ws : List Text}
    (hnet : ∀ w ∈ ws.dropLast, net w = 0) (h : ∀ w ∈ ws, exposed sep depth w = false) :
    exposed sep depth (join ['|'] ws) = false := by
  induction ws with
  | nil => rfl
  | cons w ws ih =>
    obtain ⟨hw, hws⟩ := List.forall_mem_cons.1 h
    cases ws with
    | nil => exact hw
    | cons v ws =>
      rw [List.dropLast_cons_cons] at hnet
      obtain ⟨hnetw, hnet⟩ := List.forall_mem_cons.1 hnet
      have hbar : exposed sep depth ['|'] = false := by
        rcases hdepth with hsep | hdepth
        · exact exposed_of_not_mem (by simpa using hsep) depth
        · simp [exposed_cons, hdepth]
      rw [join_cons_cons, exposed_append, exposed_append, net_append, hnetw, hw]
      have hbar0 : net ['|'] = 0 := by decide
      simpa [hbar0, hbar] using ih hnet hws

end Text

/-- The parts of a text that was joined are what was joined. -/
theorem outerParts_join {ws : List Text} (hne : ws ≠ []) (htight : ∀ w ∈ ws, Tight w)
    (hnet : ∀ w ∈ ws.dropLast, net w = 0) (h : ∀ w ∈ ws, exposed '|' 0 w = false) :
    outerParts '|' (join ['|'] ws) = ws := by
  induction ws with
  | nil => exact absurd rfl hne
  | cons w ws ih =>
    obtain ⟨hw, hws⟩ := List.forall_mem_cons.1 h
    obtain ⟨htightw, htightws⟩ := List.forall_mem_cons.1 htight
    cases ws with
    | nil =>
      rw [join, outerParts_of_not_exposed hw, htightw.trim_eq]
    | cons v ws =>
      rw [List.dropLast_cons_cons] at hnet
      obtain ⟨hnetw, hnet⟩ := List.forall_mem_cons.1 hnet
      have hrest := ih (by simp) htightws hnet hws
      rw [outerParts] at hrest ⊢
      rw [join_cons_cons, List.append_assoc, List.singleton_append,
        splitOuter_append_cons (by decide) hw (by omega), List.map_cons, htightw.trim_eq, hrest]

end PhpAtlas
