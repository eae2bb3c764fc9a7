import Mathlib.Data.List.Basic

/-!
# Steps along a list

Most of the tables and views here are made by taking one step for each entry of a list.  What a run
of steps does is put together from what one step does, once for all the things that are said of
runs: `Leads bs s t` stands for one of them, that the steps for `bs` lead from `s` to `t`.

* `foldl_leads` — a run does what its steps do, while an invariant holds.
* `foldl_keeps`, `foldl_iff_or` — steps that keep what is seen of a state, and steps that each add
  something to it.
* `eq_flatMap` — what is gathered entry by entry.
* `exists_last` — an entry with a property comes a last time.
-/

namespace PhpAtlas

variable {σ β : Type} {f : σ → β → σ}

/-- A run of steps, from what one step in front does while an invariant holds. -/
theorem foldl_leads (inv : σ → Prop) (Leads : List β → σ → σ → Prop) (hnil : ∀ s, Leads [] s s)
    (hcons : ∀ s b bs t, inv s → Leads bs (f s b) t → Leads (b :: bs) s t)
    (hinv : ∀ s b, inv s → inv (f s b)) (bs : List β) (s : σ) (hs : inv s) :
    inv (bs.foldl f s) ∧ Leads bs s (bs.foldl f s) := by
  induction bs generalizing s with
  | nil => exact ⟨hs, hnil s⟩
  | cons b bs ih =>
    obtain ⟨hlast, hrest⟩ := ih (f s b) (hinv s b hs)
    exact ⟨hlast, hcons s b bs _ hs hrest⟩

/-- Steps that keep what is seen of a state. -/
theorem foldl_keeps {γ : Type} (view : σ → γ) (hkeeps : ∀ s b, view (f s b) = view s)
    (bs : List β) (s : σ) : view (bs.foldl f s) = view s :=
  (foldl_leads (fun _ => True) (fun _ s t => view t = view s) (fun _ => rfl)
    (fun s b _ _ _ hrest => hrest.trans (hkeeps s b)) (fun _ _ _ => trivial) bs s trivial).2

/-- Steps that each add something to what holds of a state, while an invariant holds. -/
theorem foldl_iff_or (f : σ → β → σ) (P inv : σ → Prop) {Q : β → Prop}
    (hinv : ∀ s b, inv s → inv (f s b)) (hstep : ∀ s b, inv s → (P (f s b) ↔ P s ∨ Q b))
    (bs : List β) (s : σ) (hs : inv s) :
    inv (bs.foldl f s) ∧ (P (bs.foldl f s) ↔ P s ∨ ∃ b ∈ bs, Q b) := by
  refine foldl_leads inv (fun bs s t => P t ↔ P s ∨ ∃ b ∈ bs, Q b) (by simp) ?_ hinv bs s hs
  intro s b bs t hs hrest
  rw [hrest, hstep s b hs, List.exists_mem_cons_iff, or_assoc]

/-- What is gathered from a list entry by entry. -/
theorem eq_flatMap {α γ : Type} {gather : List α → List γ} {own : α → List γ}
    (hnil : gather [] = []) (hcons : ∀ a l, gather (a :: l) = own a ++ gather l) (l : List α) :
    gather l = l.flatMap own := by
  induction l with
  | nil => exact hnil
  | cons a l ih => rw [hcons, ih, List.flatMap_cons]

/-- If a list has an entry with a property, one of them comes last. -/
theorem exists_last {α : Type} {q : α → Bool} {l : List α} (h : ∃ v ∈ l, q v = true) :
    ∃ front v back, l = front ++ v :: back ∧ q v = true ∧ ∀ w ∈ back, ¬q w = true := by
  induction l with
  | nil =>
    obtain ⟨v, hv, -⟩ := h
    cases hv
  | cons a l ih =>
    by_cases hl : ∃ v ∈ l, q v = true
    · obtain ⟨front, v, back, rfl, hv⟩ := ih hl
      exact ⟨a :: front, v, back, rfl, hv⟩
    · refine ⟨[], a, l, rfl, ?_, fun w hw hq => hl ⟨w, hw, hq⟩⟩
      obtain ⟨v, hv, hq⟩ := h
      rcases List.mem_cons.1 hv with rfl | hv
      · exact hq
      · exact absurd ⟨v, hv, hq⟩ hl

end PhpAtlas
