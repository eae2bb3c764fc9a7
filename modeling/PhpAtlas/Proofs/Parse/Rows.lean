import PhpAtlas.Proofs.Source.Nodes

/-!
# Nodes in a row

While a source file is read, the nodes that have been read stand between two offsets, one behind
the other.  A node that is made of them takes their place.

## Main definitions

* `Node.InPlace` — the parts of a node and its offsets lie in its range.
* `Row` — nodes in their order between two offsets.

## Main results

* `Row.append`, `Row.sublist`, `Row.fromFirst`, `Row.upToLast` — rows from other rows.
* `Row.wrapAll`, `Row.wrap`, `Row.wrapBehind`, `Row.wrapTo`, `Row.wrapThrough`, `Row.around` — a
  node whose parts stand in a row can stand there itself.
-/

namespace PhpAtlas

/-- The parts of a node lie in its range in their order, and its offsets lie there too. -/
structure Node.InPlace (n : Node) : Prop where
  aligned : n.Aligned
  items : n.ItemsInside
  ensure : n.EnsureInside

/-- The offsets that a node keeps besides its range. -/
def Node.offsets (n : Node) : List Nat := n.itemOffsets ++ n.ensureStart?.toList

/-- Nodes that are not empty stand in their order between two offsets. -/
structure Row (i : Nat) (ns : List Node) (j : Nat) : Prop where
  inside : ∀ n ∈ ns, i ≤ n.span.start ∧ n.span.stop ≤ j
  proper : ∀ n ∈ ns, n.span.start < n.span.stop
  ordered : ns.Pairwise fun a b => a.span.stop ≤ b.span.start
  inPlace : ∀ n ∈ ns, Throughout Node.InPlace n

namespace Row

variable {i i' j j' : Nat} {ns ms : List Node} {n : Node}

theorem nil : Row i [] j :=
  ⟨List.forall_mem_nil _, List.forall_mem_nil _, .nil, List.forall_mem_nil _⟩

theorem mono (h : Row i ns j) (hi : i' ≤ i) (hj : j ≤ j') : Row i' ns j' where
  inside n hn := by
    have hinside := h.inside n hn
    omega
  proper := h.proper
  ordered := h.ordered
  inPlace := h.inPlace

theorem sublist (h : Row i ns j) (hsub : ms.Sublist ns) : Row i ms j where
  inside n hn := h.inside n (hsub.subset hn)
  proper n hn := h.proper n (hsub.subset hn)
  ordered := h.ordered.sublist hsub
  inPlace n hn := h.inPlace n (hsub.subset hn)

/-- A row behind another one. -/
theorem append (h : Row i ns j) (h' : Row i' ms j') (hi : i ≤ i') (hj : j ≤ j') (hgap : j ≤ i') :
    Row i (ns ++ ms) j' where
  inside n hn := by
    rcases List.mem_append.1 hn with hn | hn
    · have hinside := h.inside n hn
      omega
    · have hinside := h'.inside n hn
      omega
  proper n hn := (List.mem_append.1 hn).elim (h.proper n) (h'.proper n)
  ordered := by
    refine List.pairwise_append.2 ⟨h.ordered, h'.ordered, fun a ha b hb => ?_⟩
    have hinside := h.inside a ha
    have hinside' := h'.inside b hb
    omega
  inPlace n hn := (List.mem_append.1 hn).elim (h.inPlace n) (h'.inPlace n)

/-- A row starts with its first node. -/
theorem fromFirst (h : Row i (n :: ns) j) : Row n.span.start (n :: ns) j where
  inside m hm := by
    have hstop := (h.inside m hm).2
    have hproper := h.proper n List.mem_cons_self
    rcases List.mem_cons.1 hm with rfl | hm
    · omega
    · have hbehind := (List.pairwise_cons.1 h.ordered).1 m hm
      omega
  proper := h.proper
  ordered := h.ordered
  inPlace := h.inPlace

/-- A row ends with its last node. -/
theorem upToLast (h : Row i (ns ++ [n]) j) : Row i (ns ++ [n]) n.span.stop where
  inside m hm := by
    have hstart := (h.inside m hm).1
    have hproper := h.proper n (List.mem_append_right _ List.mem_cons_self)
    rcases List.mem_append.1 hm with hm | hm
    · have hbehind := (List.pairwise_append.1 h.ordered).2.2 m hm n List.mem_cons_self
      omega
    · rw [List.mem_singleton.1 hm]
      rw [List.mem_singleton.1 hm] at hstart
      omega
  proper := h.proper
  ordered := h.ordered
  inPlace := h.inPlace

theorem lt (h : Row i ns j) (hne : ns ≠ []) : i < j := by
  obtain ⟨n, hn⟩ := List.exists_mem_of_ne_nil ns hne
  have hinside := h.inside n hn
  have hproper := h.proper n hn
  omega

/-- A node takes the place of a row that has its parts and its offsets. -/
theorem wrapAll (h : Row i ns j) (hne : ns ≠ []) (hspan : n.span = ⟨i, j⟩)
    (hparts : n.parts.Sublist ns) (hoffsets : ∀ o ∈ n.offsets, i ≤ o ∧ o ≤ j) : Row i [n] j := by
  have hlt := h.lt hne
  have hrow := h.sublist hparts
  have hitems : n.ItemsInside := fun o ho => by
    rw [hspan, Span.holds_iff]
    exact hoffsets o (List.mem_append_left _ ho)
  have hensure : n.EnsureInside := fun o ho => by
    rw [hspan]
    exact (hoffsets o (List.mem_append_right _ (Option.mem_toList.2 ho))).2
  have haligned : n.Aligned :=
    { proper := by
        rw [hspan]
        exact Nat.le_of_lt hlt
      inside := fun m hm => by
        rw [hspan]
        exact hrow.inside m hm
      ordered := hrow.ordered.imp_of_mem fun {a b} ha _ hstop =>
        ⟨Nat.lt_of_lt_of_le (hrow.proper a ha) hstop, hstop⟩ }
  have hin : Throughout Node.InPlace n := .intro n ⟨haligned, hitems, hensure⟩ hrow.inPlace
  refine ⟨?_, ?_, List.pairwise_singleton _ _, ?_⟩
  · rw [List.forall_mem_singleton, hspan]
    exact ⟨Nat.le_refl _, Nat.le_refl _⟩
  · rw [List.forall_mem_singleton, hspan]
    exact hlt
  · rwa [List.forall_mem_singleton]

/-- A node without offsets takes the place of a row that has its parts. -/
theorem wrap (h : Row i ns j) (hne : ns ≠ []) (hspan : n.span = ⟨i, j⟩)
    (hparts : n.parts.Sublist ns) (hoffsets : n.offsets = []) : Row i [n] j :=
  h.wrapAll hne hspan hparts (hoffsets ▸ List.forall_mem_nil _)

/-- A node takes the place of its parts and of a token in front of them. -/
theorem wrapBehind {t : Node} (h : Row i (t :: ns) j) (hspan : n.span = ⟨i, j⟩)
    (hparts : n.parts = ns) (hoffsets : n.offsets = []) : Row i [n] j :=
  h.wrap (List.cons_ne_nil _ _) hspan (hparts ▸ List.sublist_cons_self _ _) hoffsets

/-- The nodes in front of the last one end where it starts. -/
theorem front (h : Row i (ns ++ [n]) j) : Row i ns n.span.start where
  inside m hm :=
    ⟨(h.inside m (List.mem_append_left _ hm)).1,
      (List.pairwise_append.1 h.ordered).2.2 m hm n List.mem_cons_self⟩
  proper m hm := h.proper m (List.mem_append_left _ hm)
  ordered := (List.pairwise_append.1 h.ordered).1
  inPlace m hm := h.inPlace m (List.mem_append_left _ hm)

/-- A node without parts takes the place of the last one. -/
theorem exchange {m : Node} (h : Row i (ns ++ [m]) j) (hspan : n.span = m.span)
    (hparts : n.parts = []) (hoffsets : n.offsets = []) : Row i (ns ++ [n]) j := by
  have hinside := h.inside m (List.mem_append_right _ List.mem_cons_self)
  have hproper := h.proper m (List.mem_append_right _ List.mem_cons_self)
  have hm : Row m.span.start [m] m.span.stop :=
    (h.upToLast.sublist (List.sublist_append_right ns [m])).fromFirst
  have hn : Row m.span.start [n] m.span.stop :=
    hm.wrap (List.cons_ne_nil _ _) hspan (hparts ▸ List.nil_sublist _) hoffsets
  exact h.front.append (hn.mono (Nat.le_refl _) hinside.2) hinside.1 (by omega) (Nat.le_refl _)

/-- The node ends where the last node of the row ends. -/
theorem wrapTo {last : Node} (h : Row i (ns ++ [last]) j) (hspan : n.span = ⟨i, last.span.stop⟩)
    (hparts : n.parts.Sublist (ns ++ [last])) (hoffsets : n.offsets = []) : Row i [n] j := by
  have hne : ns ++ [last] ≠ [] := List.append_ne_nil_of_right_ne_nil _ (List.cons_ne_nil _ _)
  have hstop := (h.inside last (List.mem_append_right _ List.mem_cons_self)).2
  exact (h.upToLast.wrap hne hspan hparts hoffsets).mono (Nat.le_refl _) hstop

/-- The node runs from the first to the last node of the row. -/
theorem wrapThrough {first last : Node} (h : Row i (first :: (ns ++ [last])) j)
    (hspan : n.span = first.span.through last.span)
    (hparts : n.parts.Sublist (first :: (ns ++ [last]))) (hoffsets : n.offsets = []) :
    Row i [n] j := by
  have hstart := (h.inside first List.mem_cons_self).1
  have hrow : Row first.span.start (first :: ns ++ [last]) j := h.fromFirst
  exact (hrow.wrapTo hspan hparts hoffsets).mono hstart (Nat.le_refl _)

/-- A node takes the place of the only one. -/
theorem around {m : Node} (h : Row i [m] j) (hspan : n.span = m.span)
    (hparts : n.parts.Sublist [m]) (hoffsets : n.offsets = []) : Row i [n] j := by
  have hstart := (h.inside m List.mem_cons_self).1
  have hrow : Row m.span.start ([] ++ [m]) j := h.fromFirst
  exact (hrow.wrapTo hspan hparts hoffsets).mono hstart (Nat.le_refl _)

end Row

/-- What stands between the first and the last node. -/
theorem middle_sublist {first last : Node} (ns : List Node) :
    ns.Sublist (first :: (ns ++ [last])) :=
  (List.sublist_append_left ns [last]).trans (List.sublist_cons_self _ _)

end PhpAtlas
