import PhpAtlas.Proofs.Ancestry.Uniqueness

/-!
# Taking members into a list of entries

While a view is put together, members are offered to it one after the other.  An offer whose name is
free is entered.  An offer whose name is taken is hidden, and the member that has the name may note
whose member it hides.

Members of whatever kind are seen as entries here, so that each step in the making of a view is one
of two edits: a note on the first entry of a label, or a new entry at the end.

## Main definitions

* `Entry` — what counts of a member.
* `Offer`, `Entry.meet` — a member that is offered, and what it does to the entry that stands for
  its label.
* `Entry.edit` — what it does to the list.
* `Entry.Takes` — one list of entries comes from another by taking offers.

## Main results

* `Entry.first?_edit` — what one edit does to the first entry of a label.
* `Entry.takes_edits` — a run of edits takes offers.
* `Entry.takes_edits_all`, `Entry.takes_edits_first` — which offers there are, if members are hidden
  by what has their label, or by what had it before.
-/

namespace PhpAtlas

/-- What counts of a member here: the label under which it is found, who declares it, where it comes
from, and whose member it hides. -/
structure Entry where
  label : String
  owner : String
  origin : Origin
  hides : Option String
  deriving DecidableEq

/-- A member that is offered to a view, with those members that would note it. -/
structure Offer where
  owner : String
  notedBy : Origin → Bool

/-- An offer that no member notes. -/
def Offer.silent (owner : String) : Offer := ⟨owner, fun _ => false⟩

namespace Entry

/-! ### Entries -/

section Of

variable {α : Type} (label owner : α → String)

/-- The entry of a member. -/
def of (m : FlatMember α) : Entry := ⟨label m.member, owner m.member, m.origin, m.overrides⟩

end Of

/-- The entry as a descendant takes it over. -/
def inherited (e : Entry) : Entry := { e with origin := .inherited, hides := none }

/-- The entry apart from what it hides. -/
def bare (e : Entry) : Entry := { e with hides := none }

/-- Note whose member is hidden, if such members are noted; the first note counts. -/
def noting (marks : Origin → Bool) (owner : String) (e : Entry) : Entry :=
  if marks e.origin then { e with hides := e.hides.or (some owner) } else e

@[simp] theorem label_noting (marks : Origin → Bool) (owner : String) (e : Entry) :
    (e.noting marks owner).label = e.label := by
  unfold noting
  split <;> rfl

@[simp] theorem origin_noting (marks : Origin → Bool) (owner : String) (e : Entry) :
    (e.noting marks owner).origin = e.origin := by
  unfold noting
  split <;> rfl

@[simp] theorem bare_noting (marks : Origin → Bool) (owner : String) (e : Entry) :
    (e.noting marks owner).bare = e.bare := by
  unfold noting
  split <;> rfl

theorem noting_of_marks {marks : Origin → Bool} {e : Entry} (h : marks e.origin = true)
    (owner : String) : e.noting marks owner = { e with hides := e.hides.or (some owner) } :=
  if_pos h

theorem noting_of_not_marks {marks : Origin → Bool} {e : Entry} (h : marks e.origin = false)
    (owner : String) : e.noting marks owner = e := if_neg (ne_true_of_eq_false h)

/-- A second note does not count. -/
theorem noting_noting (marks : Origin → Bool) (a b : String) (e : Entry) :
    (e.noting marks a).noting marks b = e.noting marks a := by
  cases hmarks : marks e.origin with
  | false => rw [noting_of_not_marks hmarks, noting_of_not_marks hmarks]
  | true =>
    rw [noting_of_marks (by rw [origin_noting, hmarks]), noting_of_marks hmarks]
    simp

/-- The entries of a label. -/
def named (n : String) (l : List Entry) : List Entry := l.filter (·.label == n)

theorem named_cons (n : String) (m : Entry) (ms : List Entry) :
    named n (m :: ms) = if m.label = n then m :: named n ms else named n ms := by
  simp [named, List.filter_cons]

/-- The entry that stands for a label. -/
def first? (n : String) (l : List Entry) : Option Entry := l.find? (·.label == n)

/-- What an offer does to the entry that stands for its label. -/
def meet (n : String) : Option Entry → Offer → Option Entry
  | none, o => some ⟨n, o.owner, .inherited, none⟩
  | some e, o => some (e.noting o.notedBy o.owner)

/-! ### Edits -/

/-- Take in a member: it is hidden by the first entry of its label, or entered. -/
def edit (marks : Origin → Bool) (hidden : List Entry → Entry → Bool) (l : List Entry)
    (m : Entry) : List Entry :=
  if hidden l m then FlatClass.changeFirst (·.label == m.label) (noting marks m.owner) l
  else l ++ [m.inherited]

section Edits

variable {marks : Origin → Bool} {hidden : List Entry → Entry → Bool}

/-- One edit: the entry that stands for the label of the member notes it, or the member comes in
behind it. -/
theorem first?_edit (n : String) (l : List Entry) (m : Entry) :
    first? n (edit marks hidden l m) =
      if m.label = n then
        if hidden l m then (first? n l).map (noting marks m.owner)
        else (first? n l).or (some m.inherited)
      else first? n l := by
  have hkeeps : ∀ (n : String) (e : Entry),
      ((e.noting marks m.owner).label == n) = (e.label == n) := by
    intro n e
    rw [label_noting]
  unfold edit first?
  by_cases hn : m.label = n
  · rw [if_pos hn, hn]
    split
    · exact FlatClass.find?_changeFirst (hkeeps n) l
    · have hnew : first? n [m.inherited] = some m.inherited :=
        List.find?_cons_of_pos (p := fun e : Entry => e.label == n) (beq_iff_eq.2 hn)
      rw [List.find?_append]
      exact congrArg _ hnew
  · rw [if_neg hn]
    split
    · refine FlatClass.find?_changeFirst_of_disjoint (hkeeps n) fun e he => ?_
      have hlabel : e.label = n := by simpa using List.find?_some he
      rw [hlabel, beq_eq_false_iff_ne]
      exact fun heq => hn heq.symm
    · have hother : first? n [m.inherited] = none :=
        List.find?_cons_of_neg (p := fun e : Entry => e.label == n)
          fun heq => hn (beq_iff_eq.1 heq)
      rw [List.find?_append]
      exact (congrArg _ hother).trans (Option.or_none)

/-- Only the first entry of a label may hide something. -/
def FirstHides (l : List Entry) : Prop := l.Pairwise fun a b => a.label = b.label → b.hides = none

theorem mem_changeFirst_noting {n owner : String} {l : List Entry} {e : Entry}
    (h : e ∈ FlatClass.changeFirst (·.label == n) (noting marks owner) l) :
    ∃ old ∈ l, e = old ∨ (old.label = n ∧ e = old.noting marks owner) := by
  induction l with
  | nil => cases h
  | cons a l ih =>
    unfold FlatClass.changeFirst at h
    split at h
    · rename_i hlabel
      rcases List.mem_cons.1 h with rfl | h
      · exact ⟨a, List.mem_cons_self, .inr ⟨beq_iff_eq.1 hlabel, rfl⟩⟩
      · exact ⟨e, List.mem_cons_of_mem _ h, .inl rfl⟩
    · rcases List.mem_cons.1 h with rfl | h
      · exact ⟨e, List.mem_cons_self, .inl rfl⟩
      · obtain ⟨old, hold, heq⟩ := ih h
        exact ⟨old, List.mem_cons_of_mem _ hold, heq⟩

theorem FirstHides.changeFirst {l : List Entry} (h : FirstHides l) (n owner : String) :
    FirstHides (FlatClass.changeFirst (·.label == n) (noting marks owner) l) := by
  induction l with
  | nil => exact h
  | cons a l ih =>
    obtain ⟨hfirst, hrest⟩ := List.pairwise_cons.1 h
    unfold FlatClass.changeFirst
    split
    · refine List.pairwise_cons.2 ⟨fun b hb hlabel => hfirst b hb ?_, hrest⟩
      rwa [label_noting] at hlabel
    · rename_i hother
      refine List.pairwise_cons.2 ⟨fun b hb hlabel => ?_, ih hrest⟩
      obtain ⟨old, hold, rfl | ⟨hn, rfl⟩⟩ := mem_changeFirst_noting hb
      · exact hfirst b hold hlabel
      · -- the entry that was changed has another label
        rw [label_noting, hn] at hlabel
        exact absurd (beq_iff_eq.2 hlabel) hother

theorem FirstHides.edit {l : List Entry} (h : FirstHides l) (m : Entry) :
    FirstHides (edit marks hidden l m) := by
  unfold Entry.edit
  split
  · exact h.changeFirst m.label m.owner
  · refine List.pairwise_append.2 ⟨h, List.pairwise_singleton _ _, fun a _ b hb _ => ?_⟩
    rw [List.mem_singleton.1 hb]
    rfl

theorem FirstHides.first? {l : List Entry} (h : FirstHides l) {e : Entry} (he : e ∈ l)
    (hhides : e.hides ≠ none) : first? e.label l = some e := by
  induction l with
  | nil => cases he
  | cons a l ih =>
    obtain ⟨hfirst, hrest⟩ := List.pairwise_cons.1 h
    rcases List.mem_cons.1 he with rfl | he
    · exact List.find?_cons_of_pos (beq_self_eq_true _)
    · have hother : Entry.first? e.label (a :: l) = Entry.first? e.label l :=
        List.find?_cons_of_neg (p := fun b : Entry => b.label == e.label)
          fun hlabel => hhides (hfirst e he (beq_iff_eq.1 hlabel))
      exact hother.trans (ih hrest he)

theorem mem_edit {l : List Entry} {m e : Entry} (h : e ∈ edit marks hidden l m) :
    (∃ old ∈ l, old.bare = e.bare) ∨ e = m.inherited := by
  unfold edit at h
  split at h
  · obtain ⟨old, hold, rfl | ⟨-, rfl⟩⟩ := mem_changeFirst_noting h
    · exact .inl ⟨e, hold, rfl⟩
    · exact .inl ⟨old, hold, (bare_noting _ _ _).symm⟩
  · rcases List.mem_append.1 h with h | h
    · exact .inl ⟨e, h, rfl⟩
    · exact .inr (List.mem_singleton.1 h)

end Edits

/-! ### Taking offers -/

/-- One list of entries comes from another by taking the offers that there are for each label: the
first entry of a label meets them, still only the first one may hide something, and who is new in
the list was offered. -/
structure Takes (offers : String → List Offer) (l l' : List Entry) : Prop where
  first : ∀ n, first? n l' = (offers n).foldl (meet n) (first? n l)
  hides : FirstHides l → FirstHides l'
  owners : ∀ e ∈ l', (∃ old ∈ l, old.bare = e.bare) ∨
    (e.origin = .inherited ∧ ∃ o ∈ offers e.label, o.owner = e.owner)

namespace Takes

variable {l l' l'' : List Entry}

theorem refl (l : List Entry) : Takes (fun _ => []) l l where
  first _ := rfl
  hides := id
  owners e he := .inl ⟨e, he, rfl⟩

theorem trans {a b : String → List Offer} (hab : Takes a l l') (hbc : Takes b l' l'') :
    Takes (fun n => a n ++ b n) l l'' where
  first n := by rw [hbc.first, hab.first, List.foldl_append]
  hides h := hbc.hides (hab.hides h)
  owners e he := by
    rcases hbc.owners e he with ⟨old, hold, hbare⟩ | ⟨horigin, o, ho, howner⟩
    · obtain ⟨hlabel, howner, horigin, -⟩ := Entry.mk.inj hbare
      rcases hab.owners old hold with ⟨older, holder, hbare'⟩ | ⟨hinherited, o, ho, hoffered⟩
      · exact .inl ⟨older, holder, hbare'.trans hbare⟩
      · refine .inr ⟨horigin ▸ hinherited, o, List.mem_append_left _ ?_, hoffered.trans howner⟩
        rwa [hlabel] at ho
    · exact .inr ⟨horigin, o, List.mem_append_right _ ho, howner⟩

/-- A run of steps, from what one step takes while an invariant holds. -/
theorem foldl {σ β : Type} (entries : σ → List Entry) (inv : σ → Prop) {step : σ → β → σ}
    {offers : β → String → List Offer} (hinv : ∀ s b, inv s → inv (step s b))
    (hstep : ∀ s b, inv s → Takes (offers b) (entries s) (entries (step s b))) (bs : List β) (s : σ)
    (hs : inv s) :
    inv (bs.foldl step s) ∧
      Takes (fun n => bs.flatMap (offers · n)) (entries s) (entries (bs.foldl step s)) := by
  refine foldl_leads inv
    (fun bs s t => Takes (fun n => bs.flatMap (offers · n)) (entries s) (entries t))
    (fun s => refl (entries s)) ?_ hinv bs s hs
  exact fun s b _ _ hs hrest => (hstep s b hs).trans hrest

end Takes

/-- A run of edits takes offers, if the first entries meet them and each member is among them. -/
theorem takes_edits {marks : Origin → Bool} {hidden : List Entry → Entry → Bool}
    {offers : String → List Offer} {l ms : List Entry}
    (hfirst : ∀ n, first? n (ms.foldl (edit marks hidden) l) =
      (offers n).foldl (meet n) (first? n l))
    (howners : ∀ m ∈ ms, ∃ o ∈ offers m.label, o.owner = m.owner) :
    Takes offers l (ms.foldl (edit marks hidden) l) where
  first := hfirst
  hides h := List.foldlRecOn (motive := FirstHides) ms _ h fun _ h m _ => h.edit m
  owners := by
    refine List.foldlRecOn (motive := fun l' : List Entry => ∀ e ∈ l',
      (∃ old ∈ l, old.bare = e.bare) ∨
        (e.origin = .inherited ∧ ∃ o ∈ offers e.label, o.owner = e.owner)) ms _ ?_ ?_
    · exact fun e he => .inl ⟨e, he, rfl⟩
    · intro l' hl' m hm e he
      rcases mem_edit he with ⟨old, hold, hbare⟩ | rfl
      · obtain ⟨hlabel, howner, horigin, -⟩ := Entry.mk.inj hbare
        rw [← hbare, ← hlabel, ← howner, ← horigin]
        exact hl' old hold
      · exact .inr ⟨rfl, howners m hm⟩

/-- All members of a label are offered alike. -/
def offersAll (marks : Origin → Bool) (ms : List Entry) : List Offer :=
  ms.map fun m => ⟨m.owner, marks⟩

/-- Only the first of the members is noted. -/
def offersFirst (marks : Origin → Bool) : List Entry → List Offer
  | [] => []
  | m :: ms => ⟨m.owner, marks⟩ :: offersAll (fun _ => false) ms

theorem offersFirst_silent (ms : List Entry) :
    offersFirst (fun _ => false) ms = offersAll (fun _ => false) ms := by
  cases ms with
  | nil => rfl
  | cons m ms => rfl

theorem map_owner_offersAll (marks : Origin → Bool) (ms : List Entry) :
    (offersAll marks ms).map (·.owner) = ms.map (·.owner) := by
  rw [offersAll, List.map_map]
  rfl

theorem map_owner_offersFirst (marks : Origin → Bool) (ms : List Entry) :
    (offersFirst marks ms).map (·.owner) = ms.map (·.owner) := by
  cases ms with
  | nil => rfl
  | cons m ms => rw [offersFirst, List.map_cons, List.map_cons, map_owner_offersAll]

theorem exists_of_mem_offersFirst {marks : Origin → Bool} {ms : List Entry} {o : Offer}
    (h : o ∈ offersFirst marks ms) :
    ∃ m ∈ ms, m.owner = o.owner ∧ ∀ origin, o.notedBy origin = true → marks origin = true := by
  cases ms with
  | nil => cases h
  | cons m ms =>
    rcases List.mem_cons.1 h with rfl | h
    · exact ⟨m, List.mem_cons_self, rfl, fun _ => id⟩
    · obtain ⟨m', hm', rfl⟩ := List.mem_map.1 h
      exact ⟨m', List.mem_cons_of_mem _ hm', rfl, fun _ hnoted => by cases hnoted⟩

theorem exists_offer {offers : List Offer} {ms : List Entry} {m : Entry}
    (hoffers : offers.map (·.owner) = (named m.label ms).map (·.owner)) (hm : m ∈ ms) :
    ∃ o ∈ offers, o.owner = m.owner := by
  have hnamed : m ∈ named m.label ms := List.mem_filter.2 ⟨hm, beq_self_eq_true _⟩
  rw [← List.mem_map, hoffers]
  exact List.mem_map_of_mem hnamed

/-- Members that are hidden by what has their label, and entered if it is free or if they are not
noted anyway. -/
theorem takes_edits_all {marks : Origin → Bool} {hidden : List Entry → Entry → Bool}
    (hhidden : ∀ l m, hidden l m = true → first? m.label l ≠ none)
    (hentered : ∀ l m, hidden l m = false →
      first? m.label l = none ∨ marks = fun _ => false) (ms l : List Entry) :
    Takes (fun n => offersAll marks (named n ms)) l (ms.foldl (edit marks hidden) l) := by
  refine takes_edits (fun n => ?_) fun m hm => exists_offer (map_owner_offersAll _ _) hm
  induction ms generalizing l with
  | nil => rfl
  | cons m ms ih =>
    rw [List.foldl_cons, ih, first?_edit, named_cons]
    by_cases hn : m.label = n
    · rw [if_pos hn, if_pos hn]
      refine congrArg (List.foldl _ · _) ?_
      subst hn
      cases hhid : hidden l m with
      | true =>
        obtain ⟨e, he⟩ := Option.ne_none_iff_exists'.1 (hhidden l m hhid)
        rw [if_pos rfl, he]
        rfl
      | false =>
        rw [if_neg Bool.false_ne_true]
        rcases hentered l m hhid with hfree | hsilent
        · rw [hfree]
          rfl
        · rw [hsilent]
          cases first? m.label l with
          | none => rfl
          | some e => rfl
    · rw [if_neg hn, if_neg hn]

/-- Members that are hidden by what had their label before they came: they are not compared with
each other, so that of those of one label only the first is noted. -/
theorem takes_edits_first (marks : Origin → Bool) (ms l : List Entry) :
    Takes (fun n => offersFirst marks (named n ms)) l
      (ms.foldl (edit marks fun _ m => (first? m.label l).isSome) l) := by
  refine takes_edits (fun n => ?_) fun m hm => exists_offer (map_owner_offersFirst _ _) hm
  have hrun : ∀ acc, first? n (ms.foldl (edit marks fun _ m => (first? m.label l).isSome) acc) =
      (named n ms).foldl (fun e m => if (first? n l).isSome then e.map (noting marks m.owner)
        else e.or (some m.inherited)) (first? n acc) := by
    intro acc
    induction ms generalizing acc with
    | nil => rfl
    | cons m ms ih =>
      rw [List.foldl_cons, ih, first?_edit, named_cons]
      by_cases hn : m.label = n
      · rw [if_pos hn, if_pos hn, List.foldl_cons, hn]
      · rw [if_neg hn, if_neg hn]
  have hlater : ∀ (e : Entry) (rest : List Entry),
      (offersAll (fun _ => false) rest).foldl (meet n) (some e) = some e := by
    intro e rest
    rw [offersAll, List.foldl_map]
    exact List.foldl_fixed' (fun _ => rfl) rest
  rw [hrun]
  cases hnamed : named n ms with
  | nil => rfl
  | cons m rest =>
    have hm : m.label = n := by
      have hmem : m ∈ named n ms := hnamed ▸ List.mem_cons_self
      exact beq_iff_eq.1 (List.mem_filter.1 hmem).2
    rw [offersFirst, List.foldl_cons, List.foldl_cons]
    cases hold : first? n l with
    | none =>
      -- the first one comes in, and the others come in behind it
      have hentered : m.inherited = ⟨n, m.owner, .inherited, none⟩ := by rw [← hm]; rfl
      refine Eq.trans ?_ (hlater _ rest).symm
      exact (List.foldl_fixed' (fun _ => rfl) rest).trans (congrArg some hentered)
    | some e =>
      -- the old entry notes the first one, and the others do not count
      refine Eq.trans ?_ (hlater _ rest).symm
      refine List.foldl_fixed' (fun m' => ?_) rest
      exact congrArg some (noting_noting marks m.owner m'.owner e)

end Entry

end PhpAtlas
