import PhpAtlas.Proofs.Ancestry.Resolution

/-!
# A view is assembled from the views of the ancestors

The search resolves an ancestor with less room than there is, and below the classlikes that lead to
it.  Neither shows in the result: whatever settles does so with more room and below fewer
classlikes, and in the same way.  So the view of a classlike is assembled from what its traits,
parents and interfaces are when each is resolved on its own.

## Main definitions

* `FlatClass.withTraits`, `FlatClass.withParents` — a view in the making.
* `FlatClass.assembleFrom` — a view from the views that names have.

## Main results

* `Tables.resolveFrom_of_settles` — a settled result does not depend on room and surroundings.
* `Tables.exists_assembleFrom_of_resolve` — the view of a classlike from those of what it lists.
* `Tables.resolve_induction` — induction from the views of what a classlike lists to its own.
-/

namespace PhpAtlas

theorem mapM_eq_ok_map {α β ε : Type} {f : α → Except ε β} {g : α → β} {l : List α}
    (h : ∀ x ∈ l, f x = .ok (g x)) : l.mapM f = .ok (l.map g) := by
  induction l with
  | nil => rfl
  | cons x l ih =>
    obtain ⟨hx, hl⟩ := List.forall_mem_cons.1 h
    rw [List.mapM_cons, hx, ih hl]
    rfl

namespace FlatClass

/-- The view of a classlike once its traits are entered. -/
def withTraits (c : ClasslikeSymbol) (traits : List Ancestor) : FlatClass :=
  mergeTraits { ofOwn c with traits := traitNames traits } (traits.filterMap (·.view))

/-- The view of a classlike once its traits and its parents are entered. -/
def withParents (c : ClasslikeSymbol) (traits parents : List Ancestor) : Merge :=
  parents.foldl addParent ⟨withTraits c traits, []⟩

theorem assemble_eq (c : ClasslikeSymbol) (traits parents interfaces : List Ancestor) :
    assemble c traits parents interfaces =
      (interfaces.foldl addInterface (withParents c traits parents)).flat := rfl

/-- The view of a classlike from the views that the names it lists have. -/
def assembleFrom (view? : String → Option FlatClass) (c : ClasslikeSymbol) : FlatClass :=
  assemble c (c.traits.map fun n => ⟨n, view? n⟩) (c.parents.map fun n => ⟨n, view? n⟩)
    (c.interfaces.map fun n => ⟨n, view? n⟩)

end FlatClass

namespace Tables

variable {t : Tables}

theorem ancestorOf_of_settles {name : String} {r : Except ResolutionError FlatClass}
    (h : Settles r) : ancestorOf name r = .ok ⟨name, r.toOption⟩ := by
  rcases h with ⟨view, rfl⟩ | ⟨other, rfl⟩
  · rfl
  · rfl

/-- Where all that a classlike lists settles, its view is assembled from the results. -/
theorem flattenWith_of_settles {resolve : String → Except ResolutionError FlatClass}
    {view? : String → Option FlatClass} {c : ClasslikeSymbol}
    (h : ∀ n ∈ c.ancestors, Settles (resolve n))
    (hview : ∀ n ∈ c.ancestors, (resolve n).toOption = view? n) :
    flattenWith resolve c = .ok (FlatClass.assembleFrom view? c) := by
  have hlist : ∀ names : List String, names ⊆ c.ancestors →
      names.mapM (fun n => ancestorOf n (resolve n)) =
        .ok (names.map fun n => ⟨n, view? n⟩) := by
    intro names hnames
    refine mapM_eq_ok_map fun n hn => ?_
    rw [ancestorOf_of_settles (h n (hnames hn)), hview n (hnames hn)]
  simp only [flattenWith, hlist c.traits c.traits_subset, hlist c.parents c.parents_subset,
    hlist c.interfaces c.interfaces_subset]
  rfl

/-- A name that is not being resolved is looked up. -/
theorem resolveFrom_of_not_visiting {room : Nat} {visiting : List String} {name : String}
    (h : ∀ v ∈ visiting, Name.key v ≠ Name.key name) :
    t.resolveFrom (room + 1) visiting name =
      match t.classlike? name with
      | none => .error (.unknown name)
      | some c => flattenWith (t.resolveFrom room (visiting ++ [c.full])) c := by
  have hvisiting : ¬(visiting.any fun v => Name.key v == Name.key name) = true := by
    rw [List.any_eq_true]
    rintro ⟨v, hv, hkey⟩
    exact h v hv (beq_iff_eq.1 hkey)
  rw [resolveFrom.eq_def]
  exact if_neg hvisiting

theorem not_settles_error {e : ResolutionError} (h : ∀ name, e ≠ .unknown name) :
    ¬Settles (.error e) := by
  rintro (⟨view, hview⟩ | ⟨other, hother⟩)
  · cases hview
  · exact h other (Except.error.inj hother)

theorem not_visiting_of_settles {room : Nat} {visiting : List String} {name : String}
    (h : Settles (t.resolveFrom room visiting name)) :
    ∀ v ∈ visiting, Name.key v ≠ Name.key name := by
  intro v hv hkey
  have hvisiting : (visiting.any fun v => Name.key v == Name.key name) = true :=
    List.any_eq_true.2 ⟨v, hv, beq_iff_eq.2 hkey⟩
  rw [resolveFrom.eq_def] at h
  dsimp only at h
  rw [if_pos hvisiting] at h
  exact not_settles_error (fun _ => by simp) h

theorem room_pos_of_settles {room : Nat} {visiting : List String} {name : String}
    (h : Settles (t.resolveFrom room visiting name)) : 0 < room := by
  rcases resolveFrom_cases t room visiting name with
    ⟨v, hv, hkey, -⟩ | ⟨-, heq⟩ | ⟨hpos, -⟩ | ⟨rest, c, rfl, -⟩
  · exact absurd hkey (not_visiting_of_settles h v hv)
  · rw [heq] at h
    exact absurd h (not_settles_error fun _ => by simp)
  · exact hpos
  · exact Nat.succ_pos rest

/-- A settled result stays what it is with more room and below fewer classlikes. -/
theorem resolveFrom_of_settles {room room' : Nat} {visiting visiting' : List String} {name : String}
    (h : Settles (t.resolveFrom room visiting name)) (hroom : room ≤ room')
    (hsub : visiting' ⊆ visiting) :
    t.resolveFrom room' visiting' name = t.resolveFrom room visiting name := by
  induction room generalizing room' visiting visiting' name with
  | zero => exact absurd (room_pos_of_settles h) (Nat.lt_irrefl 0)
  | succ room ih =>
    obtain ⟨room', rfl⟩ : ∃ more, room' = more + 1 := ⟨room' - 1, by omega⟩
    have hfree := not_visiting_of_settles h
    rw [resolveFrom_of_not_visiting hfree] at h ⊢
    rw [resolveFrom_of_not_visiting fun v hv => hfree v (hsub hv)]
    cases hc : t.classlike? name with
    | none => rfl
    | some c =>
      simp only [hc] at h ⊢
      have hview := h.resolve_right fun ⟨other, hother⟩ => flattenWith_ne_unknown _ c other hother
      have hsettles := (flattenWith_ok_iff _ c).1 hview
      have hsame : ∀ n ∈ c.ancestors, t.resolveFrom room' (visiting' ++ [c.full]) n =
          t.resolveFrom room (visiting ++ [c.full]) n := fun n hn =>
        ih (hsettles n hn) (Nat.le_of_succ_le_succ hroom)
          (List.append_subset.2 ⟨List.subset_append_of_subset_left _ hsub, by simp⟩)
      rw [flattenWith_of_settles hsettles fun _ _ => rfl]
      exact flattenWith_of_settles (fun n hn => hsame n hn ▸ hsettles n hn)
        fun n hn => congrArg Except.toOption (hsame n hn)

/-- Of what settles, exactly what is indexed has a view. -/
theorem isSome_toOption_resolveFrom {room : Nat} {visiting : List String} {name : String}
    (h : Settles (t.resolveFrom room visiting name)) :
    (t.resolveFrom room visiting name).toOption.isSome = (t.classlike? name).isSome := by
  rcases h with ⟨view, hview⟩ | ⟨other, hother⟩
  · rw [hview, (length_le_of_resolveFrom_ok hview).1]
    rfl
  · rw [hother, (unknown_of_resolveFrom hother).1]
    rfl

/-- One step of the search: all that a classlike lists settles below it, as it does by itself. -/
theorem assembleFrom_of_resolveFrom {maxDepth room : Nat} {visiting : List String} {name : String}
    {view : FlatClass} (h : t.resolveFrom (room + 1) visiting name = .ok view)
    (hroom : room ≤ maxDepth) :
    ∃ c, t.classlike? name = some c ∧
      (∀ n ∈ c.ancestors, Settles (t.resolveFrom room (visiting ++ [c.full]) n) ∧
        (t.resolveFrom room (visiting ++ [c.full]) n).toOption = t.flat? maxDepth n) ∧
      view = FlatClass.assembleFrom (t.flat? maxDepth) c := by
  rw [resolveFrom_of_not_visiting (not_visiting_of_settles (.inl ⟨view, h⟩))] at h
  cases hc : t.classlike? name with
  | none => simp [hc] at h
  | some c =>
    simp only [hc] at h
    have hlisted := (flattenWith_ok_iff _ c).1 ⟨view, h⟩
    have halone : ∀ n ∈ c.ancestors,
        (t.resolveFrom room (visiting ++ [c.full]) n).toOption = t.flat? maxDepth n := fun n hn =>
      congrArg Except.toOption
        (resolveFrom_of_settles (hlisted n hn) hroom (List.nil_subset _)).symm
    refine ⟨c, rfl, fun n hn => ⟨hlisted n hn, halone n hn⟩, ?_⟩
    rw [flattenWith_of_settles hlisted halone] at h
    exact (Except.ok.inj h).symm

/-- The view of a classlike is assembled from the views that what it lists has by itself.  There,
all that is indexed has a view. -/
theorem exists_assembleFrom_of_resolve {maxDepth : Nat} {name : String} {view : FlatClass}
    (h : t.resolve maxDepth name = .ok view) :
    ∃ c, t.classlike? name = some c ∧
      (∀ a ∈ c.ancestors, (t.flat? maxDepth a).isSome = (t.classlike? a).isSome) ∧
      view = FlatClass.assembleFrom (t.flat? maxDepth) c := by
  obtain ⟨room, rfl⟩ : ∃ room, maxDepth = room + 1 :=
    ⟨maxDepth - 1, by have := room_pos_of_settles (.inl ⟨view, h⟩); omega⟩
  obtain ⟨c, hc, hlisted, hview⟩ := assembleFrom_of_resolveFrom h (Nat.le_succ room)
  refine ⟨c, hc, fun n hn => ?_, hview⟩
  rw [← (hlisted n hn).2]
  exact isSome_toOption_resolveFrom (hlisted n hn).1

theorem flat?_eq_some_iff {maxDepth : Nat} {name : String} {view : FlatClass} :
    t.flat? maxDepth name = some view ↔ t.resolve maxDepth name = .ok view := by
  rw [flat?]
  cases t.resolve maxDepth name with
  | error e => simp [Except.toOption]
  | ok other => simp [Except.toOption]

/-- Induction over resolved classlikes: a view may use what holds of the views of what it lists. -/
theorem resolve_induction {maxDepth : Nat} {P : String → FlatClass → Prop}
    (step : ∀ name c, t.classlike? name = some c →
      (∀ a ∈ c.ancestors, (t.flat? maxDepth a).isSome = (t.classlike? a).isSome) →
      (∀ a ∈ c.ancestors, ∀ view, t.flat? maxDepth a = some view → P a view) →
        P name (FlatClass.assembleFrom (t.flat? maxDepth) c))
    {name : String} {view : FlatClass} (h : t.resolve maxDepth name = .ok view) : P name view := by
  -- the room that a search has left becomes smaller, and the views stay the same
  have hsearch : ∀ (room : Nat) (visiting : List String) (name : String) (view : FlatClass),
      room ≤ maxDepth → t.resolveFrom room visiting name = .ok view → P name view := by
    intro room
    induction room with
    | zero =>
      intro visiting name view _ h
      exact absurd (room_pos_of_settles (.inl ⟨view, h⟩)) (Nat.lt_irrefl 0)
    | succ room ih =>
      intro visiting name view hroom h
      obtain ⟨c, hc, hlisted, rfl⟩ := assembleFrom_of_resolveFrom h (Nat.le_of_succ_le hroom)
      refine step name c hc (fun a ha => ?_) fun a ha view hview => ?_
      · rw [← (hlisted a ha).2]
        exact isSome_toOption_resolveFrom (hlisted a ha).1
      · rw [← (hlisted a ha).2] at hview
        obtain ⟨hsettles, -⟩ := hlisted a ha
        rcases hsettles with ⟨other, hother⟩ | ⟨other, hother⟩
        · rw [hother] at hview
          obtain rfl : other = view := Option.some.inj hview
          exact ih _ a other (Nat.le_of_succ_le hroom) hother
        · rw [hother] at hview
          cases hview
  exact hsearch maxDepth [] name view (Nat.le_refl maxDepth) h

end Tables
end PhpAtlas
