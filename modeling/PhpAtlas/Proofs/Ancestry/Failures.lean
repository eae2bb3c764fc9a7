import PhpAtlas.Proofs.Ancestry.Resolution

/-!
# Why a classlike cannot be resolved

A search that fails does so at one place: at a name that is met again, or where no room is left, or
at the name that was asked for.  The classlikes being resolved there are a trail, each of which
lists the next, and the error is read off that trail.

## Main definitions

* `Tables.Trail` — the classlikes being resolved on the way from one name to another.
* `Tables.Circle`, `Tables.FullWalk` — what stands behind the two errors of a search that goes on.
* `Tables.Justified` — what an error says about the tables.

## Main results

* `Tables.Trail.snoc` — one step of the search prolongs the trail.
* `Tables.exists_trail_of_resolveFrom_error` — a failed search has a trail to the place it fails at.
* `Tables.resolve_error_justified` — every error is justified, if any depth is allowed.
-/

namespace PhpAtlas

open Relation

/-! ### Where a list of steps fails -/

theorem bind_eq_error {α β ε : Type} {x : Except ε α} {f : α → Except ε β} {e : ε}
    (h : (x >>= f) = .error e) : x = .error e ∨ ∃ a, f a = .error e := by
  cases x with
  | error e' => exact .inl (congrArg Except.error (Except.error.inj h))
  | ok a => exact .inr ⟨a, h⟩

theorem exists_dropWhile_eq_cons {α : Type} {p : α → Bool} {l : List α}
    (h : ∃ v ∈ l, p v = false) : ∃ v rest, l.dropWhile p = v :: rest ∧ p v = false := by
  induction l with
  | nil =>
    obtain ⟨v, hv, -⟩ := h
    cases hv
  | cons a l ih =>
    cases ha : p a with
    | false => exact ⟨a, l, by rw [List.dropWhile_cons_of_neg (by simp [ha])], ha⟩
    | true =>
      rw [List.dropWhile_cons_of_pos ha]
      obtain ⟨v, hv, hp⟩ := h
      rcases List.mem_cons.1 hv with rfl | hv
      · rw [hp] at ha
        cases ha
      · exact ih ⟨v, hv, hp⟩

namespace Tables

variable {t : Tables}

theorem eq_error_of_ancestorOf {name : String} {r : Except ResolutionError FlatClass}
    {e : ResolutionError} (h : ancestorOf name r = .error e) : r = .error e := by
  unfold ancestorOf at h
  split at h <;> simp_all

/-- A classlike fails with the error of something that it lists. -/
theorem exists_of_flattenWith_error {resolve : String → Except ResolutionError FlatClass}
    {c : ClasslikeSymbol} {e : ResolutionError} (h : flattenWith resolve c = .error e) :
    ∃ n ∈ c.ancestors, resolve n = .error e := by
  have hlist : ∀ names : List String, names ⊆ c.ancestors →
      names.mapM (fun n => ancestorOf n (resolve n)) = .error e →
        ∃ n ∈ c.ancestors, resolve n = .error e := by
    intro names hnames herror
    obtain ⟨n, hn, hresult⟩ := exists_of_mapM_error herror
    exact ⟨n, hnames hn, eq_error_of_ancestorOf hresult⟩
  rcases bind_eq_error h with htraits | ⟨_, h⟩
  · exact hlist c.traits c.traits_subset htraits
  · rcases bind_eq_error h with hparents | ⟨_, h⟩
    · exact hlist c.parents c.parents_subset hparents
    · rcases bind_eq_error h with hinterfaces | ⟨_, h⟩
      · exact hlist c.interfaces c.interfaces_subset hinterfaces
      · cases h

/-- A name that is being resolved closes a circle, which starts where it was met first. -/
theorem resolveFrom_of_visiting {room : Nat} {visiting : List String} {name : String}
    (h : ∃ v ∈ visiting, Name.key v = Name.key name) :
    t.resolveFrom room visiting name = .error (.circular name
      (visiting.dropWhile (fun v => Name.key v != Name.key name) ++ [name])) := by
  obtain ⟨v, hv, hkey⟩ := h
  have hvisiting : (visiting.any fun v => Name.key v == Name.key name) = true :=
    List.any_eq_true.2 ⟨v, hv, beq_iff_eq.2 hkey⟩
  rw [resolveFrom.eq_def]
  exact if_pos hvisiting

/-! ### Trails -/

/-- The classlikes that are being resolved when a search from `start` comes to `next`. -/
structure Trail (t : Tables) (start : String) (trail : List String) (next : String) : Prop where
  indexed : ∀ v ∈ trail, (t.classlike? v).isSome
  distinct : (trail.map Name.key).Nodup
  steps : trail.IsChain t.Extends
  /-- The last one lists the name that the search has come to. -/
  leads : ∀ v, trail.getLast? = some v → ∃ c, t.classlike? v = some c ∧ next ∈ c.ancestors
  /-- A search that has not gone on is still at its start. -/
  starts : (trail = [] ∧ next = start) ∨
    ∃ first, trail.head? = some first ∧ Name.key first = Name.key start

namespace Trail

variable {start next : String} {trail : List String}

theorem nil (t : Tables) (start : String) : t.Trail start [] start where
  indexed v hv := absurd hv List.not_mem_nil
  distinct := List.nodup_nil
  steps := .nil
  leads v hv := by cases hv
  starts := .inl ⟨rfl, rfl⟩

theorem steps_next (h : t.Trail start trail next) : (trail ++ [next]).IsChain t.Extends := by
  refine h.steps.append (.singleton next) fun v hv n hn => ?_
  obtain ⟨c, hc, hnext⟩ := h.leads v hv
  obtain rfl : next = n := Option.some.inj hn
  exact ⟨c, hc, next, hnext, rfl⟩

/-- One step: a name that is looked up joins the trail under the name it is stored with. -/
theorem snoc (h : t.Trail start trail next) {c : ClasslikeSymbol} {n : String}
    (hfresh : ∀ v ∈ trail, Name.key v ≠ Name.key next) (hc : t.classlike? next = some c)
    (hn : n ∈ c.ancestors) : t.Trail start (trail ++ [c.full]) n := by
  have hkey : c.key = Name.key next := KeyedTable.key_of_get? hc
  rw [ClasslikeSymbol.key] at hkey
  have hself : t.classlike? c.full = some c := by
    rw [classlike?, hkey]
    exact hc
  refine ⟨fun v hv => ?_, ?_, ?_, fun v hv => ?_, .inr ?_⟩
  · rcases List.mem_append.1 hv with hv | hv
    · exact h.indexed v hv
    · rw [List.mem_singleton.1 hv, hself]
      rfl
  · rw [List.map_append, List.map_singleton, hkey]
    refine List.nodup_append.2 ⟨h.distinct, List.pairwise_singleton _ _, ?_⟩
    rintro k hk l hl rfl
    obtain ⟨v, hv, rfl⟩ := List.mem_map.1 hk
    exact hfresh v hv (List.mem_singleton.1 hl)
  · refine h.steps.append (.singleton _) fun v hv m hm => ?_
    obtain ⟨d, hd, hnext⟩ := h.leads v hv
    obtain rfl : c.full = m := Option.some.inj hm
    exact ⟨d, hd, next, hnext, hkey.symm⟩
  · rw [List.getLast?_append, List.getLast?_singleton] at hv
    obtain rfl : c.full = v := Option.some.inj hv
    exact ⟨c, hself, hn⟩
  · rcases h.starts with ⟨rfl, rfl⟩ | ⟨first, hfirst, hstart⟩
    · exact ⟨c.full, rfl, hkey⟩
    · exact ⟨first, by rw [List.head?_append, hfirst]; rfl, hstart⟩

/-- All that is on a trail is reached from its start, and so is what the trail leads to. -/
theorem reaches (h : t.Trail start trail next) {v b : String} (hv : v ∈ trail)
    (hstep : t.Extends v b) : TransGen t.Extends start b := by
  have hcarry : ∀ ⦃x y : String⦄, t.Extends x y →
      Name.key x = Name.key start ∨ TransGen t.Extends start x → TransGen t.Extends start y := by
    rintro x y hxy (hkey | hx)
    · exact .single (hxy.congr_left hkey)
    · exact hx.tail hxy
  refine hcarry hstep (h.steps.induction
    (fun x => Name.key x = Name.key start ∨ TransGen t.Extends start x) trail
    (fun x y hxy hx => .inr (hcarry hxy hx)) (fun hne => .inl ?_) v hv)
  rcases h.starts with ⟨rfl, -⟩ | ⟨first, hfirst, hstart⟩
  · exact absurd rfl hne
  · rw [List.head?_eq_some_head hne] at hfirst
    rw [Option.some.inj hfirst, hstart]

end Trail

/-- A search that fails has come to a name that it is resolving, or to one for which there is no
room, or it has not found the name that it was asked for. -/
theorem exists_trail_of_resolveFrom_error {start : String} {room : Nat} {visiting : List String}
    {name : String} {e : ResolutionError} (htrail : t.Trail start visiting name)
    (h : t.resolveFrom room visiting name = .error e) :
    (e = .unknown name ∧ t.classlike? name = none) ∨
    ∃ trail next, t.Trail start trail next ∧
      ((∃ v ∈ trail, Name.key v = Name.key next) ∧
        e = .circular next (trail.dropWhile (fun v => Name.key v != Name.key next) ++ [next]) ∨
      trail.length = visiting.length + room ∧ e = .tooDeep next) := by
  induction room using Nat.strong_induction_on generalizing visiting name with
  | _ room ih =>
    by_cases hvisiting : ∃ v ∈ visiting, Name.key v = Name.key name
    · rw [resolveFrom_of_visiting hvisiting] at h
      exact .inr ⟨visiting, name, htrail, .inl ⟨hvisiting, (Except.error.inj h).symm⟩⟩
    · rcases resolveFrom_cases t room visiting name with
        ⟨v, hv, hkey, -⟩ | ⟨rfl, heq⟩ | ⟨-, hnone, heq⟩ | ⟨rest, c, rfl, hc, heq⟩
      · exact absurd ⟨v, hv, hkey⟩ hvisiting
      · rw [heq] at h
        exact .inr ⟨visiting, name, htrail, .inr ⟨rfl, (Except.error.inj h).symm⟩⟩
      · rw [heq] at h
        exact .inl ⟨(Except.error.inj h).symm, hnone⟩
      · -- the error comes from something that the classlike lists, and is not that it is unknown
        rw [heq] at h
        obtain ⟨n, hn, hresult⟩ := exists_of_flattenWith_error h
        have hstep := htrail.snoc (fun v hv hkey => hvisiting ⟨v, hv, hkey⟩) hc hn
        rcases ih rest (Nat.lt_succ_self rest) hstep hresult with
          ⟨rfl, -⟩ | ⟨trail, next, hdeeper, hend⟩
        · exact absurd h (flattenWith_ne_unknown _ c n)
        · refine .inr ⟨trail, next, hdeeper, hend.imp_right fun ⟨hlength, herror⟩ => ⟨?_, herror⟩⟩
          rw [hlength, List.length_append, List.length_singleton]
          omega

/-! ### What an error says -/

/-- A chain of classlikes that is reached from a name and comes back to its first one. -/
structure Circle (t : Tables) (name last : String) (chain : List String) : Prop where
  two_le : 2 ≤ chain.length
  ends : chain.getLast? = some last
  reached : ∃ first, chain.head? = some first ∧ Name.key first = Name.key last ∧
    ReflTransGen t.Extends name first
  distinct : (chain.dropLast.map Name.key).Nodup
  steps : chain.IsChain t.Extends

/-- As many different classlikes as may be resolved at a time, from a name on, and then one more
name. -/
structure FullWalk (t : Tables) (maxDepth : Nat) (name next : String) (walk : List String) :
    Prop where
  full : walk.length = maxDepth
  starts : ∃ first, walk.head? = some first ∧ Name.key first = Name.key name
  indexed : ∀ v ∈ walk, (t.classlike? v).isSome
  distinct : (walk.map Name.key).Nodup
  steps : walk.IsChain t.Extends
  lists : ∃ last c, walk.getLast? = some last ∧ t.classlike? last = some c ∧ next ∈ c.ancestors

/-- What an error says about the tables. -/
def Justified (t : Tables) (maxDepth : Nat) (name : String) : ResolutionError → Prop
  | .unknown n => n = name ∧ t.classlike? name = none
  | .circular n chain => t.Circle name n chain
  | .tooDeep n => ∃ walk, t.FullWalk maxDepth name n walk

theorem Trail.circle {start next : String} {trail : List String} (h : t.Trail start trail next)
    (hmet : ∃ v ∈ trail, Name.key v = Name.key next) :
    t.Circle start next
      (trail.dropWhile (fun v => Name.key v != Name.key next) ++ [next]) := by
  obtain ⟨v, hv, hkey⟩ := hmet
  obtain ⟨first, rest, hdrop, hfirst⟩ := exists_dropWhile_eq_cons
    (p := fun v => Name.key v != Name.key next) ⟨v, hv, by simp [hkey]⟩
  have hsuffix := List.dropWhile_suffix (l := trail) fun v => Name.key v != Name.key next
  rw [hdrop] at hsuffix ⊢
  have hsame : Name.key first = Name.key next := by simpa using hfirst
  refine ⟨by simp, List.getLast?_concat, ⟨first, rfl, hsame, ?_⟩, ?_, ?_⟩
  · -- the last of the trail lists the name again, so the circle is reached behind it
    have hne : trail ≠ [] := List.ne_nil_of_mem hv
    obtain ⟨c, hc, hnext⟩ := h.leads _ (List.getLast?_eq_some_getLast hne)
    exact (h.reaches (List.getLast_mem hne) ⟨c, hc, next, hnext, hsame.symm⟩).to_reflTransGen
  · rw [List.dropLast_concat]
    exact h.distinct.sublist (hsuffix.sublist.map Name.key)
  · obtain ⟨front, hfront⟩ := hsuffix
    refine h.steps_next.suffix ⟨front, ?_⟩
    rw [← List.append_assoc, hfront]

theorem Trail.fullWalk {start next : String} {trail : List String} (h : t.Trail start trail next)
    (hne : trail ≠ []) : t.FullWalk trail.length start next trail where
  full := rfl
  starts := h.starts.resolve_left fun hempty => hne hempty.1
  indexed := h.indexed
  distinct := h.distinct
  steps := h.steps
  lists := by
    obtain ⟨c, hc, hnext⟩ := h.leads _ (List.getLast?_eq_some_getLast hne)
    exact ⟨_, c, List.getLast?_eq_some_getLast hne, hc, hnext⟩

/-- Every error is justified by the tables.  Only with a maximum depth of zero nothing is looked up,
and the name itself is too deep. -/
theorem resolve_error_justified (t : Tables) (maxDepth : Nat) (name : String) (e : ResolutionError)
    (h : t.resolve maxDepth name = .error e) :
    (0 < maxDepth → t.Justified maxDepth name e) ∧ (maxDepth = 0 → e = .tooDeep name) := by
  constructor
  · intro hpos
    rcases exists_trail_of_resolveFrom_error (.nil t name) h with
      ⟨rfl, hnone⟩ | ⟨trail, next, htrail, ⟨hmet, rfl⟩ | ⟨hlength, rfl⟩⟩
    · exact ⟨rfl, hnone⟩
    · exact htrail.circle hmet
    · rw [List.length_nil, Nat.zero_add] at hlength
      have hne : trail ≠ [] := List.ne_nil_of_length_pos (hlength ▸ hpos)
      exact ⟨trail, hlength ▸ htrail.fullWalk hne⟩
  · rintro rfl
    exact (Except.error.inj h).symm

/-- The two classes are reported with the chain that leads back to the first, in the spelling that
the second one has for it. -/
theorem resolve_error_justified_mutualParents :
    mutualParents.resolve 10 "A" = .error (.circular "\\a" ["\\A", "\\B", "\\a"]) ∧
      mutualParents.Circle "A" "\\a" ["\\A", "\\B", "\\a"] := by
  have hresult : mutualParents.resolve 10 "A" =
      .error (.circular "\\a" ["\\A", "\\B", "\\a"]) := by decide +kernel
  exact ⟨hresult, (resolve_error_justified mutualParents 10 "A" _ hresult).1 (by decide)⟩

/-- With a maximum depth of zero, a name that nothing is known of is too deep. -/
theorem not_forall_error_justified :
    ¬∀ (t : Tables) (maxDepth : Nat) (name : String) (e : ResolutionError),
      t.resolve maxDepth name = .error e → t.Justified maxDepth name e := by
  intro hall
  obtain ⟨walk, hwalk⟩ := hall Tables.empty 0 "\\A" (.tooDeep "\\A") rfl
  obtain ⟨first, hfirst, -⟩ := hwalk.starts
  rw [List.eq_nil_of_length_eq_zero hwalk.full] at hfirst
  cases hfirst

end Tables
end PhpAtlas
