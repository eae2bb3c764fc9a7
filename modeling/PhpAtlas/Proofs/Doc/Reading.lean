import PhpAtlas.Proofs.Doc.Written

/-!
# The steps of reading

Reading takes a text apart step by step.  Of each step only a little matters for what is read: which
piece of the text is read on, how deep it lies, and whether separators were seen in front of it.

## Main definitions

* `DocType.Reads` — what a step of reading does.

## Main results

* `DocType.reads_parse` — reading a text takes these steps.
-/

namespace PhpAtlas

open Text

/-! ### Arguments of generic types -/

theorem nesting_of_isAlpha {c : Char} (h : c.isAlpha = true) : nesting c = 0 := by
  have hplain : Text.isPlain [c] = true :=
    isPlain_of_forall (p := Char.isAlpha) (by decide) (by simpa using h)
  simpa using net_of_isPlain hplain

theorem nesting_toLower (c : Char) : nesting c.toLower = nesting c := by
  by_cases h : c.isAlpha = true
  · rw [nesting_of_isAlpha h, nesting_of_isAlpha (c.isAlpha_toLower_eq_isAlpha.trans h)]
  · have hupper : ¬c.isUpper = true := fun hupper => h (by rw [Char.isAlpha, hupper, Bool.true_or])
    rw [Char.toLower_eq_of_not_isUpper hupper]

theorem net_fold (t : Text) : net (Text.fold t) = net t := by
  induction t with
  | nil => rfl
  | cons c t ih =>
    rw [Text.fold, List.map_cons, net_cons, net_cons, nesting_toLower]
    exact congrArg _ ih

namespace DocType

/-- Both words that take arguments have no brackets, so each argument lies one level deep. -/
theorem within_argument {base inner piece : Text} (hnet : net base = 0) (h : Within 0 inner piece) :
    Within 1 (base ++ '<' :: inner ++ ['>']) piece := by
  have hinner : Within 1 (base ++ '<' :: inner ++ ['>']) inner :=
    ⟨base ++ ['<'], ['>'], by simp, by simp [hnet, nesting]⟩
  exact hinner.trans h

theorem elementsOf_list {base element : Text} {arguments : List Text}
    (h : elementsOf base arguments = .list element) : net base = 0 := by
  unfold elementsOf at h
  split at h
  · rename_i hlist
    obtain ⟨w, hw, heq⟩ := exists_of_foldMem hlist
    have hwords : ∀ w ∈ listWords, net (Text.fold w.toList) = 0 := by decide
    rw [← net_fold, heq, hwords w hw]
  · dsimp only at h
    split at h <;> cases h

theorem elementsOf_values {base value : Text} {arguments : List Text}
    (h : elementsOf base arguments = .values value) : IsContainer base := by
  unfold elementsOf at h
  split at h
  · cases h
  · dsimp only at h
    split at h
    · rename_i hclass
      exact (Bool.and_eq_true_iff.1 hclass).1
    · cases h

/-! ### Steps -/

/-- What a step of reading does: `Reads x t` if the text `x` is read as `t`. -/
inductive Reads : Text → DocType → Prop
  | blank {x : Text} : Reads x (.special "mixed")
  | atom {x : Text} (h : TypeForm.of (trim x) = .atom) : Reads x (ofAtom (trim x))
  | union {x : Text} {parts : List Text} {read : Text → DocType}
      (hbar : exposed '|' 0 (trim x) = true) (hlength : 2 ≤ parts.length)
      (hwithin : ∀ p ∈ parts, Within 0 (trim x) p) (h : ∀ p ∈ parts, Reads p (read p)) :
      Reads x (.union (parts.flatMap fun p => alternatives (read p)))
  /-- What is behind the piece is left out. -/
  | front {x front back : Text} {t : DocType} (hx : trim x = front ++ back) (h : Reads front t) :
      Reads x t
  | nullable {x rest : Text} {t : DocType} (hx : trim x = '?' :: rest) (hsealed : Sealed 0 (trim x))
      (h : Reads rest t) : Reads x (.nullable t)
  | array {x base : Text} {t : DocType} (hx : trim x = base ++ ['[', ']'])
      (hsealed : Sealed 0 (trim x)) (hhead : (trim x).head? ≠ some '?') (h : Reads base t) :
      Reads x (.array t)
  | group {x inner : Text} {t : DocType} (hx : trim x = bracket inner) (hsealed : Sealed 0 (trim x))
      (h : Reads inner t) : Reads x t
  | list {x element : Text} {t : DocType} (hsealed : Sealed 0 (trim x))
      (hwithin : Within 1 (trim x) element) (h : Reads element t) : Reads x (.array t)
  | values {x base value : Text} {t : DocType} (hbase : IsContainer base)
      (hsealed : Sealed 0 (trim x)) (hwithin : Within 1 (trim x) value) (h : Reads value t) :
      Reads x (.iterable (parse base) t)

theorem parse_trim (t : Text) : parse (trim t) = parse t := by
  rw [parse_eq, parse_eq t, (tight_trim t).trim_eq]

/-- Reading a text takes these steps. -/
theorem reads_parse (x : Text) : Reads x (parse x) := by
  -- every piece that is read on is shorter than the text
  induction hn : x.length using Nat.strong_induction_on generalizing x with
  | _ n ih =>
    subst hn
    have hdescribes := TypeForm.describes_of (trim x)
    have hshorter := TypeForm.length_pieces_trim x
    rw [parse_eq]
    cases hform : TypeForm.of (trim x) with
    | blank => exact .blank
    | atom => exact .atom hform
    | union parts =>
      rw [hform] at hdescribes hshorter
      obtain ⟨hbar, hparts⟩ := hdescribes
      have hlength : 2 ≤ parts.length := by
        obtain ⟨w, rest, q, ps, -, hcut⟩ := exists_outerParts_of_exposed hbar
        rw [hparts, hcut]
        simp
      refine .union hbar hlength ?_ fun p hp => ih p.length (hshorter p hp) p rfl
      intro p hp
      rw [hparts] at hp
      exact (within_of_mem_outerParts hp).1
    | intersection first =>
      rw [hform] at hdescribes
      obtain ⟨-, w, rest, hx, rfl⟩ := hdescribes
      have hlength : w.length < x.length := by
        have := length_trim_le x
        rw [hx] at this
        simp at this
        omega
      rw [readForm, parse_trim]
      exact .front hx (ih w.length hlength w rfl)
    | nullable rest =>
      rw [hform] at hdescribes hshorter
      obtain ⟨hsealed, hx⟩ := hdescribes
      exact .nullable hx hsealed (ih _ (hshorter rest (by simp [TypeForm.pieces])) rest rfl)
    | array base =>
      rw [hform] at hdescribes hshorter
      obtain ⟨hsealed, hhead, hx⟩ := hdescribes
      exact .array hx hsealed hhead (ih _ (hshorter base (by simp [TypeForm.pieces])) base rfl)
    | group inner =>
      rw [hform] at hdescribes hshorter
      obtain ⟨hsealed, hx⟩ := hdescribes
      exact .group hx hsealed (ih _ (hshorter inner (by simp [TypeForm.pieces])) inner rfl)
    | shape base =>
      rw [hform] at hdescribes hshorter
      obtain ⟨-, rest, hx⟩ := hdescribes
      exact .front hx (ih _ (hshorter base (by simp [TypeForm.pieces])) base rfl)
    | generic base arguments =>
      rw [hform] at hdescribes hshorter
      obtain ⟨hsealed, inner, hx, harguments⟩ := hdescribes
      have hbase : base.length < x.length := hshorter base (by simp [TypeForm.pieces])
      cases helements : elementsOf base arguments with
      | list element =>
        simp only [readForm, helements]
        have hnet := elementsOf_list helements
        rcases elementsOf_list_mem helements with rfl | hmem
        -- without arguments the empty text is read
        · have hwithin : Within 1 (trim x) [] := by
            rw [hx]
            exact within_argument hnet (within_start [] inner)
          exact .list hsealed hwithin (ih _ (by simp only [List.length_nil]; omega) [] rfl)
        · have hwithin : Within 1 (trim x) element := by
            rw [hx]
            exact within_argument hnet (within_of_mem_outerParts (harguments ▸ hmem)).1
          exact .list hsealed hwithin
            (ih _ (hshorter element (List.mem_cons_of_mem _ hmem)) element rfl)
      | values value =>
        simp only [readForm, helements]
        have hmem := elementsOf_values_mem helements
        have hcontainer := elementsOf_values helements
        have hwithin : Within 1 (trim x) value := by
          rw [hx]
          exact within_argument (net_of_isPlain hcontainer.isPlain)
            (within_of_mem_outerParts (harguments ▸ hmem)).1
        refine .values hcontainer hsealed hwithin (ih _ ?_ value rfl)
        exact hshorter value (List.mem_cons_of_mem _ hmem)
      | unknown =>
        simp only [readForm, helements]
        rw [List.append_assoc] at hx
        exact .front hx (ih _ hbase base rfl)

end DocType
end PhpAtlas
