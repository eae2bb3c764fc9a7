import Mathlib
import PhpAtlas.Proofs.Text.Pieces
import PhpAtlas.Scope.Resolve

/-!
# Names and their segments

A name is compared up to the case of its ASCII letters, but cut by bytes, and a namespace is put in
front of a name without a look at what is in the name.  So the segments of a name are those of its
parts, and folding changes neither the number of characters nor that of bytes.

## Main definitions

* `Name.segments` — the segments of a fully qualified name.
* `Name.isOrdinary` — a fully qualified name without reserved words.

## Main results

* `Text.splitAtByte?_eq_some_iff` — cutting by bytes.
* `Name.join_eq_append` — a namespace is a prefix.
* `Name.mem_segments_join` — what is put into a namespace keeps its segments.
-/

namespace PhpAtlas
namespace Text

/-! ### Bytes -/

theorem utf8Size_of_isAlpha {c : Char} (h : c.isAlpha = true) : c.utf8Size = 1 := by
  simp only [Char.isAlpha, Char.isUpper, Char.isLower, Bool.or_eq_true, Bool.and_eq_true,
    decide_eq_true_eq, UInt32.le_iff_toNat_le, ge_iff_le] at h
  rw [Char.utf8Size_eq_one_iff, UInt32.le_iff_toNat_le]
  simp at h ⊢
  omega

theorem utf8Size_toLower (c : Char) : c.toLower.utf8Size = c.utf8Size := by
  by_cases h : c.isUpper = true
  · have halpha : c.isAlpha = true := by rw [Char.isAlpha, h, Bool.true_or]
    rw [utf8Size_of_isAlpha halpha,
      utf8Size_of_isAlpha (c.isAlpha_toLower_eq_isAlpha.trans halpha)]
  · rw [Char.toLower_eq_of_not_isUpper h]

theorem byteLength_fold (t : Text) : byteLength (Text.fold t) = byteLength t := by
  induction t with
  | nil => rfl
  | cons c t ih =>
    rw [Text.fold, List.map_cons, byteLength, byteLength, utf8Size_toLower]
    exact congrArg _ ih

theorem byteLength_eq_of_fold {a b : Text} (h : Text.fold a = Text.fold b) :
    byteLength a = byteLength b := by
  rw [← byteLength_fold, h, byteLength_fold]

theorem exists_append_of_fold {t a b : Text} (h : Text.fold t = Text.fold (a ++ b)) :
    ∃ a' b', t = a' ++ b' ∧ Text.fold a' = Text.fold a ∧ Text.fold b' = Text.fold b := by
  rw [Text.fold, Text.fold, List.map_append] at h
  exact List.map_eq_append_iff.1 h

theorem fold_append (a b : Text) : Text.fold (a ++ b) = Text.fold a ++ Text.fold b :=
  List.map_append

theorem length_eq_of_fold {a b : Text} (h : Text.fold a = Text.fold b) : a.length = b.length := by
  simpa [Text.fold] using congrArg List.length h

theorem byteLength_append (a b : Text) : byteLength (a ++ b) = byteLength a + byteLength b := by
  induction a with
  | nil => rw [byteLength, List.nil_append, Nat.zero_add]
  | cons c a ih => rw [List.cons_append, byteLength, byteLength, ih, Nat.add_assoc]

theorem splitAtByte?_append (a b : Text) : splitAtByte? (byteLength a) (a ++ b) = some (a, b) := by
  induction a with
  | nil => rw [byteLength, splitAtByte?, List.nil_append]
  | cons c a ih =>
    obtain ⟨n, hn⟩ : ∃ n, c.utf8Size + byteLength a = n + 1 :=
      Nat.exists_eq_add_one_of_ne_zero (by have := c.utf8Size_pos; omega)
    have hrest : n + 1 - c.utf8Size = byteLength a := by omega
    rw [byteLength, hn, List.cons_append, splitAtByte?, if_pos (by omega), hrest, ih]
    rfl

/-- A cut by bytes is between two characters. -/
theorem splitAtByte?_eq_some_iff {n : Nat} {t a b : Text} :
    splitAtByte? n t = some (a, b) ↔ t = a ++ b ∧ byteLength a = n := by
  constructor
  · intro h
    induction t generalizing n a with
    | nil =>
      cases n with
      | zero =>
        obtain ⟨rfl, rfl⟩ := Prod.mk.inj (Option.some.inj h)
        exact ⟨rfl, rfl⟩
      | succ n => simp [splitAtByte?] at h
    | cons c t ih =>
      cases n with
      | zero =>
        obtain ⟨rfl, rfl⟩ := Prod.mk.inj (Option.some.inj h)
        exact ⟨rfl, rfl⟩
      | succ n =>
        rw [splitAtByte?] at h
        split at h
        · obtain ⟨⟨a', b'⟩, hrest, hpair⟩ := Option.map_eq_some_iff.1 h
          obtain ⟨rfl, rfl⟩ := Prod.mk.inj hpair
          obtain ⟨rfl, hlength⟩ := ih hrest
          refine ⟨rfl, ?_⟩
          rw [byteLength]
          omega
        · cases h
  · rintro ⟨rfl, rfl⟩
    exact splitAtByte?_append a b

end Text

theorem foldEq_iff_toList {a b : String} :
    foldEq a b = true ↔ Text.fold a.toList = Text.fold b.toList := by
  rw [foldEq_iff, fold, fold]
  exact String.ofList_inj

namespace Name

/-! ### Namespaces -/

/-- The segments of a fully qualified name. -/
def segments (full : String) : List Text := Text.splitAll (· == separator) (full.toList.drop 1)

/-- A word that a reader of names takes in another way: up to case the words for the class around a
place, and the word in front of a name relative to the namespace. -/
def isReserved (w : Text) : Bool :=
  foldMem (String.ofList w) classWords || String.ofList w == "namespace"

/-- A fully qualified name of segments that are neither empty nor reserved. -/
def isOrdinary (full : String) : Bool :=
  isQualified full && (segments full).all fun w => !w.isEmpty && !isReserved w

theorem join_eq_append (space : Option String) (name : String) :
    join space name = join space "" ++ name := by
  unfold join
  split
  · rw [String.append_empty]
  · split
    · rw [String.append_empty]
    · simp

theorem hasSeparator_eq_false_iff {name : String} :
    hasSeparator name = false ↔ ∀ c ∈ name.toList, (c == separator) = false := by
  rw [hasSeparator, ← Bool.not_eq_true, List.contains_iff_mem]
  constructor
  · intro h c hc
    rw [beq_eq_false_iff_ne]
    rintro rfl
    exact h hc
  · intro h hmem
    cases h _ hmem

theorem toLower_eq_separator {c : Char} (h : c.toLower = separator) : c = separator := by
  by_cases hupper : c.isUpper = true
  · have halpha : c.toLower.isAlpha = true := by
      rw [Char.isAlpha_toLower_eq_isAlpha, Char.isAlpha, hupper, Bool.true_or]
    rw [h] at halpha
    cases halpha
  · rwa [Char.toLower_eq_of_not_isUpper hupper] at h

theorem hasSeparator_fold (name : String) : hasSeparator (fold name) = hasSeparator name := by
  rw [Bool.eq_iff_iff, hasSeparator, hasSeparator, List.contains_iff_mem, List.contains_iff_mem,
    fold, String.toList_ofList, Text.fold, List.mem_map]
  constructor
  · rintro ⟨c, hc, hlower⟩
    exact toLower_eq_separator hlower ▸ hc
  · exact fun hmem => ⟨separator, hmem, by decide⟩

theorem isQualified_fold (name : String) : isQualified (fold name) = isQualified name := by
  rw [isQualified, isQualified, fold, String.toList_ofList, Text.fold, List.head?_map]
  cases name.toList.head? with
  | none => rfl
  | some c =>
    rw [Option.map_some, Bool.eq_iff_iff, beq_iff_eq, beq_iff_eq, Option.some.injEq,
      Option.some.injEq]
    refine ⟨toLower_eq_separator, ?_⟩
    rintro rfl
    decide

theorem fold_qualify (name : String) : fold (qualify name) = qualify (fold name) := by
  rw [qualify, qualify, isQualified_fold]
  split
  · rfl
  · rw [fold, String.toList_append, Text.fold_append, String.ofList_append]
    rfl

/-- Names that are equal up to case stand for one classlike. -/
theorem key_of_foldEq {a b : String} (h : foldEq a b = true) : key a = key b := by
  rw [key, key, fold_qualify, fold_qualify, foldEq_iff.1 h]

theorem hasSeparator_of_isQualified {name : String} (h : isQualified name = true) :
    hasSeparator name = true := by
  rw [isQualified, beq_iff_eq] at h
  exact List.contains_iff_mem.2 (List.mem_of_head? h)

/-- A name with a separator, cut at the first one. -/
theorem exists_path {name : String} (h : hasSeparator name = true) :
    ∃ first rest, name = first ++ "\\" ++ rest ∧ hasSeparator first = false := by
  cases hsplit : Text.splitOnce? (· == separator) name.toList with
  | none =>
    have hnot := hasSeparator_eq_false_iff.2 (Text.splitOnce?_eq_none_iff.1 hsplit)
    rw [h] at hnot
    cases hnot
  | some pair =>
    obtain ⟨c, hc, hfirst, hname⟩ := Text.splitOnce?_eq_some_iff.1 hsplit
    obtain rfl := beq_iff_eq.1 hc
    refine ⟨String.ofList pair.1, String.ofList pair.2, ?_, ?_⟩
    · rw [← String.toList_inj, hname]
      simp [separator]
    · rw [hasSeparator_eq_false_iff, String.toList_ofList]
      exact hfirst

theorem hasSeparator_append_cons (a b : String) : hasSeparator (a ++ "\\" ++ b) = true := by
  simp [hasSeparator, separator]

/-- In front of a name stands a backslash, or a namespace between backslashes. -/
theorem toList_join_empty (space : Option String) : (join space "").toList = [separator] ∨
    ∃ ns : Text, (join space "").toList = separator :: (ns ++ [separator]) := by
  unfold join
  split
  · exact .inl rfl
  · rename_i ns _
    split
    · exact .inl rfl
    · exact .inr ⟨ns.toList, by simp [separator]⟩

/-- What is put into a namespace keeps its segments. -/
theorem mem_segments_join (space : Option String) {name : String} {w : Text}
    (h : w ∈ Text.splitAll (· == separator) name.toList) : w ∈ segments (join space name) := by
  rw [segments, join_eq_append, String.toList_append]
  rcases toList_join_empty space with hempty | ⟨ns, hns⟩
  · rw [hempty]
    exact h
  · rw [hns, List.cons_append, List.drop_one, List.tail_cons, List.append_assoc,
      List.singleton_append, Text.splitAll_append_cons (by decide), List.mem_append]
    exact .inr h

theorem splitAll_path {first : String} (h : hasSeparator first = false) (rest : String) :
    Text.splitAll (· == separator) (first ++ "\\" ++ rest).toList =
      first.toList :: Text.splitAll (· == separator) rest.toList := by
  have htext : (first ++ "\\" ++ rest).toList = first.toList ++ separator :: rest.toList := by
    simp [separator]
  rw [htext, Text.splitAll_append_cons (by decide),
    Text.splitAll_of_forall (hasSeparator_eq_false_iff.1 h)]
  rfl

theorem join_injective {space : Option String} {a b : String} (h : join space a = join space b) :
    a = b := by
  rw [join_eq_append, join_eq_append space b] at h
  exact (String.append_right_inj _).1 h

theorem exists_of_isQualified {full : String} (h : isQualified full = true) :
    ∃ name, full = "\\" ++ name := by
  rw [isQualified, beq_iff_eq] at h
  obtain ⟨body, hbody⟩ := List.head?_eq_some_iff.1 h
  refine ⟨String.ofList body, ?_⟩
  rw [← String.toList_inj, hbody]
  simp [separator]

/-! ### Global names -/

/-- A global name lies in the current namespace only if that is the global one. -/
theorem join_of_eq_global {space : Option String} {name other : String}
    (h : "\\" ++ name = join space other) (hshort : hasSeparator name = false) :
    join space name = "\\" ++ name := by
  rw [join_eq_append, ← String.toList_inj, String.toList_append] at h
  rcases toList_join_empty space with hempty | ⟨ns, hns⟩
  · rw [join_eq_append, ← String.toList_inj, String.toList_append, hempty]
    simp [separator]
  · rw [String.toList_append, hns] at h
    have hname : name.toList = ns ++ [separator] ++ other.toList := (List.cons.inj h).2
    have hmem : separator ∈ name.toList := by simp [hname]
    cases hasSeparator_eq_false_iff.1 hshort _ hmem

theorem count_separator (name : String) :
    ("\\" ++ name).toList.count separator = 1 ↔ hasSeparator name = false := by
  rw [hasSeparator, ← Bool.not_eq_true, List.contains_iff_mem]
  simp [separator, List.count_eq_zero]

theorem short_of_not_hasSeparator {name : String} (h : hasSeparator name = false) :
    short ("\\" ++ name) = name := by
  rw [hasSeparator_eq_false_iff] at h
  have hname : ∀ c ∈ name.toList.reverse, (c != separator) = true := by
    intro c hc
    rw [bne, h c (List.mem_reverse.1 hc)]
    rfl
  have htext : ("\\" ++ name).toList.reverse = name.toList.reverse ++ [separator] := by
    simp [separator]
  rw [short, htext, List.takeWhile_append_of_pos hname]
  simp

end Name
end PhpAtlas
