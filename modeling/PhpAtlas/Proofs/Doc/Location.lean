import Mathlib
import PhpAtlas.Doc.Locate
import PhpAtlas.Proofs.Scope.Names

/-!
# The documentation comment of a node

The comment of a node is searched backwards over the blanks and comments in front of it.  The search
looks at the gaps between them and stops at the first documentation comment, so that what it finds
is the nearest one, and every byte from its end to the node is blank or lies in a plain comment.

## Main definitions

* `Text.bytes` — the bytes of a text.
* `Trivia.gaps` — what the search looks at.
* `Trivia.Nearest` — the last documentation comment in front of an offset.

## Main results

* `Text.blankBetween_iff` — a range is blank when each of its bytes is.
* `Trivia.docFrom?_eq_some_iff` — the search, as a condition on the gaps.
* `Trivia.docBefore?_eq_some_iff` — what is found in front of any offset.
* `Trivia.docBefore?_nearest` — **the comment of a node is the nearest one.**
-/

namespace PhpAtlas

namespace Text

/-! ### Bytes -/

/-- The bytes of a text in UTF-8. -/
def bytes (t : Text) : List UInt8 := t.flatMap String.utf8EncodeChar

/-- Space, tab, line feed, form feed and carriage return, as bytes. -/
def isBlankByte (b : UInt8) : Bool := b == 0x20 || b == 9 || b == 10 || b == 12 || b == 13

@[simp] theorem bytes_cons (c : Char) (t : Text) :
    bytes (c :: t) = String.utf8EncodeChar c ++ bytes t := rfl

theorem isBlankByte_ofNat {n : Nat} (h : n < 256) : isBlankByte (UInt8.ofNat n) = true ↔
    n = 0x20 ∨ n = 9 ∨ n = 10 ∨ n = 12 ∨ n = 13 := by
  simp [isBlankByte, ← UInt8.toNat_inj, Nat.mod_eq_of_lt h, or_assoc]

/-- A character is blank when its bytes are: one that takes several bytes has only high ones. -/
theorem isBlankByte_of_mem {c : Char} {b : UInt8} (h : b ∈ String.utf8EncodeChar c) :
    isBlankByte b = isAsciiBlank c := by
  have hcode : c.toNat = c.val.toNat := rfl
  rw [Bool.eq_iff_iff]
  simp only [isAsciiBlank, Bool.or_eq_true, beq_iff_eq, or_assoc, hcode]
  unfold String.utf8EncodeChar at h
  dsimp only at h
  split_ifs at h with hone htwo hthree <;>
    simp only [List.mem_cons, List.not_mem_nil, or_false] at h
  · subst h
    exact isBlankByte_ofNat (by omega)
  · rcases h with rfl | rfl <;> rw [isBlankByte_ofNat (by omega)] <;> omega
  · rcases h with rfl | rfl | rfl <;> rw [isBlankByte_ofNat (by omega)] <;> omega
  · rcases h with rfl | rfl | rfl | rfl <;> rw [isBlankByte_ofNat (by omega)] <;> omega

theorem blankFrom_iff {start stop pos : Nat} (hrange : start < stop) {t : Text} :
    blankFrom start stop pos t = true ↔
      ∀ i b, (bytes t)[i]? = some b → start ≤ pos + i → pos + i < stop → isBlankByte b = true := by
  induction t generalizing pos with
  | nil => simp [blankFrom, bytes]
  | cons c t ih =>
    have hsize := String.length_utf8EncodeChar c
    have hpos := c.utf8Size_pos
    simp only [blankFrom, Bool.and_eq_true, Bool.or_eq_true, decide_eq_true_eq, ih, bytes_cons]
    constructor
    · rintro ⟨hc, ht⟩ i b hb hstart hstop
      rcases Nat.lt_or_ge i c.utf8Size with hi | hi
      · rw [List.getElem?_append_left (by omega)] at hb
        rw [isBlankByte_of_mem (List.mem_of_getElem? hb)]
        rcases hc with (hc | hc) | hc
        · omega
        · omega
        · exact hc
      · rw [List.getElem?_append_right (by omega), hsize] at hb
        exact ht _ b hb (by omega) (by omega)
    · intro h
      constructor
      · rw [or_iff_not_imp_left]
        intro hinside
        -- the range meets the character: take the first byte of both
        have hi : start - pos < (String.utf8EncodeChar c).length := by omega
        rw [← isBlankByte_of_mem (List.getElem_mem hi)]
        refine h (start - pos) _ ?_ (by omega) (by omega)
        rw [List.getElem?_append_left hi, List.getElem?_eq_getElem hi]
      · intro i b hb hstart hstop
        refine h (c.utf8Size + i) b ?_ (by omega) (by omega)
        rw [List.getElem?_append_right (by omega), hsize, Nat.add_sub_cancel_left]
        exact hb

/-- A range that stays inside of the text is blank when each of its bytes is. -/
theorem blankBetween_iff {t : Text} {start stop : Nat} : t.blankBetween start stop = true ↔
    ∀ p b, (bytes t)[p]? = some b → start ≤ p → p < stop → stop ≤ byteLength t →
      isBlankByte b = true := by
  simp only [blankBetween, Bool.or_eq_true, decide_eq_true_eq]
  constructor
  · rintro ((hempty | hbeyond) | h) p b hb hstart hstop hinside
    · omega
    · omega
    · exact (blankFrom_iff (by omega)).1 h p b hb (by omega) (by omega)
  · intro h
    by_cases hempty : stop ≤ start
    · exact .inl (.inl hempty)
    by_cases hinside : stop ≤ byteLength t
    · refine .inr ((blankFrom_iff (by omega)).2 fun i b hb hstart hstop => ?_)
      exact h i b hb (by omega) (by omega) hinside
    · exact .inl (.inr (by omega))

end Text

open Text

namespace Trivia

variable {source : Text} {trivia near : List Trivia} {t : Trivia} {start covered p : Nat}

/-! ### The search -/

/-- The ranges that a search backwards from `covered` looks at: those between the trivia, which are
listed nearest first. -/
def gaps : (covered : Nat) → List Trivia → List Span
  | _, [] => []
  | covered, t :: ts => ⟨t.span.stop, covered⟩ :: gaps t.span.start ts

/-- The search finds the first documentation comment, if the gaps up to it are blank. -/
theorem docFrom?_eq_some_iff {ts : List Trivia} : docFrom? source covered ts = some t ↔
    ∃ near far, ts = near ++ t :: far ∧ t.kind = .docComment ∧ (∀ u ∈ near, u.kind ≠ .docComment) ∧
      ∀ g ∈ gaps covered (near ++ [t]), source.blankBetween g.start g.stop = true := by
  induction ts generalizing covered with
  | nil => simp [docFrom?]
  | cons u ts ih =>
    rw [docFrom?]
    constructor
    · intro h
      split at h
      · rename_i hgap
        split at h
        · rename_i hdoc
          obtain rfl := Option.some.inj h
          exact ⟨[], ts, rfl, hdoc, List.forall_mem_nil _, by simpa [gaps] using hgap⟩
        · rename_i hplain
          obtain ⟨near, far, rfl, hdoc, hnear, hgaps⟩ := ih.1 h
          refine ⟨u :: near, far, rfl, hdoc, List.forall_mem_cons.2 ⟨hplain, hnear⟩, ?_⟩
          exact List.forall_mem_cons.2 ⟨hgap, hgaps⟩
      · cases h
    · rintro ⟨near, far, hts, hdoc, hnear, hgaps⟩
      cases near with
      | nil =>
        obtain ⟨rfl, rfl⟩ := List.cons.inj hts
        rw [if_pos (hgaps _ List.mem_cons_self), if_pos hdoc]
      | cons v near =>
        obtain ⟨rfl, rfl⟩ := List.cons.inj hts
        obtain ⟨hplain, hnear⟩ := List.forall_mem_cons.1 hnear
        obtain ⟨hgap, hgaps⟩ := List.forall_mem_cons.1 hgaps
        rw [if_pos hgap, if_neg hplain]
        exact ih.2 ⟨near, far, rfl, hdoc, hnear, hgaps⟩

/-! ### Gaps and comments -/

/-- Trivia as they stand in a source file: the ranges are in order and do not overlap. -/
structure Ordered (trivia : List Trivia) : Prop where
  range : ∀ t ∈ trivia, t.span.start ≤ t.span.stop
  apart : trivia.Pairwise fun a b => a.span.stop ≤ b.span.start

/-- The position is inside of the range of the trivia. -/
def Inside (t : Trivia) (p : Nat) : Prop := t.span.start ≤ p ∧ p < t.span.stop

/-- The list `near ++ [t]` is in order, nearest first, and ends at or before `covered`. -/
structure Descends (covered : Nat) (near : List Trivia) (t : Trivia) : Prop where
  range : ∀ u ∈ near, u.span.start ≤ u.span.stop
  apart : (near ++ [t]).Pairwise fun a b => b.span.stop ≤ a.span.start
  within : ∀ u ∈ near ++ [t], u.span.stop ≤ covered

theorem Descends.tail {u : Trivia} (h : Descends covered (u :: near) t) :
    Descends u.span.start near t where
  range v hv := h.range v (List.mem_cons_of_mem _ hv)
  apart := (List.pairwise_cons.1 h.apart).2
  within := (List.pairwise_cons.1 h.apart).1

/-- Every position behind `t` lies in a gap or in one of the trivia. -/
theorem Descends.exists_gap (h : Descends covered near t) (hp : t.span.stop ≤ p)
    (hcovered : p < covered) :
    (∃ g ∈ gaps covered (near ++ [t]), g.start ≤ p ∧ p < g.stop) ∨ ∃ u ∈ near, u.Inside p := by
  induction near generalizing covered with
  | nil => exact .inl ⟨_, List.mem_cons_self, hp, hcovered⟩
  | cons u near ih =>
    rcases Nat.lt_or_ge p u.span.start with hbefore | hstart
    · rcases ih h.tail hbefore with ⟨g, hg, hpg⟩ | ⟨v, hv, hpv⟩
      · exact .inl ⟨g, List.mem_cons_of_mem _ hg, hpg⟩
      · exact .inr ⟨v, List.mem_cons_of_mem _ hv, hpv⟩
    · rcases Nat.lt_or_ge p u.span.stop with hinside | hbehind
      · exact .inr ⟨u, List.mem_cons_self, hstart, hinside⟩
      · exact .inl ⟨_, List.mem_cons_self, hbehind, hcovered⟩

/-- A gap lies behind `t`, meets none of the trivia, and ends where the next one begins. -/
theorem Descends.of_mem_gaps (h : Descends covered near t) {g : Span}
    (hg : g ∈ gaps covered (near ++ [t])) :
    t.span.stop ≤ g.start ∧ g.stop ≤ covered ∧
      (∀ u ∈ near, u.span.stop ≤ g.start ∨ g.stop ≤ u.span.start) ∧
      (g.stop = covered ∨ ∃ u ∈ near, g.stop = u.span.start) := by
  induction near generalizing covered with
  | nil =>
    obtain rfl := List.mem_singleton.1 hg
    exact ⟨le_refl _, le_refl _, List.forall_mem_nil _, .inl rfl⟩
  | cons u near ih =>
    obtain ⟨hbelow, -⟩ := List.pairwise_cons.1 h.apart
    have hrange := h.range u List.mem_cons_self
    have hcovered := h.within u List.mem_cons_self
    rcases List.mem_cons.1 hg with rfl | hg
    · -- the first gap: all others of the list end in front of `u`
      have hfirst : ∀ v ∈ near ++ [t], v.span.stop ≤ u.span.stop :=
        fun v hv => le_trans (hbelow v hv) hrange
      refine ⟨hfirst t (by simp), le_refl _, ?_, .inl rfl⟩
      refine List.forall_mem_cons.2 ⟨.inl (le_refl _), fun v hv => .inl ?_⟩
      exact hfirst v (List.mem_append_left _ hv)
    · obtain ⟨hbehind, hstop, hapart, hend⟩ := ih h.tail hg
      refine ⟨hbehind, by omega, List.forall_mem_cons.2 ⟨.inr hstop, hapart⟩, .inr ?_⟩
      rcases hend with hend | ⟨v, hv, hend⟩
      · exact ⟨u, List.mem_cons_self, hend⟩
      · exact ⟨v, List.mem_cons_of_mem _ hv, hend⟩

/-! ### In front of an offset -/

/-- `t` is a documentation comment that begins in front of the offset, and no later one does. -/
def Nearest (trivia : List Trivia) (start : Nat) (t : Trivia) : Prop :=
  ∃ front back, trivia = front ++ t :: back ∧ t.kind = .docComment ∧ t.span.start < start ∧
    ∀ u ∈ back, u.span.start < start → u.kind ≠ .docComment

/-- The byte at the position is blank or lies in trivia that are no documentation comment. -/
def PassedOver (trivia : List Trivia) (p : Nat) (b : UInt8) : Prop :=
  isBlankByte b = true ∨ ∃ u ∈ trivia, u.kind ≠ .docComment ∧ u.Inside p

/-- Behind the position, but not behind the end of the source, stands the start of the node or of
one of the trivia in front of it. -/
def Bounded (source : Text) (trivia : List Trivia) (start p : Nat) : Prop :=
  ∃ q, p < q ∧ q ≤ byteLength source ∧
    (q = start ∨ ∃ u ∈ trivia, u.span.start < start ∧ q = u.span.start)

/-- In a sorted list, what begins in front of the offset is a front part. -/
theorem mem_takeWhile_start {ts : List Trivia}
    (hsorted : ts.Pairwise fun a b => a.span.start ≤ b.span.start) {u : Trivia} :
    u ∈ ts.takeWhile (·.span.start < start) ↔ u ∈ ts ∧ u.span.start < start := by
  induction ts with
  | nil => simp
  | cons v ts ih =>
    obtain ⟨hv, hsorted⟩ := List.pairwise_cons.1 hsorted
    have ih := ih hsorted
    by_cases hstart : v.span.start < start
    · rw [List.takeWhile_cons_of_pos (by simpa using hstart), List.mem_cons, List.mem_cons, ih,
        or_and_right, and_iff_left_of_imp (a := u = v)]
      rintro rfl
      exact hstart
    · rw [List.takeWhile_cons_of_neg (by simpa using hstart)]
      refine ⟨fun hu => absurd hu List.not_mem_nil, ?_⟩
      rintro ⟨hu, hbefore⟩
      rcases List.mem_cons.1 hu with rfl | hu
      · exact absurd hbefore hstart
      · exact absurd (lt_of_le_of_lt (hv u hu) hbefore) hstart

/-- The trivia of a list that begin in front of the offset, nearest first. -/
def between (start : Nat) (back : List Trivia) : List Trivia :=
  (back.takeWhile (·.span.start < start)).reverse

section

variable {front back : List Trivia} (hordered : Ordered trivia)
  (htrivia : trivia = front ++ t :: back) (ht : t.span.start < start)

include hordered htrivia

theorem Ordered.mem_between {u : Trivia} :
    u ∈ between start back ↔ u ∈ back ∧ u.span.start < start := by
  subst htrivia
  rw [between, List.mem_reverse]
  refine mem_takeWhile_start ?_
  have hapart := (List.pairwise_cons.1 (List.pairwise_append.1 hordered.apart).2.1).2
  refine hapart.imp_of_mem fun {a b} ha _ hab => le_trans (hordered.range a ?_) hab
  simp [ha]

include ht

theorem Ordered.reverse_takeWhile : (trivia.takeWhile (·.span.start < start)).reverse =
    between start back ++ t :: front.reverse := by
  have hfront : ∀ u ∈ front, u.span.start < start := by
    subst htrivia
    intro u hu
    have hapart := (List.pairwise_append.1 hordered.apart).2.2 u hu t List.mem_cons_self
    have hrange := hordered.range u (by simp [hu])
    omega
  rw [htrivia, List.takeWhile_append_of_pos (by simpa using hfront),
    List.takeWhile_cons_of_pos (by simpa using ht), between]
  simp

/-- What begins in front of the offset ends at the latest with `t`, or stands behind it. -/
theorem Ordered.stop_le_or_mem_between {u : Trivia} (hu : u ∈ trivia)
    (hstart : u.span.start < start) : u.span.stop ≤ t.span.stop ∨ u ∈ between start back := by
  have hmem : u ∈ between start back ↔ u ∈ back ∧ u.span.start < start :=
    hordered.mem_between htrivia
  subst htrivia
  have hrange := hordered.range t (by simp)
  rcases List.mem_append.1 hu with hu | hu
  · have hapart := (List.pairwise_append.1 hordered.apart).2.2 u hu t List.mem_cons_self
    exact .inl (le_trans hapart hrange)
  rcases List.mem_cons.1 hu with rfl | hu
  · exact .inl (le_refl _)
  · exact .inr (hmem.2 ⟨hu, hstart⟩)

theorem Ordered.descends (hends : ∀ u ∈ trivia, u.span.start < start → u.span.stop ≤ start) :
    Descends start (between start back) t := by
  have hmem : ∀ u ∈ between start back, u ∈ back ∧ u.span.start < start :=
    fun u hu => (hordered.mem_between htrivia).1 hu
  subst htrivia
  refine ⟨fun u hu => hordered.range u (by simp [(hmem u hu).1]), ?_, ?_⟩
  · have hback := (List.pairwise_append.1 hordered.apart).2.1
    have hsublist : (t :: back.takeWhile (·.span.start < start)).Sublist (t :: back) :=
      (List.takeWhile_sublist _).cons_cons t
    rw [between, ← List.reverse_cons, List.pairwise_reverse]
    exact hback.sublist hsublist
  · intro u hu
    rcases List.mem_append.1 hu with hu | hu
    · exact hends u (by simp [(hmem u hu).1]) (hmem u hu).2
    · obtain rfl := List.mem_singleton.1 hu
      exact hends u (by simp) ht

/-- The gaps are blank when every byte behind `t` is, apart from those in plain trivia. -/
theorem Ordered.gaps_blank_iff (hends : ∀ u ∈ trivia, u.span.start < start → u.span.stop ≤ start)
    (hplain : ∀ u ∈ between start back, u.kind ≠ .docComment) :
    (∀ g ∈ gaps start (between start back ++ [t]), source.blankBetween g.start g.stop = true) ↔
      ∀ p b, (bytes source)[p]? = some b → t.span.stop ≤ p → p < start →
        Bounded source trivia start p → PassedOver trivia p b := by
  have hdescends := hordered.descends htrivia ht hends
  have hcases : ∀ u ∈ trivia, u.span.start < start →
      u.span.stop ≤ t.span.stop ∨ u ∈ between start back :=
    fun u hu hstart => hordered.stop_le_or_mem_between htrivia ht hu hstart
  constructor
  · rintro hgaps p b hb hbehind hp ⟨q, hpq, hq, hfollow⟩
    rcases hdescends.exists_gap hbehind hp with ⟨g, hg, hgp, hpg⟩ | ⟨u, hu, hinside⟩
    · -- what stands behind the position ends the gap, so the gap ends in the source
      have hend : g.stop ≤ q := by
        obtain ⟨-, hstop, hapart, -⟩ := hdescends.of_mem_gaps hg
        rcases hfollow with rfl | ⟨u, hu, hstart, rfl⟩
        · exact hstop
        · have hrange := hordered.range u hu
          rcases hcases u hu hstart with hfront | hnear
          · omega
          · rcases hapart u hnear with hbefore | hafter
            · omega
            · exact hafter
      exact .inl (blankBetween_iff.1 (hgaps g hg) p b hb hgp hpg (by omega))
    · have hback := (hordered.mem_between htrivia).1 hu
      exact .inr ⟨u, by simp [htrivia, hback.1], hplain u hu, hinside⟩
  · intro h g hg
    obtain ⟨hbehind, hstop, hapart, hend⟩ := hdescends.of_mem_gaps hg
    rw [blankBetween_iff]
    intro p b hb hgp hpg hinside
    have hbounded : Bounded source trivia start p := by
      refine ⟨g.stop, hpg, hinside, hend.imp_right ?_⟩
      rintro ⟨u, hu, hend⟩
      have hback := (hordered.mem_between htrivia).1 hu
      exact ⟨u, by simp [htrivia, hback.1], hback.2, hend⟩
    refine (h p b hb (by omega) (by omega) hbounded).resolve_right ?_
    rintro ⟨u, hu, -, hstart, hup⟩
    rcases hcases u hu (by omega) with hfront | hnear
    · omega
    · rcases hapart u hnear with hbefore | hafter <;> omega

end

/-- What is found in front of an offset. -/
theorem docBefore?_eq_some_iff (hordered : Ordered trivia)
    (hends : ∀ u ∈ trivia, u.span.start < start → u.span.stop ≤ start) :
    docBefore? source trivia start = some t ↔ Nearest trivia start t ∧
      ∀ p b, (bytes source)[p]? = some b → t.span.stop ≤ p → p < start →
        Bounded source trivia start p → PassedOver trivia p b := by
  rw [docBefore?, docFrom?_eq_some_iff]
  constructor
  · rintro ⟨near, far, hlist, hdoc, hnear, hgaps⟩
    have htaken : trivia.takeWhile (·.span.start < start) = far.reverse ++ t :: near.reverse := by
      simpa using congrArg List.reverse hlist
    have ht : t.span.start < start := by
      have hmem : t ∈ trivia.takeWhile (·.span.start < start) := by simp [htaken]
      simpa using List.mem_takeWhile_imp hmem
    have htrivia : trivia = far.reverse ++
        t :: (near.reverse ++ trivia.dropWhile (·.span.start < start)) := by
      calc trivia
          = trivia.takeWhile (·.span.start < start) ++ trivia.dropWhile (·.span.start < start) :=
            List.takeWhile_append_dropWhile.symm
        _ = _ := by rw [htaken, List.append_assoc, List.cons_append]
    have hbetween : near =
        between start (near.reverse ++ trivia.dropWhile (·.span.start < start)) := by
      have hsame := hordered.reverse_takeWhile htrivia ht
      rw [hlist, List.reverse_reverse] at hsame
      exact List.append_cancel_right hsame
    rw [hbetween] at hnear hgaps
    refine ⟨⟨_, _, htrivia, hdoc, ht, fun u hu hstart => ?_⟩, ?_⟩
    · exact hnear u ((hordered.mem_between htrivia).2 ⟨hu, hstart⟩)
    · exact (hordered.gaps_blank_iff htrivia ht hends hnear).1 hgaps
  · rintro ⟨⟨front, back, htrivia, hdoc, ht, hlast⟩, hbytes⟩
    have hplain : ∀ u ∈ between start back, u.kind ≠ .docComment := by
      intro u hu
      obtain ⟨hback, hstart⟩ := (hordered.mem_between htrivia).1 hu
      exact hlast u hback hstart
    exact ⟨between start back, front.reverse, hordered.reverse_takeWhile htrivia ht, hdoc, hplain,
      (hordered.gaps_blank_iff htrivia ht hends hplain).2 hbytes⟩

/-- **The comment of a node is the nearest one**, with only blanks and plain comments from its end
to the node.  For an offset behind the end of the source, the bytes behind the last start of trivia
in the source do not count. -/
theorem docBefore?_nearest (source : Text) (trivia : List Trivia) (start : Nat)
    (hordered : Ordered trivia)
    (hends : ∀ u ∈ trivia, u.span.start < start → u.span.stop ≤ start) (t : Trivia) :
    (start ≤ byteLength source → (docBefore? source trivia start = some t ↔
      Nearest trivia start t ∧ ∀ p b, (bytes source)[p]? = some b → t.span.stop ≤ p → p < start →
        PassedOver trivia p b)) ∧
    (docBefore? source trivia start = some t ↔
      Nearest trivia start t ∧ ∀ p b, (bytes source)[p]? = some b → t.span.stop ≤ p → p < start →
        Bounded source trivia start p → PassedOver trivia p b) := by
  have hfound : docBefore? source trivia start = some t ↔ _ :=
    docBefore?_eq_some_iff hordered hends
  refine ⟨fun hnode => hfound.trans (and_congr_right fun _ => ?_), hfound⟩
  refine forall₄_congr fun p b hb hbehind => forall_congr' fun hp => ?_
  exact forall_prop_of_true ⟨start, hp, hnode, .inl rfl⟩

/-- A plain comment and blanks, which are not listed, stand between a comment and a node. -/
def commentedSource : Text := "/** a */ // b\n f".toList

/-- The two comments of that text. -/
def commentedTrivia : List Trivia :=
  [⟨.docComment, ⟨0, 8⟩, "/** a */".toList⟩, ⟨.lineComment, ⟨9, 13⟩, "// b".toList⟩]

theorem docBefore?_nearest_commented :
    docBefore? commentedSource commentedTrivia 15 =
        some ⟨.docComment, ⟨0, 8⟩, "/** a */".toList⟩ ∧
      ∀ p b, (bytes commentedSource)[p]? = some b → 8 ≤ p → p < 15 →
        PassedOver commentedTrivia p b := by
  have hordered : Ordered commentedTrivia := ⟨by decide, by decide⟩
  have hnearest := docBefore?_nearest commentedSource commentedTrivia 15 hordered (by decide)
    ⟨.docComment, ⟨0, 8⟩, "/** a */".toList⟩
  have hfound : docBefore? commentedSource commentedTrivia 15 =
      some ⟨.docComment, ⟨0, 8⟩, "/** a */".toList⟩ := rfl
  exact ⟨hfound, ((hnearest.1 (by decide)).1 hfound).2⟩

end Trivia
end PhpAtlas
