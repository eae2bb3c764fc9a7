import Mathlib.Data.Fintype.Option
import Mathlib.Data.Fintype.Sets
import PhpAtlas.Deduction.Basic

/-!
# Parts of a look-up whose questions are fixed

The look-up of a variable asks for the types of other expressions.  Which questions it asks is
settled by the document, the variable and the position alone: no answer decides which question comes
next.  So a part of a look-up has a result exactly when each of its questions has an answer, and the
result depends on nothing but these answers.

## Main definitions

* `Lookup.Question` — an expression whose types the look-up of a variable asks for.
* `Lookup.Asks` — the questions of a part of a look-up.
* `Lookup.Steady` — a part of a look-up whose questions do not depend on answers.

## Main results

* `Steady.bind`, `Steady.seq`, `Steady.exit`, `Steady.ite`, `Steady.iteVar` — steady parts can be
  put together.
* `Lookup.narrowing_steady`, `Lookup.narrowInside_steady` — conditions are steady: only an instance
  test asks, and it asks at the position itself.
* `Lookup.assigned_steady`, `Lookup.enterLoop_steady` — so are assignments and loops over elements,
  which ask one level deeper.
-/

namespace PhpAtlas

/-- Answers to questions about the types of expressions. -/
abbrev Answers := Expr → Point → Option TypeList

namespace Lookup

/-- The types of `expr` at `point` are asked for in the look-up of `var`. -/
structure Question where
  var : String
  expr : Expr
  point : Point

/-- All questions about a variable are answered. -/
def Answered (ask : Answers) (qs : List Question) (var : String) : Prop :=
  ∀ x ∈ qs, x.var = var → (ask x.expr x.point).isSome

/-- The questions about a variable have the same answers. -/
def SameAnswers (ask ask' : Answers) (qs : List Question) (var : String) : Prop :=
  ∀ x ∈ qs, x.var = var → ask x.expr x.point = ask' x.expr x.point

/-- A part `f` of a look-up at `p` asks the questions `qs`.  It has a result exactly when they are
answered, the answers settle the result, and as far as `view` shows, the result does not depend on
them.  The input `ι` stands for the candidates before this part. -/
structure Asks {ι α β : Type} (p : Point) (view : α → β) (f : String → Answers → ι → Option α)
    (qs : List Question) (form : String → β) : Prop where
  isSome_iff : ∀ var ask i, (f var ask i).isSome ↔ Answered ask qs var
  eq_of_same : ∀ {var ask ask'} i, SameAnswers ask ask' qs var → f var ask i = f var ask' i
  view_eq : ∀ {var ask i r}, f var ask i = some r → view r = form var
  near : ∀ x ∈ qs, x.point = p ∨ p.depth < x.point.depth

/-- A part of a look-up whose questions do not depend on answers. -/
def Steady {ι α β : Type} (p : Point) (view : α → β) (f : String → Answers → ι → Option α) :
    Prop :=
  ∃ qs form, Asks p view f qs form

/-- Nothing is said about a result. -/
def blank {α : Type} (_ : α) : Unit := ()

/-! ### Putting steady parts together -/

namespace Steady

variable {ι κ α β γ δ : Type} {p : Point} {view : α → β} {view' : γ → δ}
variable {f f' : String → Answers → ι → Option α}

theorem congr (h : Steady p view f) (heq : ∀ var ask i, f' var ask i = f var ask i) :
    Steady p view f' := by
  have : f' = f := by
    funext var ask i
    exact heq var ask i
  exact this ▸ h

/-- A part that asks nothing. -/
theorem result (g : String → ι → α) (form : String → β)
    (h : ∀ var i, view (g var i) = form var) : Steady p view fun var _ i => some (g var i) := by
  refine ⟨[], form, fun var ask i => ?_, fun i _ => rfl, ?_, ?_⟩
  · simp [Answered]
  · intro var ask i r hr
    obtain rfl := Option.some.inj hr
    exact h var i
  · simp

/-- Candidates that need no question. -/
theorem candidates (g : String → ι → α) : Steady p blank fun var _ i => some (g var i) :=
  result g (fun _ => ()) fun _ _ => rfl

theorem reindex (h : Steady p view f) (e : String → κ → ι) :
    Steady p view fun var ask j => f var ask (e var j) := by
  obtain ⟨qs, form, hf⟩ := h
  exact ⟨qs, form, fun var ask j => hf.isSome_iff var ask (e var j),
    fun j hsame => hf.eq_of_same _ hsame, hf.view_eq, hf.near⟩

/-- A later position is deeper. -/
theorem of_later (h : Steady p.later view f) : Steady p view f := by
  obtain ⟨qs, form, hf⟩ := h
  refine ⟨qs, form, hf.isSome_iff, hf.eq_of_same, hf.view_eq, fun x hx => .inr ?_⟩
  have hdepth : p.later.depth = p.depth + 1 := rfl
  rcases hf.near x hx with heq | hlt
  · rw [heq, hdepth]
    exact Nat.lt_succ_self _
  · omega

/-- A question of one variable, which is asked at the position or deeper. -/
theorem ask {u : String} {e : Expr} {q : Point} (hq : q = p ∨ p.depth < q.depth)
    (c : String → Bool) (hc : ∀ var, c var = true → var = u) (k : String → ι → TypeList → α)
    (g : String → ι → α) :
    Steady p (blank : α → Unit)
      fun var ask i => if c var then (ask e q).map (k var i) else some (g var i) := by
  refine ⟨if c u then [⟨u, e, q⟩] else [], fun _ => (), fun var ask i => ?_, ?_, fun _ => rfl, ?_⟩
  · by_cases hvar : c var = true
    · obtain rfl := hc var hvar
      simp [Answered, hvar]
    · have hne : c u = true → u ≠ var := fun hu heq => hvar (heq ▸ hu)
      by_cases hu : c u = true
      · simp [Answered, hvar, hu, hne hu]
      · simp [Answered, hvar, hu]
  · intro var ask ask' i hsame
    by_cases hvar : c var = true
    · obtain rfl := hc var hvar
      rw [hsame ⟨var, e, q⟩ (by simp [hvar]) rfl]
    · rw [if_neg hvar, if_neg hvar]
  · intro x hx
    split at hx
    · obtain rfl := List.mem_singleton.1 hx
      exact hq
    · exact absurd hx List.not_mem_nil

/-- One part after another.  What follows may look at the view of the first result. -/
theorem bind [Fintype β] [DecidableEq β] {g : String → Answers → ι → α → Option γ}
    (hf : Steady p view f)
    (hg : ∀ b, Steady p view'
      fun var ask (x : { x : ι × α // view x.2 = b }) => g var ask x.1.1 x.1.2) :
    Steady p view' fun var ask i => (f var ask i).bind (g var ask i) := by
  obtain ⟨qs, form, hf⟩ := hf
  choose rest restForm hg using hg
  -- of what may follow, a variable meets only the part for its own view
  let all := qs ++ Finset.univ.toList.flatMap fun b => (rest b).filter fun x => form x.var = b
  have hall : ∀ x, x ∈ all ↔ x ∈ qs ∨ x ∈ rest (form x.var) := by
    intro x
    simp [all, eq_comm]
  have hsplit : ∀ (P : Question → Prop) var, (∀ x ∈ all, x.var = var → P x) ↔
      (∀ x ∈ qs, x.var = var → P x) ∧ ∀ x ∈ rest (form var), x.var = var → P x := by
    intro P var
    constructor
    · intro h
      refine ⟨fun x hx => h x ((hall x).2 (.inl hx)), fun x hx hvar => ?_⟩
      exact h x ((hall x).2 (.inr (hvar.symm ▸ hx))) hvar
    · rintro ⟨h, hrest⟩ x hx hvar
      rcases (hall x).1 hx with hx | hx
      · exact h x hx hvar
      · exact hrest x (hvar ▸ hx) hvar
  refine ⟨all, fun var => restForm (form var) var, fun var ask i => ?_, ?_, ?_, fun x hx => ?_⟩
  · rw [Answered, hsplit, ← Answered, ← hf.isSome_iff var ask i]
    cases hr : f var ask i with
    | none => simp
    | some a =>
      have hview : view a = form var := hf.view_eq hr
      have := (hg (form var)).isSome_iff var ask ⟨(i, a), hview⟩
      simpa [Answered] using this
  · intro var ask ask' i hsame
    obtain ⟨hqs, hrest⟩ := (hsplit _ var).1 hsame
    rw [← hf.eq_of_same i hqs]
    cases hr : f var ask i with
    | none => rfl
    | some a => exact (hg (form var)).eq_of_same ⟨(i, a), hf.view_eq hr⟩ hrest
  · intro var ask i r hr
    obtain ⟨a, ha, hr⟩ := Option.bind_eq_some_iff.1 hr
    have hview : view a = form var := hf.view_eq ha
    exact (hg (form var)).view_eq (i := ⟨(i, a), hview⟩) hr
  · rcases (hall x).1 hx with hx | hx
    · exact hf.near x hx
    · exact (hg _).near x hx

/-- One part after another, where what follows does not look at the first result. -/
theorem then_ {g : String → Answers → ι → α → Option γ} (hf : Steady p view f)
    (hg : Steady p view' fun var ask (x : ι × α) => g var ask x.1 x.2) :
    Steady p view' fun var ask i => (f var ask i).bind (g var ask i) := by
  have hblank : Steady p (blank : α → Unit) f := by
    obtain ⟨qs, form, hf⟩ := hf
    exact ⟨qs, fun _ => (), hf.isSome_iff, hf.eq_of_same, fun _ => rfl, hf.near⟩
  refine hblank.bind fun b => ?_
  exact hg.reindex fun _ (x : { x : ι × α // blank x.2 = b }) => x.1

/-- One part after another, which starts from the candidates that the first one left. -/
theorem seq {g : String → Answers → α → Option γ} (hf : Steady p view f)
    (hg : Steady p view' g) :
    Steady p view' fun var ask i => (f var ask i).bind (g var ask) :=
  hf.then_ (hg.reindex fun _ (x : ι × α) => x.2)

theorem map {g : String → ι → α → γ} (hf : Steady p view f) (k : String → β → δ)
    (hg : ∀ var i a, view' (g var i a) = k var (view a)) :
    Steady p view' fun var ask i => (f var ask i).map (g var i) := by
  obtain ⟨qs, form, hf⟩ := hf
  refine ⟨qs, fun var => k var (form var), fun var ask i => ?_, ?_, ?_, hf.near⟩
  · rw [Option.isSome_map]
    exact hf.isSome_iff var ask i
  · intro var ask ask' i hsame
    rw [hf.eq_of_same i hsame]
  · intro var ask i r hr
    obtain ⟨a, ha, rfl⟩ := Option.map_eq_some_iff.1 hr
    rw [hg, hf.view_eq ha]

theorem map_blank (hf : Steady p view f) (g : String → ι → α → γ) :
    Steady p blank fun var ask i => (f var ask i).map (g var i) :=
  hf.map (fun _ _ => ()) fun _ _ _ => rfl

theorem ite (c : Prop) [Decidable c] (hf : Steady p view f) (hf' : Steady p view f') :
    Steady p view fun var ask i => if c then f var ask i else f' var ask i := by
  split
  · exact hf
  · exact hf'

/-- Two parts, of which the variable takes one. -/
theorem iteVar (d : String → Bool) (hf : Steady p view f) (hf' : Steady p view f') :
    Steady p view fun var ask i => if d var then f var ask i else f' var ask i := by
  obtain ⟨qs, form, hf⟩ := hf
  obtain ⟨qs', form', hf'⟩ := hf'
  let all := qs.filter (fun x => d x.var) ++ qs'.filter fun x => !d x.var
  have hall : ∀ (P : Question → Prop) var, (∀ x ∈ all, x.var = var → P x) ↔
      ∀ x ∈ if d var then qs else qs', x.var = var → P x := by
    intro P var
    refine forall_congr' fun x => ?_
    cases hd : d var with
    | true =>
      refine ⟨fun h hx hvar => h ?_ hvar, fun h hx hvar => h ?_ hvar⟩
      · exact List.mem_append_left _ (List.mem_filter.2 ⟨hx, hvar ▸ hd⟩)
      · simpa [all, hvar, hd] using hx
    | false =>
      refine ⟨fun h hx hvar => h ?_ hvar, fun h hx hvar => h ?_ hvar⟩
      · exact List.mem_append_right _ (List.mem_filter.2 ⟨hx, by simp [hvar, hd]⟩)
      · simpa [all, hvar, hd] using hx
  refine ⟨all, fun var => if d var then form var else form' var, fun var ask i => ?_, ?_, ?_,
    fun x hx => ?_⟩
  · rw [Answered, hall]
    cases d var with
    | true => exact hf.isSome_iff var ask i
    | false => exact hf'.isSome_iff var ask i
  · intro var ask ask' i hsame
    have hsame := (hall _ var).1 hsame
    cases hd : d var with
    | true =>
      rw [hd] at hsame
      exact hf.eq_of_same i hsame
    | false =>
      rw [hd] at hsame
      exact hf'.eq_of_same i hsame
  · intro var ask i r hr
    cases hd : d var with
    | true =>
      rw [hd, if_pos rfl] at hr
      exact hf.view_eq hr
    | false =>
      rw [hd, if_neg Bool.false_ne_true] at hr
      exact hf'.view_eq hr
  · rcases List.mem_append.1 hx with hx | hx
    · exact hf.near x (List.mem_filter.1 hx).1
    · exact hf'.near x (List.mem_filter.1 hx).1

/-- A part whose result may end the look-up; where it does not, `g` follows. -/
theorem exit [Fintype β] [DecidableEq β] {g : String → Answers → κ → Option γ}
    {c : String → Answers → ι → α → Option γ} (hf : Steady p view f) (hg : Steady p view' g)
    (stop : β → Bool) (m : β → δ) (s : ι → α → γ) (e : ι → α → κ)
    (hstop : ∀ var ask i a, stop (view a) = true →
      c var ask i a = some (s i a) ∧ view' (s i a) = m (view a))
    (hgo : ∀ var ask i a, stop (view a) = false → c var ask i a = g var ask (e i a)) :
    Steady p view' fun var ask i => (f var ask i).bind (c var ask i) := by
  refine hf.bind fun b => ?_
  cases hb : stop b with
  | true =>
    refine (result (fun _ (x : { x : ι × α // view x.2 = b }) => s x.1.1 x.1.2) (fun _ => m b)
      ?_).congr ?_
    · rintro var ⟨⟨i, a⟩, rfl⟩
      exact (hstop var (fun _ _ => none) i a hb).2
    · rintro var ask ⟨⟨i, a⟩, rfl⟩
      exact (hstop var ask i a hb).1
  | false =>
    refine (hg.reindex fun _ (x : { x : ι × α // view x.2 = b }) => e x.1.1 x.1.2).congr ?_
    rintro var ask ⟨⟨i, a⟩, rfl⟩
    exact hgo var ask i a hb

/-- Two parts side by side, whose results are combined. -/
theorem both {g : String → Answers → ι → Option γ} {ε : Type} (hf : Steady p view f)
    (hg : Steady p view' g) (k : α → γ → ε) :
    Steady p (blank : ε → Unit) fun var ask i => do return k (← f var ask i) (← g var ask i) := by
  refine hf.then_ ?_
  exact (hg.reindex fun _ (x : ι × α) => x.1).then_
    (candidates fun _ (y : (ι × α) × γ) => k y.1.2 y.2)

end Steady

/-! ### Conditions -/

variable (known : Known) (site : Site) (p : Point)

/-- An instance test asks for the types of its class, unless the class is named. -/
theorem instanceNarrowing_steady (left right : Expr) (truth : Bool) :
    Steady p blank fun var ask (_ : Unit) =>
      instanceNarrowing ⟨known, site, var, ask⟩ p left right truth := by
  cases hcls : known.classReference? site p.offset right with
  | some types =>
    refine (Steady.candidates fun var _ =>
      if truth && left.varName? == some var then Narrowing.ofTypes types else .any).congr ?_
    intro var ask i
    simp only [instanceNarrowing, classTypes, hcls]
    split <;> rfl
  | none =>
    have hvar : ∀ var, (truth && left.varName? == some var) = true →
        var = left.varName?.getD "" := by
      intro var h
      rw [Bool.and_eq_true, beq_iff_eq] at h
      rw [h.2, Option.getD_some]
    refine (Steady.ask (e := right) (.inl rfl) _ hvar (fun _ _ => Narrowing.ofTypes)
      fun _ _ => .any).congr ?_
    intro var ask i
    simp only [instanceNarrowing, classTypes, hcls]

theorem narrowing_steady (condition : Expr) (truth : Bool) :
    Steady p blank fun var ask (_ : Unit) =>
      narrowing ⟨known, site, var, ask⟩ p condition truth := by
  induction condition, truth using narrowing.induct with
  | case1 span inner truth ih => simpa only [narrowing] using ih
  | case2 span operand truth ih => simpa only [narrowing] using ih
  | case3 span op left right truth hop =>
    simp only [narrowing, hop]
    exact instanceNarrowing_steady known site p left right truth
  | case4 span op left right truth positive hop =>
    simp only [narrowing, hop, equalityNarrowing]
    exact Steady.candidates fun var _ =>
      if comparesNull var left right then Narrowing.ofNull (positive == truth) else .any
  | case5 span op left right truth hop ihl ihr =>
    simp only [narrowing, hop]
    exact ihl.both ihr fun a b => if truth then a.and b else a.or b
  | case6 span op left right truth hop ihl ihr =>
    simp only [narrowing, hop]
    exact ihl.both ihr fun a b => if truth then a.or b else a.and b
  | case7 span op left right truth hop =>
    simp only [narrowing, hop]
    exact Steady.candidates fun _ _ => Narrowing.any
  | case8 span name truth =>
    simp only [narrowing]
    exact Steady.candidates fun var _ => if name == var then Narrowing.ofNull (!truth) else .any
  | case9 span r slot tail truth =>
    simp only [narrowing]
    exact Steady.candidates fun var _ =>
      if slot.value?.bind Expr.varName? == some var then testNarrowing r.text truth else .any
  | case10 condition truth h1 h2 h3 h4 h5 =>
    refine (Steady.candidates fun _ _ => .any).congr ?_
    intro var ask i
    rw [narrowing] <;> assumption

theorem assume_steady (condition : Expr) (truth : Bool) :
    Steady p blank fun var ask types => assume ⟨known, site, var, ask⟩ p condition truth types :=
  ((narrowing_steady known site p condition truth).reindex fun _ (_ : TypeList) => ()).map_blank
    fun _ types n => n.apply types

mutual

/-- The conditions between an expression and the position inside it. -/
theorem narrowInside_steady (e : Expr) :
    Steady p blank fun var ask types => narrowInside ⟨known, site, var, ask⟩ p e types := by
  cases e with
  | paren _ e | assign _ _ _ e | unary _ _ e | property _ _ e _ =>
    simp only [narrowInside]
    exact .ite _ (narrowInside_steady e) (.candidates fun _ types => types)
  | ternary span condition yes no =>
    simp only [narrowInside]
    refine .ite _ (.ite _ (narrowInside_steady condition) ?_) (.candidates fun _ types => types)
    have hno := (assume_steady known site p condition false).seq (narrowInside_steady no)
    refine (narrowYes_steady condition yes).exit hno Option.isSome (fun _ => ())
      (fun types found => found.getD types) (fun types _ => types) ?_ ?_
    · intro var ask types found hfound
      cases found with
      | none => cases hfound
      | some found => exact ⟨rfl, rfl⟩
    · intro var ask types found hfound
      cases found with
      | none => rfl
      | some found => cases hfound
  | binary span op left right =>
    have hright := fun truth =>
      (assume_steady known site p left truth).seq (narrowInside_steady right)
    simp only [narrowInside]
    refine .ite _ ?_ (.candidates fun _ types => types)
    cases op.connective with
    | conjunction => exact .ite _ (hright true) (narrowInside_steady left)
    | disjunction => exact .ite _ (hright false) (narrowInside_steady left)
    | _ => exact (narrowInside_steady left).seq (narrowInside_steady right)
  | select span subject arms =>
    simp only [narrowInside]
    exact .ite _ (narrowArms_steady arms) (.candidates fun _ types => types)
  | call span callee slots =>
    cases callee with
    | function callee | method _ callee _ | static callee _ =>
      simp only [narrowInside]
      exact .ite _ ((narrowInside_steady callee).seq (narrowSlots_steady slots))
        (.candidates fun _ types => types)
  | _ =>
    simp only [narrowInside]
    exact .candidates fun _ types => types
termination_by structural e

theorem narrowYes_steady (condition : Expr) (yes : Option Expr) :
    Steady p (Option.map blank) fun var ask types =>
      narrowYes ⟨known, site, var, ask⟩ p condition yes types := by
  cases yes with
  | none =>
    simp only [narrowYes]
    exact .result (fun _ _ => none) (fun _ => none) fun _ _ => rfl
  | some yes =>
    simp only [narrowYes]
    refine .ite _ ?_ (.result (fun _ _ => none) (fun _ => none) fun _ _ => rfl)
    refine (assume_steady known site p condition true).seq ?_
    exact (narrowInside_steady yes).seq
      (.result (fun _ types => some types) (fun _ => some ()) fun _ _ => rfl)
termination_by structural yes

theorem narrowArms_steady (arms : List (Arm Expr)) :
    Steady p blank fun var ask types => narrowArms ⟨known, site, var, ask⟩ p arms types := by
  match arms with
  | [] =>
    simp only [narrowArms]
    exact .candidates fun _ types => types
  | ⟨_, value⟩ :: rest =>
    simp only [narrowArms]
    exact (narrowInside_steady value).seq (narrowArms_steady rest)
termination_by structural arms

theorem narrowSlots_steady (slots : List (Slot Expr)) :
    Steady p blank fun var ask types => narrowSlots ⟨known, site, var, ask⟩ p slots types := by
  match slots with
  | [] =>
    simp only [narrowSlots]
    exact .candidates fun _ types => types
  | .missing :: rest =>
    simp only [narrowSlots]
    exact narrowSlots_steady rest
  | .value e :: rest | .pair _ e :: rest | .spread e :: rest | .named _ e :: rest =>
    simp only [narrowSlots]
    exact (narrowInside_steady e).seq (narrowSlots_steady rest)
termination_by structural slots

end

/-! ### Annotations and assignments -/

/-- A look-up that is told nothing.  What it knows, every look-up knows. -/
def silent (var : String) : Lookup := ⟨known, site, var, fun _ _ => none⟩

/-- A value that is asked for in the look-up of one variable, unless an annotation in front of
`start` gives its types. -/
theorem valueOf_steady (target value : Expr) (start offset : Nat)
    (k : TypeList → TypeList → TypeList) (k' : TypeList → TypeList → TypeList) :
    Steady p blank fun var ask types =>
      if target.varName? == some var then
        match annotation? ⟨known, site, var, ask⟩ start with
        | some new => some (k types new)
        | none => (ask value (p.deeper offset)).map (k' types)
      else some types := by
  let wants := fun var => target.varName? == some var &&
    ((silent known site var).annotation? start).isNone
  have hwants : ∀ var, wants var = true → var = target.varName?.getD "" := by
    intro var h
    rw [Bool.and_eq_true, beq_iff_eq] at h
    rw [h.1, Option.getD_some]
  refine (Steady.ask (e := value) (q := p.deeper offset) (.inr (Nat.lt_succ_self _)) wants hwants
    (fun _ => k') fun var types => if target.varName? == some var then
      k types (((silent known site var).annotation? start).getD types) else types).congr ?_
  intro var ask types
  have hann : annotation? ⟨known, site, var, ask⟩ start =
      (silent known site var).annotation? start := rfl
  rw [hann]
  by_cases htarget : target.varName? = some var
  · cases hnew : (silent known site var).annotation? start <;> simp [wants, htarget, hnew]
  · simp [wants, htarget]

/-- An assignment asks for the types of its value. -/
theorem assigned_steady (start : Nat) (conditional : Bool) (e : Expr) :
    Steady p blank fun var ask types =>
      assigned ⟨known, site, var, ask⟩ p start conditional types e := by
  cases e with
  | assign span plain target value =>
    cases plain with
    | false =>
      simp only [assigned]
      exact .candidates fun _ types => types
    | true =>
      have hvalue := valueOf_steady known site p target value start span.start
        (·.update conditional ·) (·.update conditional)
      refine (hvalue.iteVar (fun var => target.varName? == some var)
        (assigned_steady start conditional value)).congr ?_
      intro var ask types
      rw [assigned]
      split
      · cases annotation? ⟨known, site, var, ask⟩ start <;> rfl
      · rfl
  | _ =>
    simp only [assigned]
    exact .candidates fun _ types => types
termination_by structural e

theorem enterLoop_steady (span : Span) (subject : Expr) (key : Option Expr) (target : Expr) :
    Steady p blank fun var ask types =>
      enterLoop ⟨known, site, var, ask⟩ p span subject key target types := by
  have hvalue := valueOf_steady known site p target subject span.start span.start
    (fun _ new => new) fun _ => TypeList.elements
  have hkey : Steady p blank fun var (_ : Answers) types =>
      some (if key.bind Expr.varName? == some var then
        TypeList.ofList [TypeRef.keyword "int", TypeRef.keyword "string"] else types) :=
    .candidates fun var types => if key.bind Expr.varName? == some var then
      TypeList.ofList [TypeRef.keyword "int", TypeRef.keyword "string"] else types
  refine (hvalue.iteVar (fun var => target.varName? == some var) hkey).congr ?_
  intro var ask types
  rw [enterLoop]
  split
  · cases annotation? ⟨known, site, var, ask⟩ span.start <;> rfl
  · split <;> rfl

/-! ### Lists of conditions -/

theorem foldlM_steady {τ : Type} {step : τ → String → Answers → TypeList → Option TypeList}
    (l : List τ) (h : ∀ x, Steady p blank (step x)) :
    Steady p blank fun var ask types => l.foldlM (fun types x => step x var ask types) types := by
  induction l with
  | nil => exact .candidates fun _ types => types
  | cons x l ih =>
    simp only [List.foldlM_cons]
    exact (h x).seq ih

theorem assumeFailed_steady (failed : List Expr) :
    Steady p blank fun var ask types =>
      assumeFailed ⟨known, site, var, ask⟩ p failed types :=
  foldlM_steady p failed fun condition => assume_steady known site p condition false

theorem assumeBranch_steady (failed : List Expr) (own : Option Expr) :
    Steady p blank fun var ask types =>
      assumeBranch ⟨known, site, var, ask⟩ p failed own types := by
  refine (assumeFailed_steady known site p failed).seq ?_
  cases own with
  | none => exact .candidates fun _ types => types
  | some condition => exact assume_steady known site p condition true

theorem initialized_steady (conditional : Bool) (initial : List Expr) :
    Steady p blank fun var ask types =>
      initialized ⟨known, site, var, ask⟩ p conditional initial types :=
  foldlM_steady p initial fun e =>
    .ite _ (assigned_steady known site p e.span.start conditional e)
      (.candidates fun _ types => types)

theorem inConditions_steady (failed : List Expr) (branches : List (Branch Expr Stmt)) :
    Steady p (Option.map blank) fun var ask types =>
      inConditions ⟨known, site, var, ask⟩ p types failed branches := by
  induction failed, branches using inConditions.induct (p := p) with
  | case1 failed =>
    simp only [inConditions]
    exact .result (fun _ _ => none) (fun _ => none) fun _ _ => rfl
  | case2 failed b rest hb ih =>
    simp only [inConditions, hb]
    exact ih
  | case3 failed b rest condition hb hin =>
    simp only [inConditions, hb, hin, if_true]
    refine (assumeFailed_steady known site p failed).seq ?_
    exact (narrowInside_steady known site p condition).seq
      (.result (fun _ types => some types) (fun _ => some ()) fun _ _ => rfl)
  | case4 failed b rest condition hb hin ih =>
    simp only [inConditions, hb, hin]
    exact ih

end Lookup
end PhpAtlas
