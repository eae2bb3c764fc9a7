import PhpAtlas.Proofs.Parse.Rows
import PhpAtlas.Source.Parse.Basic

/-!
# What readers leave behind

A reader takes tokens from the front and never goes back, whether it ends or fails.  So what is read
behind a node stands behind it.  The rules of this module follow the steps of a reader and keep the
row of the nodes that have been read so far.

## Main definitions

* `Parse.State.Ordered` — the tokens stand in their order behind what has been read.
* `Parse.State.Stops` — what is read next, if there is a token left.
* `Parse.State.Leads` — a state is reached by reading on.
* `Reader.Ends` — a reader leads on, and what it yields satisfies a condition.
* `Reader.At` — the nodes read since an offset stand in a row.
* `Reader.Reads`, `Reader.Passes` — a reader adds nodes to the row, or none.
* `Reader.Looks` — a reader changes nothing.

## Main results

* `Reader.Ends.bind`, `Reader.Ends.repeatFrom`, `Reader.Ends.tryCatch` — the parts of readers.
* `Reader.Looks.see`, `Reader.At.skip`, `Reader.At.read`, `Reader.At.replace` — one step of a
  reader.
* `Reader.Passes.bind`, `Reader.Passes.repeatFrom` — readers that keep nothing.
* `Reader.Reads.commaList`, `Reader.Reads.commaList1` — lists of nodes.
-/

namespace PhpAtlas

namespace Parse.State

/-- The offset at which the next token starts, or the end of the last one. -/
def offset (s : State) : Nat :=
  match s.tokens with
  | [] => s.last
  | t :: _ => t.span.start

/-- The tokens have ended, or the next one satisfies a condition. -/
def Stops (s : State) (stop : TokenKind → Bool) : Prop :=
  ∀ t ∈ s.tokens.head?, stop t.kind = true

/-- Tokens that are not empty stand in their order behind what has been read. -/
structure Ordered (s : State) : Prop where
  behind : ∀ t ∈ s.tokens, s.last ≤ t.span.start
  proper : ∀ t ∈ s.tokens, t.span.start < t.span.stop
  ordered : s.tokens.Pairwise fun a b => a.span.stop ≤ b.span.start

/-- A state with tokens in order is reached by reading on.  Complaints are not taken back. -/
structure Leads (s s' : State) : Prop where
  ordered : s'.Ordered
  last : s.last ≤ s'.last
  offset : s.offset ≤ s'.offset
  failures : s'.failures = [] → s.failures = []

variable {s s' s'' : State}

theorem Ordered.last_le_offset (h : s.Ordered) : s.last ≤ s.offset := by
  rw [State.offset]
  split
  · exact Nat.le_refl _
  · rename_i t ts htokens
    exact h.behind t (htokens ▸ List.mem_cons_self)

theorem Ordered.leads (h : s.Ordered) : s.Leads s := ⟨h, Nat.le_refl _, Nat.le_refl _, id⟩

theorem Leads.trans (h : s.Leads s') (h' : s'.Leads s'') : s.Leads s'' where
  ordered := h'.ordered
  last := Nat.le_trans h.last h'.last
  offset := Nat.le_trans h.offset h'.offset
  failures := h.failures ∘ h'.failures

end Parse.State

open Parse (State Failure)

/-- A token as a node without parts. -/
def Token.node (t : Token) : Node := .name (Reader.nameRef t)

namespace Reader

variable {α β : Type}

/-! ### Readers that end -/

/-- A reader leads on, whether it ends or fails, and where it ends a condition holds. -/
def Ends (x : Reader α) (s : State) (Q : α → State → Prop) : Prop :=
  match x s with
  | .ok a s' => s.Leads s' ∧ Q a s'
  | .error _ s' => s.Leads s'

/-- A reader changes nothing and does not fail. -/
def Looks (x : Reader α) : Prop := ∀ s, ∃ a, x s = .ok a s

namespace Ends

variable {x : Reader α} {f : α → Reader β} {s : State} {P : α → State → Prop}
  {Q : β → State → Prop}

theorem mono {P' : α → State → Prop} (h : Ends x s P)
    (himp : ∀ a s', s.Leads s' → P a s' → P' a s') : Ends x s P' := by
  unfold Ends at h ⊢
  cases hx : x s with
  | ok a s' =>
    rw [hx] at h
    exact ⟨h.1, himp a s' h.1 h.2⟩
  | error e s' =>
    rw [hx] at h
    exact h

theorem and {P' : α → State → Prop} (h : Ends x s P) (h' : Ends x s P') :
    Ends x s fun a s' => P a s' ∧ P' a s' := by
  unfold Ends at h h' ⊢
  cases hx : x s with
  | ok a s' =>
    rw [hx] at h h'
    exact ⟨h.1, h.2, h'.2⟩
  | error e s' =>
    rw [hx] at h
    exact h

theorem bind (h : Ends x s P) (hf : ∀ a s', s.Leads s' → P a s' → Ends (f a) s' Q) :
    Ends (x >>= f) s Q := by
  have hrun : (x >>= f) s = EStateM.bind x f s := rfl
  unfold Ends at h ⊢
  rw [hrun, EStateM.bind]
  cases hx : x s with
  | ok a s' =>
    rw [hx] at h
    have hrest := hf a s' h.1 h.2
    unfold Ends at hrest
    dsimp only
    cases hb : f a s' with
    | ok b s'' =>
      rw [hb] at hrest
      exact ⟨h.1.trans hrest.1, hrest.2⟩
    | error e s'' =>
      rw [hb] at hrest
      exact h.1.trans hrest
  | error e s' =>
    rw [hx] at h
    exact h

theorem map {φ : α → β} (h : Ends x s fun a s' => Q (φ a) s') : Ends (φ <$> x) s Q := by
  have hrun : (φ <$> x) s = EStateM.map φ x s := rfl
  unfold Ends at h ⊢
  rw [hrun, EStateM.map]
  cases hx : x s with
  | ok a s' =>
    rw [hx] at h
    exact h
  | error e s' =>
    rw [hx] at h
    exact h

theorem pure {a : α} (hs : s.Ordered) (h : P a s) : Ends (pure a : Reader α) s P := ⟨hs.leads, h⟩

theorem throw {e : Failure} (hs : s.Ordered) : Ends (throw e : Reader α) s P := hs.leads

/-- A step that changes nothing and is known. -/
theorem see {a : α} (hx : x s = .ok a s) (h : Ends (f a) s Q) : Ends (x >>= f) s Q := by
  have hrun : (x >>= f) s = EStateM.bind x f s := rfl
  unfold Ends at h ⊢
  rw [hrun, EStateM.bind, hx]
  exact h

/-- A failure is caught where it has led. -/
theorem tryCatch {handle : Failure → Reader α} (h : Ends x s P)
    (hhandle : ∀ e s', s.Leads s' → Ends (handle e) s' P) :
    Ends (tryCatch x handle) s P := by
  have hrun : (MonadExcept.tryCatch x handle : Reader α) s =
      EStateM.tryCatch x handle s := rfl
  unfold Ends at h ⊢
  rw [hrun]
  delta EStateM.tryCatch
  cases hx : x s with
  | ok a s' =>
    rw [hx] at h
    exact h
  | error e s' =>
    rw [hx] at h
    have hrest := hhandle e s' h
    unfold Ends at hrest
    change match handle e s' with
      | .ok a s'' => s.Leads s'' ∧ P a s''
      | .error _ s'' => s.Leads s''
    cases hb : handle e s' with
    | ok b s'' =>
      rw [hb] at hrest
      exact ⟨h.trans hrest.1, hrest.2⟩
    | error e s'' =>
      rw [hb] at hrest
      exact h.trans hrest

/-- The loop keeps what each of its steps keeps. -/
theorem iterate {step : α → Reader (α ⊕ β)} {I : α → State → Prop}
    (hordered : ∀ a s, I a s → s.Ordered)
    (hstep : ∀ a s, I a s →
      Ends (step a) s fun r s' => r.elim (fun a => I a s') (fun b => Q b s'))
    (n : Nat) (a : α) (s : State) (h : I a s) : Ends (Reader.iterate step n a) s Q := by
  induction n generalizing a s with
  | zero =>
    have hend : Ends endFailure s fun _ _ => True := ⟨(hordered a s h).leads, trivial⟩
    exact .bind hend fun _ _ hleads _ => .throw hleads.ordered
  | succ n ih =>
    refine .bind (hstep a s h) fun r s' hleads hr => ?_
    cases r with
    | inl a => exact ih a s' hr
    | inr b => exact .pure hleads.ordered hr

theorem repeatFrom {step : α → Reader (α ⊕ β)} {I : α → State → Prop}
    (hordered : ∀ a s, I a s → s.Ordered)
    (hstep : ∀ a s, I a s →
      Ends (step a) s fun r s' => r.elim (fun a => I a s') (fun b => Q b s'))
    {a : α} (h : I a s) : Ends (Reader.repeatFrom a step) s Q :=
  iterate hordered hstep _ a s h

end Ends

/-! ### Rows while reading -/

/-- The nodes that have been read since the offset `i` stand in a row. -/
structure At (i : Nat) (ns : List Node) (s : State) : Prop where
  ordered : s.Ordered
  base : i ≤ s.offset
  row : Row i ns s.last

/-- A reader reads the nodes `P a`, in their order, when it yields `a`. -/
def Reads (x : Reader α) (P : α → List Node) : Prop :=
  ∀ s : State, s.Ordered → Ends x s fun a s' => Row s.offset (P a) s'.last

/-- A reader reads nothing that is kept. -/
def Passes (x : Reader α) : Prop := Reads x fun _ => []

theorem Looks.passes {x : Reader α} (h : Looks x) : Passes x := by
  intro s hs
  obtain ⟨a, hx⟩ := h s
  rw [Ends, hx]
  exact ⟨hs.leads, Row.nil⟩

/-- A step that changes nothing. -/
theorem Looks.see {x : Reader α} {f : α → Reader β} {s : State} {Q : β → State → Prop}
    (h : Looks x) (hf : ∀ a, Ends (f a) s Q) : Ends (x >>= f) s Q := by
  obtain ⟨a, hrun⟩ := h s
  exact .see hrun (hf a)

theorem Reads.passes {x : Reader α} {P : α → List Node} (h : Reads x P) : Passes x :=
  fun s hs => (h s hs).mono fun _ _ _ _ => Row.nil

theorem Reads.map {x : Reader α} {φ : α → β} {P : β → List Node}
    (h : Reads x fun a => P (φ a)) : Reads (φ <$> x) P :=
  fun s hs => (h s hs).map

namespace At

variable {x : Reader α} {f : α → Reader β} {s s' : State} {i : Nat} {ns : List Node}
  {Q : β → State → Prop}

/-- Nothing has been read. -/
theorem start (h : s.Ordered) : At s.offset [] s := ⟨h, Nat.le_refl _, Row.nil⟩

theorem lead (h : At i ns s) (hleads : s.Leads s') : At i ns s' where
  ordered := hleads.ordered
  base := Nat.le_trans h.base hleads.offset
  row := h.row.mono (Nat.le_refl _) hleads.last

theorem append {ms : List Node} (h : At i ns s) (hleads : s.Leads s')
    (hrow : Row s.offset ms s'.last) : At i (ns ++ ms) s' where
  ordered := hleads.ordered
  base := Nat.le_trans h.base hleads.offset
  row := h.row.append hrow h.base hleads.last h.ordered.last_le_offset

/-- A row that has taken the place of another one. -/
theorem become {ms : List Node} (h : At i ns s) (hleads : s.Leads s') (hrow : Row i ms s'.last) :
    At i ms s' :=
  ⟨hleads.ordered, (h.lead hleads).base, hrow⟩

/-- The row starts with its first node. -/
theorem fromFirst {n : Node} (h : At i (n :: ns) s) : At n.span.start (n :: ns) s := by
  have hproper := h.row.proper n List.mem_cons_self
  have hstop := (h.row.inside n List.mem_cons_self).2
  have hlast := h.ordered.last_le_offset
  exact ⟨h.ordered, by omega, h.row.fromFirst⟩

/-- A step that reads nodes. -/
theorem read {P : α → List Node} (h : At i ns s) (hx : Reads x P)
    (hf : ∀ a s', At i (ns ++ P a) s' → Ends (f a) s' Q) : Ends (x >>= f) s Q :=
  .bind (hx s h.ordered) fun a s' hleads hrow => hf a s' (h.append hleads hrow)

/-- A step that reads nothing that is kept. -/
theorem skip (h : At i ns s) (hx : Passes x) (hf : ∀ a s', At i ns s' → Ends (f a) s' Q) :
    Ends (x >>= f) s Q :=
  .bind (hx s h.ordered) fun a s' hleads _ => hf a s' (h.lead hleads)

/-- A step that reads nodes which begin with the node read last. -/
theorem replace {P : α → List Node} {n : Node} (h : At i (ns ++ [n]) s)
    (hx : At n.span.start [n] s → Ends x s fun a s' => Row n.span.start (P a) s'.last)
    (hf : ∀ a s', At i (ns ++ P a) s' → Ends (f a) s' Q) : Ends (x >>= f) s Q := by
  have hinside := h.row.inside n (List.mem_append_right _ List.mem_cons_self)
  have hproper := h.row.proper n (List.mem_append_right _ List.mem_cons_self)
  have hn : At i [n] s :=
    ⟨h.ordered, h.base, h.row.sublist (List.sublist_append_right ns [n])⟩
  refine .bind (hx hn.fromFirst) fun a s' hleads hrow => hf a s' (h.become hleads ?_)
  have hlast := hleads.last
  exact h.row.front.append hrow hinside.1 (by omega) (Nat.le_refl _)

/-- A reader that goes on from the only node. -/
theorem regrow {P : α → List Node} {n : Node} (h : At i [n] s)
    (hx : At n.span.start [n] s → Ends x s fun a s' => Row n.span.start (P a) s'.last) :
    Ends x s fun a s' => At i (P a) s' :=
  (hx h.fromFirst).mono fun _ _ hleads hrow =>
    h.become hleads (hrow.mono (h.row.inside n List.mem_cons_self).1 (Nat.le_refl _))

/-- A node without parts takes the place of the node read last. -/
theorem exchange {m n : Node} (h : At i (ns ++ [m]) s) (hspan : n.span = m.span)
    (hparts : n.parts = []) (hoffsets : n.offsets = []) : At i (ns ++ [n]) s :=
  ⟨h.ordered, h.base, h.row.exchange hspan hparts hoffsets⟩

theorem pure {a : β} (h : At i ns s) (ha : Q a s) : Ends (pure a : Reader β) s Q :=
  .pure h.ordered ha

end At

/-! ### Looking -/

theorem Looks.pure (a : α) : Looks (pure a : Reader α) := fun _ => ⟨a, rfl⟩

theorem Looks.bind {x : Reader α} {f : α → Reader β} (hx : Looks x) (hf : ∀ a, Looks (f a)) :
    Looks (x >>= f) := by
  intro s
  obtain ⟨a, hrun⟩ := hx s
  obtain ⟨b, hrest⟩ := hf a s
  refine ⟨b, ?_⟩
  change EStateM.bind x f s = _
  rw [EStateM.bind, hrun]
  exact hrest

theorem looks_peek : Looks peek := fun _ => ⟨_, rfl⟩

theorem looks_kindAt (n : Nat) : Looks (kindAt n) := fun _ => ⟨_, rfl⟩

theorem looks_isAt (n : Nat) (kind : TokenKind) : Looks (isAt n kind) := fun _ => ⟨_, rfl⟩

theorem looks_atMark (text : String) : Looks (atMark text) := looks_isAt _ _

theorem looks_atReserved (word : String) : Looks (atReserved word) := looks_isAt _ _

theorem looks_atEnd : Looks atEnd := fun _ => ⟨_, rfl⟩

theorem looks_endFailure : Looks endFailure := fun _ => ⟨_, rfl⟩

theorem looks_missing (labels : List String) : Looks (missing labels) := by
  refine looks_peek.bind fun t => ?_
  cases t with
  | none => exact fun _ => ⟨_, rfl⟩
  | some t => exact .pure _

theorem looks_get : Looks (get : Reader State) := fun _ => ⟨_, rfl⟩

theorem looks_wordAt (n : Nat) : Looks (wordAt n) := by
  refine looks_get.bind fun s => ?_
  split
  · exact .pure _
  · exact .pure _

theorem offset_eq (s : State) : offset s = .ok s.offset s := by
  obtain ⟨tokens, last, failures⟩ := s
  cases tokens with
  | nil => rfl
  | cons t ts => rfl

/-! ### Single tokens -/

section Tokens

variable {f : α → Reader β} {s : State} {i : Nat} {ns : List Node} {Q : β → State → Prop}
  {t : Token} {ts : List Token}

theorem At.peek {f : Option Token → Reader β} (h : Ends (f s.tokens.head?) s Q) :
    Ends (Reader.peek >>= f) s Q :=
  .see rfl h

theorem At.kind {f : Option TokenKind → Reader β}
    (h : Ends (f (s.tokens.head?.map (·.kind))) s Q) : Ends (Reader.kindAt 0 >>= f) s Q := by
  rw [List.head?_eq_getElem?] at h
  exact .see rfl h

theorem At.offset {f : Nat → Reader β} (h : Ends (f s.offset) s Q) :
    Ends (Reader.offset >>= f) s Q :=
  .see (offset_eq s) h

theorem next_eq (htokens : s.tokens = t :: ts) :
    next s = .ok t { s with tokens := ts, last := t.span.stop } := by
  obtain ⟨tokens, last, failures⟩ := s
  cases htokens
  rfl

theorem leads_next (hs : s.Ordered) (htokens : s.tokens = t :: ts) :
    s.Leads { s with tokens := ts, last := t.span.stop } := by
  have hproper := hs.proper t (htokens ▸ List.mem_cons_self)
  have hbehind := hs.behind t (htokens ▸ List.mem_cons_self)
  have hpairwise := hs.ordered
  rw [htokens, List.pairwise_cons] at hpairwise
  refine ⟨⟨hpairwise.1, fun u hu => hs.proper u ?_, hpairwise.2⟩, ?_, ?_, id⟩
  · rw [htokens]
    exact List.mem_cons_of_mem _ hu
  · exact Nat.le_trans hbehind (Nat.le_of_lt hproper)
  · rw [State.offset, htokens]
    cases ts with
    | nil => exact Nat.le_of_lt hproper
    | cons u ts => exact Nat.le_trans (Nat.le_of_lt hproper) (hpairwise.1 u List.mem_cons_self)

theorem row_node (hs : s.Ordered) (htokens : s.tokens = t :: ts) :
    Row s.offset [t.node] t.span.stop := by
  have hproper := hs.proper t (htokens ▸ List.mem_cons_self)
  have hstart : s.offset = t.span.start := by rw [State.offset, htokens]
  have hin : Throughout Node.InPlace t.node :=
    .intro _ ⟨⟨Nat.le_of_lt hproper, List.forall_mem_nil _, .nil⟩, List.forall_mem_nil _,
      fun o ho => absurd ho (Option.not_mem_none o)⟩ (List.forall_mem_nil _)
  exact ⟨List.forall_mem_singleton.2 ⟨Nat.le_of_eq hstart, Nat.le_refl _⟩,
    List.forall_mem_singleton.2 hproper, List.pairwise_singleton _ _,
    List.forall_mem_singleton.2 hin⟩

/-- The token that is next is read. -/
theorem At.next {f : Token → Reader β} (h : At i ns s) (htokens : s.tokens = t :: ts)
    (hf : ∀ s', At i (ns ++ [t.node]) s' → Ends (f t) s' Q) : Ends (Reader.next >>= f) s Q := by
  have hends : Ends Reader.next s fun u s' => u = t ∧ Row s.offset [t.node] s'.last := by
    rw [Ends, next_eq htokens]
    exact ⟨leads_next h.ordered htokens, rfl, row_node h.ordered htokens⟩
  refine .bind hends fun u s' hleads hu => ?_
  obtain ⟨rfl, hrow⟩ := hu
  exact hf s' (h.append hleads hrow)

theorem reads_next : Reads next fun t => [t.node] := by
  intro s hs
  cases htokens : s.tokens with
  | nil =>
    have hrun : next s = .error ⟨⟨"Unexpected end of file", ⟨s.last, s.last⟩⟩, true⟩ s := by
      obtain ⟨tokens, last, failures⟩ := s
      cases htokens
      rfl
    rw [Ends, hrun]
    exact hs.leads
  | cons t ts =>
    rw [Ends, next_eq htokens]
    exact ⟨leads_next hs htokens, row_node hs htokens⟩

/-- What is read behind a token. -/
theorem ends_behindToken {x : Reader α} {Q : Option α → State → Prop} (hs : s.Ordered)
    (hx : ∀ t s', At s.offset [t] s' → Ends x s' fun a s'' => Q (some a) s'') :
    Ends (do let _ ← next; some <$> x) s Q :=
  (At.start hs).read reads_next fun t s' h => (hx t.node s' h).map

theorem reads_eat (kind : TokenKind) : Reads (eat kind) fun t => t.toList.map Token.node := by
  intro s hs
  refine (looks_isAt _ _).see fun found => ?_
  cases found with
  | false => exact .pure hs Row.nil
  | true => exact (At.start hs).read reads_next fun t s' h => h.pure h.row

theorem passes_eatMark (text : String) : Passes (eatMark text) := by
  intro s hs
  exact (At.start hs).skip (reads_eat _).passes fun _ _ h => h.pure Row.nil

theorem passes_eatReserved (word : String) : Passes (eatReserved word) := by
  intro s hs
  exact (At.start hs).skip (reads_eat _).passes fun _ _ h => h.pure Row.nil

theorem Ends.fail (hs : s.Ordered) (labels : List String) {P : α → State → Prop} :
    Ends (missing labels >>= MonadExcept.throw) s P :=
  (looks_missing labels).see fun _ => .throw hs

theorem reads_expect (kind : TokenKind) : Reads (expect kind) fun t => [t.node] := by
  intro s hs
  refine (At.start hs).read (reads_eat kind) fun t s' h => ?_
  cases t with
  | none => exact .fail h.ordered _
  | some t => exact h.pure h.row

theorem reads_expectMark (text : String) : Reads (expectMark text) fun t => [t.node] :=
  reads_expect _

theorem ends_note (hs : s.Ordered) (e : Failure) :
    Ends (note e) s fun _ s' => s'.failures ≠ [] := by
  have hne : s.failures ++ [e] ≠ [] :=
    List.append_ne_nil_of_right_ne_nil _ (List.cons_ne_nil _ _)
  exact ⟨⟨⟨hs.behind, hs.proper, hs.ordered⟩, Nat.le_refl _, Nat.le_refl _, fun h => absurd h hne⟩,
    hne⟩

theorem passes_note (e : Failure) : Passes (note e) :=
  fun _ hs => (ends_note hs e).mono fun _ _ _ _ => Row.nil

theorem passes_wantMark (text : String) : Passes (wantMark text) := by
  intro s hs
  refine (At.start hs).skip (passes_eatMark text) fun found s' h => ?_
  cases found with
  | false =>
    refine (looks_missing _).see fun e => ?_
    exact (passes_note e s' h.ordered).mono fun _ _ _ _ => Row.nil
  | true => exact h.pure Row.nil

theorem ends_lastStop (hs : s.Ordered) : Ends lastStop s fun n s' => n = s'.last :=
  ⟨hs.leads, rfl⟩

theorem At.lastStop {f : Nat → Reader β} (h : Ends (f s.last) s Q) :
    Ends (Reader.lastStop >>= f) s Q := h

/-- The end of a statement is where reading has come to. -/
theorem ends_terminator (hs : s.Ordered) : Ends terminator s fun n s' => n = s'.last := by
  refine (At.start hs).skip (passes_eatMark _) fun found s' h => ?_
  cases found with
  | true => exact ends_lastStop h.ordered
  | false =>
    refine h.skip (reads_eat _).passes fun close s'' h => ?_
    cases close with
    | none => exact .fail h.ordered _
    | some close =>
      refine looks_peek.see fun t => ?_
      cases t with
      | none => exact ends_lastStop h.ordered
      | some t =>
        dsimp only
        split
        · exact h.skip reads_next.passes fun _ _ h => ends_lastStop h.ordered
        · exact ends_lastStop h.ordered

theorem At.terminator {f : Nat → Reader β} (h : At i ns s)
    (hf : ∀ s', At i ns s' → Ends (f s'.last) s' Q) : Ends (Reader.terminator >>= f) s Q := by
  refine .bind (ends_terminator h.ordered) fun n s' hleads hn => ?_
  rw [hn]
  exact hf s' (h.lead hleads)

theorem passes_terminator : Passes terminator :=
  fun _ hs => (ends_terminator hs).mono fun _ _ _ _ => Row.nil

theorem reads_declaredName : Reads declaredName fun r => [.name r] := by
  intro s hs
  refine (looks_isAt _ _).see fun found => ?_
  cases found with
  | true => exact (At.start hs).read reads_next fun t s' h => h.pure h.row
  | false =>
    refine (looks_missing _).see fun e => ?_
    exact (At.start hs).skip reads_next.passes fun _ _ h => .throw h.ordered

/-- A token of certain kinds as a name. -/
theorem reads_nameOf (p : TokenKind → Bool) :
    Reads (do
      match ← kindAt 0 with
      | some kind => if p kind then return nameRef (← next) else throw (← missing ["Identifier"])
      | none => throw (← missing ["Identifier"])) fun r => [.name r] := by
  intro s hs
  refine (looks_kindAt _).see fun kind => ?_
  cases kind with
  | none => exact .fail hs _
  | some kind =>
    dsimp only
    split
    · exact (At.start hs).read reads_next fun t s' h => h.pure h.row
    · exact .fail hs _

theorem reads_memberName : Reads memberName fun r => [.name r] := reads_nameOf isMemberName

theorem reads_anyName : Reads anyName fun r => [.name r] := reads_nameOf isName

end Tokens

/-! ### Readers that keep nothing -/

theorem Passes.pure (a : α) : Passes (pure a : Reader α) := fun _ hs => .pure hs Row.nil

theorem Passes.throw (e : Failure) : Passes (throw e : Reader α) := fun _ hs => .throw hs

theorem Passes.fail (labels : List String) :
    Passes (missing labels >>= MonadExcept.throw : Reader α) := fun _ hs => .fail hs labels

theorem Passes.bind {x : Reader α} {f : α → Reader β} (hx : Passes x) (hf : ∀ a, Passes (f a)) :
    Passes (x >>= f) :=
  fun s hs => .bind (hx s hs) fun a s' hleads _ =>
    (hf a s' hleads.ordered).mono fun _ _ _ _ => Row.nil

theorem Passes.repeatFrom {step : α → Reader (α ⊕ β)} (hstep : ∀ a, Passes (step a)) (a : α) :
    Passes (Reader.repeatFrom a step) := by
  intro s hs
  refine Ends.repeatFrom (I := fun _ s' => s'.Ordered) (fun _ _ h => h) (fun a s' hs' => ?_) hs
  refine (hstep a s' hs').mono fun r s'' hleads _ => ?_
  cases r with
  | inl a => exact hleads.ordered
  | inr b => exact Row.nil

theorem passes_skipAttributes : Passes skipAttributes := by
  refine .repeatFrom (fun depth => (looks_kindAt _).passes.bind fun kind => ?_) _
  split
  · exact reads_next.passes.bind fun _ => .pure _
  · split
    · exact .pure _
    · refine reads_next.passes.bind fun _ => ?_
      split <;> exact .pure _
  · exact .pure _

/-! ### Lists -/

/-- A loop that reads nodes in each step. -/
theorem Reads.repeatFrom {step : List α → Reader (List α ⊕ List α)} {P : List α → List Node}
    (hnil : P [] = [])
    (hstep : ∀ i as s, At i (P as) s →
      Ends (step as) s fun r s' => r.elim (fun as => At i (P as) s') (fun as => At i (P as) s')) :
    Reads (Reader.repeatFrom [] step) P := by
  intro s hs
  have hstart : At s.offset (P []) s := hnil ▸ At.start hs
  refine (Ends.repeatFrom (fun _ _ h => h.ordered) (hstep s.offset) hstart).mono ?_
  exact fun _ _ _ h => h.row

variable {item : Reader α} {P : α → List Node}

theorem Reads.commaList (stop : TokenKind → Bool) (h : Reads item P) :
    Reads (commaList stop item) fun as => as.flatMap P := by
  refine .repeatFrom rfl fun i as s hat => ?_
  refine (looks_kindAt _).see fun kind => ?_
  cases kind with
  | none => exact hat.pure hat
  | some kind =>
    dsimp only
    split
    · exact hat.pure hat
    · refine hat.read h fun a s' hat => ?_
      rw [← List.flatMap_singleton P a, ← List.flatMap_append] at hat
      refine hat.skip (passes_eatMark _) fun more s' hat => ?_
      cases more with
      | false => exact hat.pure hat
      | true => exact hat.pure hat

theorem ends_commaList1 (h : Reads item P) {s : State} (hs : s.Ordered) :
    Ends (commaList1 item) s fun as s' => as ≠ [] ∧ Row s.offset (as.flatMap P) s'.last := by
  refine Ends.repeatFrom (I := fun as s' => At s.offset (as.flatMap P) s') (fun _ _ h => h.ordered)
    (fun as s' hat => ?_) (At.start hs)
  refine hat.read h fun a s' hat => ?_
  rw [← List.flatMap_singleton P a, ← List.flatMap_append] at hat
  refine hat.skip (passes_eatMark _) fun more s' hat => ?_
  cases more with
  | false =>
    exact hat.pure ⟨List.append_ne_nil_of_right_ne_nil _ (List.cons_ne_nil _ _), hat.row⟩
  | true => exact hat.pure hat

theorem Reads.commaList1 (h : Reads item P) : Reads (commaList1 item) fun as => as.flatMap P :=
  fun _ hs => (ends_commaList1 h hs).mono fun _ _ _ has => has.2

/-- A step that reads a list which is not empty. -/
theorem At.readList {f : List α → Reader β} {s : State} {i : Nat} {ns : List Node}
    {Q : β → State → Prop} (h : At i ns s) (hitem : Reads item P)
    (hf : ∀ a as s', At i (ns ++ (a :: as).flatMap P) s' → Ends (f (a :: as)) s' Q) :
    Ends (Reader.commaList1 item >>= f) s Q := by
  refine .bind (ends_commaList1 hitem h.ordered) fun as s' hleads has => ?_
  obtain ⟨hne, hrow⟩ := has
  cases as with
  | nil => exact absurd rfl hne
  | cons a as => exact hf a as s' (h.append hleads hrow)

/-- Elements that are nodes. -/
theorem Reads.nodes {x : Reader (List α)} {node : α → Node}
    (h : Reads x fun as => as.flatMap fun a => [node a]) : Reads x fun as => as.map node := by
  simpa only [← List.map_eq_flatMap] using h

end Reader
end PhpAtlas
