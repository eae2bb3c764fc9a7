import PhpAtlas.Proofs.Index.Requests

/-!
# What a run over a project reports

In a store where nothing fails, what becomes of a file in a run is settled before the run: it is
indexed if its text is supplied, skipped if its record is recent, and read from the disk otherwise.
If the reader breaks off on its text, its record is gone.  No file is met twice, and indexing one
file leaves the records of the others alone.  So the report of a run can be read off the tables in
front of it.

## Main definitions

* `Tables.indexedAt?` — when a file was last indexed.
* `Tables.outcome`, `Tables.textFor?` — what becomes of a file, and the text that is indexed for it.
* `Tables.stamp?` — the time on its record behind the run.
* `Config.projectPaths` — the files that a run meets.

## Main results

* `Vault.Calm.indexFile_meets` — what becomes of one file, and what it does to the records.
* `Vault.Calm.indexProject_ends` — what a run reports, and what it does to the records.
-/

namespace PhpAtlas

open Vault

/-! ### Stores in which nothing fails -/

namespace Vault

variable {v : Vault} {α : Type} {m : VaultM α} {ok : α → Vault → Prop}

theorem Ends.exists_ok (h : Ends m v ok fun _ _ => False) : ∃ a w, m v = .ok a w ∧ ok a w := by
  unfold Ends at h
  cases hm : m v with
  | ok a w =>
    rw [hm] at h
    exact ⟨a, w, rfl, h⟩
  | error e w =>
    rw [hm] at h
    exact h.elim

/-- Nothing fails, and no transaction is open. -/
structure Calm (v : Vault) : Prop where
  faultless : v.Faultless
  closed : v.store.saved = none

theorem calm_of_empty (hfaultless : v.Faultless) (hempty : v.store = Store.empty) : v.Calm :=
  ⟨hfaultless, by rw [hempty]; rfl⟩

/-- Where nothing fails, a document is indexed. -/
theorem Calm.indexDocument_ends (h : v.Calm) (maxDepth : Nat) (doc : Document) (time : Nat) :
    Ends (indexDocument maxDepth doc time) v
      (fun _ w => w.Calm ∧ w.store.tables = v.store.tables.withDocument maxDepth doc time)
      (fun _ _ => False) := by
  obtain ⟨hdone, hfaultless, hstore⟩ :=
    indexDocument_faultless h.faultless h.closed maxDepth doc time
  unfold fails at hdone
  unfold after at hfaultless hstore
  unfold Ends
  cases hm : indexDocument maxDepth doc time v with
  | error e w =>
    rw [hm] at hdone
    cases hdone
  | ok a w =>
    rw [hm] at hfaultless hstore
    exact ⟨⟨hfaultless, congrArg Store.saved hstore⟩, congrArg Store.tables hstore⟩

/-- Where nothing fails, indexing a text fails only if the reader breaks off. -/
theorem Calm.indexReading_ends (h : v.Calm) (maxDepth : Nat) (path : String)
    (reading : Option Document) (time : Nat) :
    Ends (indexReading maxDepth path reading time) v
      (fun r w => w.Calm ∧
        (∀ doc ∈ reading, r = .ok () ∧
          w.store.tables = v.store.tables.withDocument maxDepth doc time) ∧
        (reading = none → r = .error (.unread path) ∧
          w.store.tables = v.store.tables.deleteFile path))
      (fun _ _ => False) := by
  cases reading with
  | some doc =>
    refine ends_tryCatch.2 (ends_bind.2
      ((h.indexDocument_ends maxDepth doc time).mono ?_ fun _ _ h => h.elim))
    rintro _ w ⟨hcalm, htables⟩
    refine (ends_pure _).2 ⟨hcalm, ?_, nofun⟩
    rintro _ ⟨⟩
    exact ⟨rfl, htables⟩
  | none =>
    refine (indexReading_none_ends h.faultless.onlyPutsFail h.closed maxDepth path time).mono ?_
      fun _ _ h => h
    rintro r w ⟨hw, hr, hstore, -⟩
    have hcalm : w.Calm :=
      ⟨fun tried op => by rw [hw.schedule, h.faultless], by rw [hstore]⟩
    exact ⟨hcalm, nofun, fun _ => ⟨hr, by rw [hstore]⟩⟩

end Vault

/-! ### One file -/

namespace Tables

/-- When a file was last indexed. -/
def indexedAt? (t : Tables) (path : String) : Option Nat := (t.file? path).map (·.indexedAt)

theorem isFresh_iff {t : Tables} {d : Disk} {path : String} :
    t.isFresh d path = true ↔
      ∃ time, t.indexedAt? path = some time ∧ (d.modified? path).getD 0 ≤ time := by
  rw [isFresh, indexedAt?]
  cases t.file? path <;> simp

theorem indexedAt?_withDocument (t : Tables) (maxDepth : Nat) (doc : Document) (time : Nat)
    (path : String) : (t.withDocument maxDepth doc time).indexedAt? path =
      if path = doc.path then some time else t.indexedAt? path := by
  rw [indexedAt?, indexedAt?, file?_withDocument]
  split <;> rfl

theorem indexedAt?_deleteFile (t : Tables) (path other : String) :
    (t.deleteFile path).indexedAt? other = if other = path then none else t.indexedAt? other := by
  rw [indexedAt?, indexedAt?, (t.lacks_deleteFile path).file]
  split <;> rfl

end Tables

namespace Circumstances

/-- What becomes of a path under which a text is indexed. -/
def outcome (x : Circumstances) (path source : String) : Outcome :=
  if x.breaksOff source then .failed (IndexError.unread path).message else .indexed

/-- The time on the record of a path under which a text was indexed. -/
def stamp? (x : Circumstances) (path source : String) : Option Nat :=
  if x.breaksOff source then none else some (x.time path)

end Circumstances

namespace Tables

/-- What becomes of a file in a run. -/
def outcome (t : Tables) (d : Disk) (overrides : Table String) (x : Circumstances)
    (path : String) : Outcome :=
  match overrides.get? path with
  | some source => x.outcome path source
  | none =>
      if t.isFresh d path then .skipped
      else
        match d.read path with
        | .ok source => x.outcome path source
        | .error e => .failed e.message

/-- The text that a run indexes for a file: the one that is supplied, or that of the file if it is
not fresh. -/
def textFor? (t : Tables) (d : Disk) (overrides : Table String) (path : String) : Option String :=
  match overrides.get? path with
  | some source => some source
  | none => if t.isFresh d path then none else (d.read path).toOption

/-- The time on the record of a file behind a run that meets it. -/
def stamp? (t : Tables) (d : Disk) (overrides : Table String) (x : Circumstances)
    (path : String) : Option Nat :=
  match t.textFor? d overrides path with
  | some source => x.stamp? path source
  | none => t.indexedAt? path

section

variable {t t' : Tables} {d : Disk} {overrides : Table String} {x : Circumstances} {path : String}

theorem isFresh_congr (h : t'.indexedAt? path = t.indexedAt? path) :
    t'.isFresh d path = t.isFresh d path := by
  rw [Bool.eq_iff_iff, isFresh_iff, isFresh_iff, h]

/-- What becomes of a file is settled by its own record. -/
theorem outcome_congr (h : t'.indexedAt? path = t.indexedAt? path) :
    t'.outcome d overrides x path = t.outcome d overrides x path := by
  rw [outcome, outcome, isFresh_congr h]

theorem stamp?_congr (h : t'.indexedAt? path = t.indexedAt? path) :
    t'.stamp? d overrides x path = t.stamp? d overrides x path := by
  rw [stamp?, stamp?, textFor?, textFor?, isFresh_congr h, h]

theorem outcome_eq_skipped_iff : t.outcome d overrides x path = .skipped ↔
    overrides.get? path = none ∧ t.isFresh d path = true := by
  have htext : ∀ source, x.outcome path source ≠ .skipped := by
    intro source
    rw [Circumstances.outcome]
    split <;> exact nofun
  rw [outcome]
  cases overrides.get? path with
  | some source => simp [htext source]
  | none =>
    cases t.isFresh d path with
    | true => simp
    | false =>
      cases d.read path with
      | ok source => simp [htext source]
      | error e => simp

/-- A file is indexed if there is a text for it that can be read. -/
theorem outcome_eq_indexed_iff : t.outcome d overrides x path = .indexed ↔
    ∃ source, t.textFor? d overrides path = some source ∧ x.breaksOff source = false := by
  have htext : ∀ source, x.outcome path source = .indexed ↔ x.breaksOff source = false := by
    intro source
    rw [Circumstances.outcome]
    cases x.breaksOff source <;> simp
  rw [outcome, textFor?]
  cases overrides.get? path with
  | some source => simp [htext source]
  | none =>
    cases t.isFresh d path with
    | true => simp
    | false =>
      cases d.read path with
      | ok source => simp [htext source, Except.toOption]
      | error e => simp [Except.toOption]

end

end Tables

namespace Vault

variable {v : Vault}

theorem Calm.indexText_ends (h : v.Calm) (c : Config) (x : Circumstances) (path source : String) :
    Ends (indexText c x path source) v
      (fun o w => w.Calm ∧ o = x.outcome path source ∧
        ∀ other, w.store.tables.indexedAt? other =
          if other = path then x.stamp? path source else v.store.tables.indexedAt? other)
      (fun _ _ => False) := by
  refine ends_bind.2 ((h.indexReading_ends c.maxDepth path _ _).mono ?_ fun _ _ h => h)
  rintro r w ⟨hcalm, hread, hunread⟩
  rw [Circumstances.outcome, Circumstances.stamp?]
  by_cases hbreaks : x.breaksOff source = true
  · obtain ⟨rfl, htables⟩ := hunread (if_pos hbreaks)
    refine (ends_pure _).2 ⟨hcalm, (if_pos hbreaks).symm, fun other => ?_⟩
    rw [htables, Tables.indexedAt?_deleteFile, if_pos hbreaks]
  · obtain ⟨rfl, htables⟩ := hread _ (if_neg hbreaks)
    refine (ends_pure _).2 ⟨hcalm, (if_neg hbreaks).symm, fun other => ?_⟩
    rw [htables, Tables.indexedAt?_withDocument, if_neg hbreaks]
    rfl

/-- In a run from `v` to `w`, a file was met: its outcome is the one settled in `v`, and the records
of other files stayed as they were. -/
structure Met (d : Disk) (overrides : Table String) (x : Circumstances) (path : String) (v : Vault)
    (o : Outcome) (w : Vault) : Prop where
  calm : w.Calm
  outcome : o = v.store.tables.outcome d overrides x path
  records : ∀ other, w.store.tables.indexedAt? other =
    if other = path then v.store.tables.stamp? d overrides x path
    else v.store.tables.indexedAt? other

variable {d : Disk} {overrides : Table String} {x : Circumstances} {path : String} {o : Outcome}

/-- A file for which there is no text changes nothing. -/
theorem Calm.met_self (h : v.Calm) (houtcome : v.store.tables.outcome d overrides x path = o)
    (htext : v.store.tables.textFor? d overrides path = none) : Met d overrides x path v o v where
  calm := h
  outcome := houtcome.symm
  records other := by
    rw [Tables.stamp?, htext]
    split
    · rename_i heq
      rw [heq]
    · rfl

theorem Calm.indexText_meets (h : v.Calm) (c : Config) {source : String}
    (houtcome : v.store.tables.outcome d overrides x path = x.outcome path source)
    (htext : v.store.tables.textFor? d overrides path = some source) :
    Ends (indexText c x path source) v (Met d overrides x path v) fun _ _ => False := by
  refine (h.indexText_ends c x path source).mono ?_ fun _ _ h => h
  rintro o w ⟨hcalm, rfl, hrecords⟩
  refine ⟨hcalm, houtcome.symm, fun other => ?_⟩
  rw [hrecords, Tables.stamp?, htext]

/-- What becomes of a file in a run, and what that does to the records. -/
theorem Calm.indexFile_meets (h : v.Calm) (c : Config) :
    Ends (indexFile c d overrides x path) v (Met d overrides x path v) fun _ _ => False := by
  unfold indexFile
  cases hoverride : overrides.get? path with
  | some source =>
    refine h.indexText_meets c ?_ ?_
    · rw [Tables.outcome, hoverride]
    · rw [Tables.textFor?, hoverride]
  | none =>
    refine ends_bind.2 (ends_tables.2 ?_)
    by_cases hfresh : v.store.tables.isFresh d path = true
    · rw [if_pos hfresh]
      refine (ends_pure _).2 (h.met_self ?_ ?_)
      · exact Tables.outcome_eq_skipped_iff.2 ⟨hoverride, hfresh⟩
      · rw [Tables.textFor?, hoverride]
        exact if_pos hfresh
    · rw [if_neg hfresh]
      have houtcome : v.store.tables.outcome d overrides x path =
          match d.read path with
          | .ok source => x.outcome path source
          | .error e => .failed e.message := by
        rw [Tables.outcome, hoverride]
        exact if_neg hfresh
      have htext : v.store.tables.textFor? d overrides path = (d.read path).toOption := by
        rw [Tables.textFor?, hoverride]
        exact if_neg hfresh
      cases hread : d.read path with
      | ok source =>
        rw [hread] at houtcome htext
        exact h.indexText_meets c houtcome htext
      | error e =>
        rw [hread] at houtcome htext
        exact (ends_pure _).2 (h.met_self houtcome htext)

end Vault

/-! ### A whole run -/

/-- The files that a run meets. -/
def Config.projectPaths (c : Config) (d : Disk) (overrides : Table String) (roots : List String) :
    List String :=
  sortedPaths (roots.flatMap (c.filesOf d) ++ overrides.entries.map (·.1))

/-- No path is sorted into a list twice. -/
theorem nodup_sortedPaths (paths : List String) : (sortedPaths paths).Nodup := by
  have hkeyed : ∀ (paths : List String) (t : Table String), (∀ e ∈ t.entries, e.2 = e.1) →
      ∀ e ∈ (paths.foldl (fun t path => t.insert path path) t).entries, e.2 = e.1 := by
    intro paths
    induction paths with
    | nil => exact fun _ ht => ht
    | cons path paths ih =>
      refine fun t ht => ih _ fun e he => ?_
      rcases Table.mem_insertEntry he with rfl | he
      · rfl
      · exact ht e he
  let t := paths.foldl (fun t path => t.insert path path) Table.empty
  have ht : ∀ e ∈ t.entries, e.2 = e.1 := hkeyed paths Table.empty fun _ h => nomatch h
  have hvalues : t.values = t.entries.map (·.1) := List.map_congr_left ht
  rw [sortedPaths, hvalues]
  refine List.pairwise_map.2 (t.increasing.imp fun {a b} hlt heq => ?_)
  exact String.lt_irrefl b.1 (heq ▸ hlt)

namespace Vault

variable {v : Vault}

/-- What a run over different paths reports, and what it does to the records. -/
theorem Calm.indexFiles_end (h : v.Calm) (c : Config) (d : Disk) (overrides : Table String)
    (x : Circumstances) {paths : List String} (hdiff : paths.Nodup) :
    Ends (paths.mapM fun path => do return (path, ← indexFile c d overrides x path)) v
      (fun outcomes w => w.Calm ∧
        outcomes = paths.map (fun path => (path, v.store.tables.outcome d overrides x path)) ∧
        ∀ other, w.store.tables.indexedAt? other =
          if other ∈ paths then v.store.tables.stamp? d overrides x other
          else v.store.tables.indexedAt? other)
      (fun _ _ => False) := by
  induction paths generalizing v with
  | nil => exact (ends_pure _).2 ⟨h, rfl, fun other => by simp⟩
  | cons path paths ih =>
    obtain ⟨hpath, hdiff⟩ := List.nodup_cons.1 hdiff
    rw [List.mapM_cons, bind_assoc]
    refine ends_bind.2 ((h.indexFile_meets c).mono ?_ fun _ _ h => h)
    rintro o u ⟨hcalm, rfl, hrecords⟩
    -- indexing the first path leaves the records of the other paths alone
    have hothers : ∀ other, other ≠ path →
        u.store.tables.indexedAt? other = v.store.tables.indexedAt? other := by
      intro other hne
      rw [hrecords, if_neg hne]
    have hlater : ∀ other ∈ paths,
        u.store.tables.indexedAt? other = v.store.tables.indexedAt? other :=
      fun other hother => hothers other fun heq => hpath (heq ▸ hother)
    have houtcomes : ∀ other ∈ paths, u.store.tables.outcome d overrides x other =
        v.store.tables.outcome d overrides x other :=
      fun other hother => Tables.outcome_congr (hlater other hother)
    refine ends_bind.2 (ends_bind.2 ((ih hcalm hdiff).mono ?_ fun _ _ h => h))
    rintro outcomes w ⟨hcalm', rfl, hrecords'⟩
    refine (ends_pure _).2 ⟨hcalm', ?_, fun other => ?_⟩
    · rw [List.map_cons, List.map_congr_left fun other hother => by rw [houtcomes other hother]]
    · rw [hrecords']
      by_cases hother : other ∈ paths
      · rw [if_pos hother, if_pos (List.mem_cons_of_mem _ hother)]
        exact Tables.stamp?_congr (hlater other hother)
      · rw [if_neg hother, hrecords]
        by_cases heq : other = path
        · simp [heq]
        · simp [heq, hother]

/-- What a run reports, and what it does to the records. -/
theorem Calm.indexProject_ends (h : v.Calm) (c : Config) (d : Disk) (overrides : Table String)
    (x : Circumstances) (roots : List String) :
    Ends (indexProject c d overrides x roots) v
      (fun report w => w.Calm ∧
        report = ⟨(c.projectPaths d overrides roots).map fun path =>
          (path, v.store.tables.outcome d overrides x path)⟩ ∧
        ∀ path, w.store.tables.indexedAt? path =
          if path ∈ c.projectPaths d overrides roots then
            v.store.tables.stamp? d overrides x path
          else v.store.tables.indexedAt? path)
      (fun _ _ => False) := by
  refine ends_bind.2 ((h.indexFiles_end c d overrides x (nodup_sortedPaths _)).mono ?_
    fun _ _ h => h)
  rintro outcomes w ⟨hcalm, rfl, hrecords⟩
  exact (ends_pure _).2 ⟨hcalm, rfl, hrecords⟩

end Vault

namespace ProjectReport

variable {paths : List String} {outcome : String → Outcome} {path : String}

/-- The paths with one outcome. -/
theorem mem_filterMap_iff {o : Outcome} :
    path ∈ (paths.map fun path => (path, outcome path)).filterMap
      (fun (path, other) => if other = o then some path else none) ↔
      path ∈ paths ∧ outcome path = o := by
  simp only [List.mem_filterMap, List.mem_map]
  constructor
  · rintro ⟨_, ⟨other, hother, rfl⟩, hif⟩
    split at hif
    · rename_i houtcome
      obtain rfl := Option.some.inj hif
      exact ⟨hother, houtcome⟩
    · cases hif
  · rintro ⟨hpath, houtcome⟩
    exact ⟨_, ⟨path, hpath, rfl⟩, if_pos houtcome⟩

theorem mem_indexed_iff : path ∈ indexed ⟨paths.map fun path => (path, outcome path)⟩ ↔
    path ∈ paths ∧ outcome path = .indexed := mem_filterMap_iff

theorem mem_skipped_iff : path ∈ skipped ⟨paths.map fun path => (path, outcome path)⟩ ↔
    path ∈ paths ∧ outcome path = .skipped := mem_filterMap_iff

end ProjectReport
end PhpAtlas
