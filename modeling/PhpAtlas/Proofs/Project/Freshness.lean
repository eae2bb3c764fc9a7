import PhpAtlas.Proofs.Project.Reports

/-!
# Skipping files that did not change

A run skips a file whose record is at least as recent as the last change of the file.  If every
change of a file is stamped with a time later than all indexing before it, a file that is skipped
has not changed since it was last indexed.  So a text that was read from the disk is still the text
of the file.  A text that was supplied need not be: an edited text that was indexed before the file
was written stays indexed, since the file itself did not change.  A path on whose text the reader
broke off has no record, and is not skipped.

## Main definitions

* `Workspace`, `Event` — a disk with an index of it, and what happens to them.
* `Event.meeting?` — what an event makes of a path that it indexes.
* `Workspace.after`, `Workspace.lastIndexing?` — what they become in a sequence of events, and how
  a path was last indexed in it.
* `Stamped` — changes are stamped with times later than all indexing before them.

## Main results

* `Disk.Grown.locate?` — writing files does not change where a path leads.
* `Workspace.indexedAt?_after` — a record tells when the path was last indexed.
* `skipped_unchanged` — a file that is skipped has not changed since it was last indexed.
* `not_forall_skipped_read` — an edited text may stay indexed.
-/

namespace PhpAtlas

open Vault

/-! ### Disks on which files are written -/

namespace Disk

/-- Directories and files were added to a disk, or files were written anew. -/
structure Grown (d d' : Disk) : Prop where
  workDirectory : d'.workDirectory = d.workDirectory
  directories : ∀ name, d.isDirectoryAt name = true → d'.isDirectoryAt name = true
  files : ∀ name, (d.fileAt? name).isSome = true → (d'.fileAt? name).isSome = true

variable {d d' d'' : Disk}

theorem grown_refl : Grown d d := ⟨rfl, fun _ h => h, fun _ h => h⟩

theorem Grown.trans (h : Grown d d') (h' : Grown d' d'') : Grown d d'' where
  workDirectory := h'.workDirectory.trans h.workDirectory
  directories name hname := h'.directories name (h.directories name hname)
  files name hname := h'.files name (h.files name hname)

theorem lookup_filter_ne {entries : List (DiskName × DiskFile)} {name other : DiskName}
    (hne : other ≠ name) :
    (entries.filter fun e => e.1 != name).lookup other = entries.lookup other := by
  induction entries with
  | nil => rfl
  | cons e entries ih =>
    obtain ⟨key, file⟩ := e
    by_cases hkey : key = name
    · have hother : (other == name) = false := beq_eq_false_iff_ne.2 hne
      simp [hkey, List.lookup_cons, hother, ih]
    · simp [hkey, List.lookup_cons, ih]

/-- The name under which a file is written. -/
def written (d : Disk) (path : String) : DiskName :=
  (Path.parts path).foldl follow d.workDirectory

theorem fileAt?_write (path : String) (file : DiskFile) (name : DiskName) :
    (d.write path file).fileAt? name =
      if name = d.written path then some file else d.fileAt? name := by
  change ((d.written path, file) :: d.files.filter fun e => e.1 != d.written path).lookup name = _
  rw [List.lookup_cons]
  split
  · rename_i hname
    rw [if_pos (beq_iff_eq.1 hname)]
  · rename_i hname
    have hne : name ≠ d.written path := beq_eq_false_iff_ne.1 hname
    rw [if_neg hne, lookup_filter_ne hne, fileAt?]

theorem grown_write (path : String) (file : DiskFile) : Grown d (d.write path file) where
  workDirectory := rfl
  directories name hname := by
    rw [isDirectoryAt, Bool.or_eq_true] at hname ⊢
    refine hname.imp id fun hmem => ?_
    rw [List.contains_iff_mem] at hmem ⊢
    exact List.mem_append_left _ hmem
  files name hname := by
    rw [fileAt?_write]
    split
    · rfl
    · exact hname

/-- Where a path can be followed, it leads to the same place later. -/
theorem Grown.followAll (h : Grown d d') {parts : List PathPart} {start name : DiskName}
    (hname : d.followAll start parts = some name) : d'.followAll start parts = some name := by
  induction parts generalizing start with
  | nil => exact hname
  | cons part parts ih =>
    rw [Disk.followAll] at hname ⊢
    split at hname
    · rename_i hdirectory
      rw [if_pos (h.directories start hdirectory)]
      exact ih hname
    · cases hname

theorem Grown.target? (h : Grown d d') {path : String} {name : DiskName}
    (hname : d.target? path = some name) : d'.target? path = some name := by
  rw [Disk.target?] at hname ⊢
  split at hname
  · cases hname
  · rename_i hpath
    rw [if_neg hpath]
    split at hname
    · rename_i habsolute
      rw [if_pos habsolute]
      exact h.followAll hname
    · rename_i hrelative
      rw [if_neg hrelative, h.workDirectory]
      exact h.followAll hname

/-- What a path stands for is still there later. -/
theorem Grown.locate? (h : Grown d d') {path : String} {name : DiskName}
    (hname : d.locate? path = some name) : d'.locate? path = some name := by
  rw [Disk.locate?, Option.filter_eq_some_iff] at hname ⊢
  obtain ⟨htarget, hthere⟩ := hname
  refine ⟨h.target? htarget, ?_⟩
  simp only [Bool.or_eq_true, Bool.and_eq_true] at hthere ⊢
  exact hthere.imp (h.directories name) fun hfile => ⟨h.files name hfile.1, hfile.2⟩

/-- The name of a file that can be read, and the file. -/
theorem read_eq_ok_iff {path text : String} : d.read path = .ok text ↔
    ∃ name file, d.locate? path = some name ∧ d.fileAt? name = some file ∧
      file.text = some text := by
  rw [read]
  constructor
  · intro hread
    cases hlocate : d.locate? path with
    | none =>
      rw [hlocate] at hread
      cases hread
    | some name =>
      rw [hlocate] at hread
      cases hfile : d.fileAt? name with
      | none =>
        simp only [hfile] at hread
        cases hread
      | some file =>
        simp only [hfile] at hread
        cases htext : file.text with
        | none =>
          rw [htext] at hread
          cases hread
        | some t =>
          rw [htext] at hread
          obtain rfl := Except.ok.inj hread
          exact ⟨name, file, rfl, hfile, htext⟩
  · rintro ⟨name, file, hlocate, hfile, htext⟩
    simp only [hlocate, hfile, htext]

/-- A text that was read can be read again if its file is still the same. -/
theorem Grown.read (h : Grown d d') {path text : String}
    (hsame : ∀ name, d'.locate? path = some name → d'.fileAt? name = d.fileAt? name)
    (hread : d.read path = .ok text) : d'.read path = .ok text := by
  obtain ⟨name, file, hlocate, hfile, htext⟩ := read_eq_ok_iff.1 hread
  have hlocate' := h.locate? hlocate
  exact read_eq_ok_iff.2 ⟨name, file, hlocate', (hsame name hlocate').trans hfile, htext⟩

end Disk

/-! ### Workspaces and what happens to them -/

/-- A disk, and an index of it. -/
structure Workspace where
  disk : Disk
  vault : Vault

/-- Something that happens to a workspace. -/
inductive Event
  /-- A text is indexed under a path. -/
  | index (path source : String) (x : Circumstances)
  /-- The project below some roots is indexed; some texts may be supplied. -/
  | run (overrides : Table String) (roots : List String) (x : Circumstances)
  /-- A file is written. -/
  | write (path : String) (file : DiskFile)

/-- How a path was indexed. -/
structure Indexing where
  source : String
  time : Nat
  /-- Whether the text was read from the disk. -/
  fromDisk : Bool
  /-- The disk at that time. -/
  disk : Disk

namespace Event

/-- When an event indexes a path.  For a path that a run does not meet, the time means nothing. -/
def time? (path : String) : Event → Option Nat
  | .index _ _ x | .run _ _ x => some (x.time path)
  | .write .. => none

/-- What becomes of the index. -/
def vaultAfter (c : Config) (w : Workspace) : Event → Vault
  | .index path source x =>
      Vault.after (indexReading c.maxDepth path (x.read? path source) (x.time path)) w.vault
  | .run overrides roots x => Vault.after (indexProject c w.disk overrides x roots) w.vault
  | .write .. => w.vault

/-- What becomes of the disk. -/
def diskAfter (d : Disk) : Event → Disk
  | .write path file => d.write path file
  | _ => d

/-- What a run reports. -/
def report? (c : Config) (w : Workspace) : Event → Option ProjectReport
  | .run overrides roots x =>
      match indexProject c w.disk overrides x roots w.vault with
      | .ok report _ => some report
      | .error _ _ => none
  | _ => none

/-- Whether a run reports a path as skipped. -/
def skips (c : Config) (w : Workspace) (path : String) (e : Event) : Bool :=
  (e.report? c w).any (·.skipped.contains path)

/-- How an event indexes a path, if it does. -/
def indexing? (c : Config) (w : Workspace) (path : String) (e : Event) : Option Indexing :=
  match e with
  | .index other source x =>
      if other = path ∧ x.breaksOff source = false then
        some ⟨source, x.time path, false, w.disk⟩
      else none
  | .run overrides _ x =>
      if (e.report? c w).any (·.indexed.contains path) then
        match overrides.get? path with
        | some source => some ⟨source, x.time path, false, w.disk⟩
        | none =>
            (w.disk.read path).toOption.map fun source => ⟨source, x.time path, true, w.disk⟩
      else none
  | .write .. => none

/-- Whether the reader breaks off on the text that an event was to index under a path. -/
def breaksOff (c : Config) (w : Workspace) (path : String) : Event → Bool
  | .index other source x => other = path && x.breaksOff source
  | .run overrides roots x =>
      (c.projectPaths w.disk overrides roots).contains path &&
        (w.vault.store.tables.textFor? w.disk overrides path).any x.breaksOff
  | .write .. => false

/-- What an event makes of a path that it indexes: how the path is indexed, or nothing if the reader
breaks off. -/
def meeting? (c : Config) (w : Workspace) (path : String) (e : Event) : Option (Option Indexing) :=
  if e.breaksOff c w path then some none else (e.indexing? c w path).map some

end Event

namespace Workspace

/-- What an event does to a workspace. -/
def next (c : Config) (w : Workspace) (e : Event) : Workspace :=
  ⟨e.diskAfter w.disk, e.vaultAfter c w⟩

/-- What a sequence of events does to a workspace. -/
def after (c : Config) (w : Workspace) (events : List Event) : Workspace :=
  events.foldl (next c) w

/-- What the last event that indexed a path made of it. -/
def lastMeeting? (c : Config) (path : String) : Workspace → List Event → Option (Option Indexing)
  | _, [] => none
  | w, e :: events => (lastMeeting? c path (w.next c e) events).or (e.meeting? c w path)

/-- How a path was last indexed in a sequence of events, if the reader has not broken off since. -/
def lastIndexing? (c : Config) (path : String) (w : Workspace) (events : List Event) :
    Option Indexing :=
  (w.lastMeeting? c path events).join

end Workspace

/-- Files are stamped with times later than all indexing before they are written. -/
def Stamped (events : List Event) : Prop :=
  events.Pairwise fun earlier later =>
    ∀ indexed, ∀ time ∈ earlier.time? indexed, ∀ path file,
      later = .write path file → time < file.modified

/-! ### One event -/

namespace Event

variable {c : Config} {w : Workspace} {path : String}

theorem grown_diskAfter (d : Disk) (e : Event) : d.Grown (e.diskAfter d) := by
  cases e with
  | write path file => exact Disk.grown_write path file
  | _ => exact Disk.grown_refl

/-- A file that is there after an event was there before it, or was written. -/
theorem fileAt?_diskAfter {d : Disk} {e : Event} {name : DiskName} {file : DiskFile}
    (h : (e.diskAfter d).fileAt? name = some file) :
    d.fileAt? name = some file ∨ ∃ path, e = .write path file := by
  cases e with
  | write path other =>
    rw [diskAfter, Disk.fileAt?_write] at h
    split at h
    · obtain rfl := Option.some.inj h
      exact .inr ⟨path, rfl⟩
    · exact .inl h
  | _ => exact .inl h

/-- Where nothing fails, a run reports what is settled before it. -/
theorem report?_run (h : w.vault.Calm) (overrides : Table String) (roots : List String)
    (x : Circumstances) :
    (run overrides roots x).report? c w =
      some ⟨(c.projectPaths w.disk overrides roots).map fun path =>
        (path, w.vault.store.tables.outcome w.disk overrides x path)⟩ := by
  obtain ⟨report, v, hrun, -, rfl, -⟩ :=
    (h.indexProject_ends c w.disk overrides x roots).exists_ok
  rw [report?, hrun]

theorem mem_report_run (h : w.vault.Calm) {overrides : Table String} {roots : List String}
    {x : Circumstances} :
    ((run overrides roots x).report? c w).any (·.indexed.contains path) = true ↔
      path ∈ c.projectPaths w.disk overrides roots ∧
        ∃ source, w.vault.store.tables.textFor? w.disk overrides path = some source ∧
          x.breaksOff source = false := by
  rw [report?_run h, Option.any_some, List.contains_iff_mem, ProjectReport.mem_indexed_iff,
    Tables.outcome_eq_indexed_iff]

/-- Where nothing fails, a run makes of a path that it meets what its text tells. -/
theorem meeting?_run (h : w.vault.Calm) {overrides : Table String} {roots : List String}
    {x : Circumstances} :
    (run overrides roots x).meeting? c w path =
      if path ∈ c.projectPaths w.disk overrides roots then
        (w.vault.store.tables.textFor? w.disk overrides path).map fun source =>
          if x.breaksOff source then none
          else some ⟨source, x.time path, (overrides.get? path).isNone, w.disk⟩
      else none := by
  rw [meeting?, breaksOff, indexing?]
  by_cases hpath : path ∈ c.projectPaths w.disk overrides roots
  · rw [if_pos hpath, List.contains_iff_mem.2 hpath, Bool.true_and]
    cases htext : w.vault.store.tables.textFor? w.disk overrides path with
    | none =>
      have hnot : ¬ ((run overrides roots x).report? c w).any (·.indexed.contains path) = true := by
        intro hreported
        obtain ⟨-, source, hsource, -⟩ := (mem_report_run h).1 hreported
        rw [htext] at hsource
        cases hsource
      rw [if_neg hnot]
      rfl
    | some source =>
      rw [Option.any_some, Option.map_some]
      cases hbreaks : x.breaksOff source with
      | true => rfl
      | false =>
        rw [if_pos ((mem_report_run h).2 ⟨hpath, source, htext, hbreaks⟩)]
        -- the text is supplied, or it was read
        rw [Tables.textFor?] at htext
        cases hoverride : overrides.get? path with
        | some supplied =>
          rw [hoverride] at htext
          obtain rfl := Option.some.inj htext
          rfl
        | none =>
          simp only [hoverride] at htext
          split at htext
          · cases htext
          · rw [htext]
            rfl
  · have hmissing : (c.projectPaths w.disk overrides roots).contains path = false :=
      Bool.eq_false_iff.2 fun hmem => hpath (List.contains_iff_mem.1 hmem)
    rw [if_neg hpath, hmissing, if_neg fun hreported => hpath ((mem_report_run h).1 hreported).1]
    rfl

/-- An event changes the record of a path exactly if it indexes the path. -/
theorem indexedAt?_vaultAfter (h : w.vault.Calm) (e : Event) (path : String) :
    (e.vaultAfter c w).Calm ∧
    (e.vaultAfter c w).store.tables.indexedAt? path =
      ((e.meeting? c w path).map (·.map (·.time))).getD
        (w.vault.store.tables.indexedAt? path) := by
  cases e with
  | write other file => exact ⟨h, rfl⟩
  | index other source x =>
    obtain ⟨r, v, hm, hcalm, hread, hunread⟩ :=
      (h.indexReading_ends c.maxDepth other (x.read? other source) (x.time other)).exists_ok
    have hv : vaultAfter c w (.index other source x) = v := by
      rw [vaultAfter, Vault.after, hm]
    rw [hv, meeting?, breaksOff, indexing?]
    refine ⟨hcalm, ?_⟩
    cases hbreaks : x.breaksOff source with
    | true =>
      obtain ⟨-, htables⟩ := hunread (if_pos hbreaks)
      rw [htables, Tables.indexedAt?_deleteFile]
      by_cases hpath : path = other
      · simp [hpath]
      · have hne : other ≠ path := fun heq => hpath heq.symm
        simp [hpath, hne]
    | false =>
      obtain ⟨-, htables⟩ := hread _ (if_neg (ne_true_of_eq_false hbreaks))
      rw [htables, Tables.indexedAt?_withDocument]
      by_cases hpath : path = other
      · simp [hpath, Document.ofSource, Document.ofText]
      · have hne : other ≠ path := fun heq => hpath heq.symm
        simp [hpath, hne, Document.ofSource, Document.ofText]
  | run overrides roots x =>
    obtain ⟨report, v, hm, hcalm, -, hrecords⟩ :=
      (h.indexProject_ends c w.disk overrides x roots).exists_ok
    have hv : vaultAfter c w (.run overrides roots x) = v := by
      rw [vaultAfter, Vault.after, hm]
    rw [hv, hrecords, meeting?_run h]
    refine ⟨hcalm, ?_⟩
    by_cases hpath : path ∈ c.projectPaths w.disk overrides roots
    · rw [if_pos hpath, if_pos hpath, Tables.stamp?]
      cases w.vault.store.tables.textFor? w.disk overrides path with
      | none => rfl
      | some source =>
        simp only [Circumstances.stamp?, Option.map_some, Option.getD_some]
        cases x.breaksOff source <;> rfl
    · rw [if_neg hpath, if_neg hpath]
      rfl

/-- What an event indexes from the disk is the text on the disk. -/
theorem read_of_indexing? {e : Event} {i : Indexing} (h : e.indexing? c w path = some i) :
    e.time? path = some i.time ∧ i.disk = w.disk ∧
      (i.fromDisk = true → w.disk.read path = .ok i.source) := by
  cases e with
  | write other file => cases h
  | index other source x =>
    rw [indexing?] at h
    split at h
    · obtain rfl := Option.some.inj h
      exact ⟨rfl, rfl, nofun⟩
    · cases h
  | run overrides roots x =>
    rw [indexing?] at h
    split at h
    · cases hoverride : overrides.get? path with
      | some source =>
        rw [hoverride] at h
        obtain rfl := Option.some.inj h
        exact ⟨rfl, rfl, nofun⟩
      | none =>
        rw [hoverride] at h
        cases hread : w.disk.read path with
        | error e =>
          rw [hread] at h
          cases h
        | ok source =>
          rw [hread] at h
          obtain rfl := Option.some.inj h
          exact ⟨rfl, rfl, fun _ => rfl⟩
    · cases h

theorem indexing?_of_meeting? {e : Event} {i : Indexing}
    (h : e.meeting? c w path = some (some i)) : e.indexing? c w path = some i := by
  rw [meeting?] at h
  split at h
  · cases h
  · obtain ⟨j, hj, hsome⟩ := Option.map_eq_some_iff.1 h
    rwa [← Option.some.inj hsome]

/-- A run skips the paths that it meets without a supplied text, if the record is as recent as the
file. -/
theorem skips_run_iff (h : w.vault.Calm) {overrides : Table String} {roots : List String}
    {x : Circumstances} :
    (run overrides roots x).skips c w path = true ↔
      path ∈ c.projectPaths w.disk overrides roots ∧ overrides.get? path = none ∧
        w.vault.store.tables.isFresh w.disk path = true := by
  rw [skips, report?_run h, Option.any_some, List.contains_iff_mem,
    ProjectReport.mem_skipped_iff, Tables.outcome_eq_skipped_iff]

end Event

/-! ### Sequences of events -/

namespace Workspace

variable {c : Config} {w : Workspace} {path : String}

theorem grown_after (c : Config) (w : Workspace) (events : List Event) :
    w.disk.Grown (w.after c events).disk := by
  induction events generalizing w with
  | nil => exact Disk.grown_refl
  | cons e events ih => exact (e.grown_diskAfter w.disk).trans (ih (w.next c e))

/-- A file that is there after events was there before them, or was written in one of them. -/
theorem fileAt?_after {events : List Event} {name : DiskName} {file : DiskFile}
    (h : (w.after c events).disk.fileAt? name = some file) :
    w.disk.fileAt? name = some file ∨ ∃ path, Event.write path file ∈ events := by
  induction events generalizing w with
  | nil => exact .inl h
  | cons e events ih =>
    rcases ih h with hbefore | ⟨path, hmem⟩
    · rcases Event.fileAt?_diskAfter hbefore with hfirst | ⟨path, rfl⟩
      · exact .inl hfirst
      · exact .inr ⟨path, List.mem_cons_self⟩
    · exact .inr ⟨path, List.mem_cons_of_mem _ hmem⟩

/-- A record tells when the path was last indexed. -/
theorem indexedAt?_after (h : w.vault.Calm) (events : List Event) (path : String) :
    (w.after c events).vault.Calm ∧
    (w.after c events).vault.store.tables.indexedAt? path =
      ((w.lastMeeting? c path events).map (·.map (·.time))).getD
        (w.vault.store.tables.indexedAt? path) := by
  induction events generalizing w with
  | nil => exact ⟨h, rfl⟩
  | cons e events ih =>
    obtain ⟨hcalm, hrecord⟩ := e.indexedAt?_vaultAfter (c := c) h path
    have hcalm : (w.next c e).vault.Calm := hcalm
    have hrecord : (w.next c e).vault.store.tables.indexedAt? path =
        ((e.meeting? c w path).map (·.map (·.time))).getD
          (w.vault.store.tables.indexedAt? path) := hrecord
    obtain ⟨hcalm', hrecord'⟩ := ih hcalm
    refine ⟨hcalm', hrecord'.trans ?_⟩
    rw [hrecord, lastMeeting?, Option.map_or, Option.getD_or]

/-- What was last indexed under a path was indexed in one of the events; no file that is as old as
that has been written since. -/
theorem unchanged_since {events : List Event} (hstamped : Stamped events) {last : Indexing}
    (hlast : w.lastIndexing? c path events = some last) :
    last.disk.Grown (w.after c events).disk ∧
    (last.fromDisk = true → last.disk.read path = .ok last.source) ∧
    ∀ name file, (w.after c events).disk.fileAt? name = some file → file.modified ≤ last.time →
      last.disk.fileAt? name = some file := by
  have hlast := Option.join_eq_some_iff.1 hlast
  induction events generalizing w with
  | nil => cases hlast
  | cons e events ih =>
    obtain ⟨hstamps, hstamped⟩ := List.pairwise_cons.1 hstamped
    rcases Option.or_eq_some_iff.1 hlast with hlater | ⟨-, hfirst⟩
    · exact ih hstamped (Option.join_eq_some_iff.2 hlater) hlater
    · obtain ⟨htime, hdisk, hread⟩ :=
        Event.read_of_indexing? (Event.indexing?_of_meeting? hfirst)
      refine ⟨?_, hdisk ▸ hread, fun name file hfile hold => ?_⟩
      · rw [hdisk]
        exact grown_after c w (e :: events)
      · have hfile : ((w.next c e).after c events).disk.fileAt? name = some file := hfile
        rcases fileAt?_after hfile with hbefore | ⟨other, hmem⟩
        · -- an event that indexes leaves the disk alone
          rcases Event.fileAt?_diskAfter hbefore with hsame | ⟨other, rfl⟩
          · rw [hdisk, hsame]
          · cases htime
        · exact absurd (hstamps _ hmem path _ htime other file rfl) (Nat.not_lt.2 hold)

end Workspace

/-- A record that is as recent as the file tells that the file has not changed since the path was
last indexed. -/
theorem Workspace.unchanged_of_fresh {c : Config} {w : Workspace} {path : String}
    {events : List Event} (hstamped : Stamped events) {last : Indexing}
    (hlast : w.lastIndexing? c path events = some last)
    (hold : ((w.after c events).disk.modified? path).getD 0 ≤ last.time) {name : DiskName}
    (hlocate : (w.after c events).disk.locate? path = some name) :
    (w.after c events).disk.fileAt? name = last.disk.fileAt? name := by
  obtain ⟨hgrown, -, hsame⟩ := unchanged_since hstamped hlast
  cases hfile : (w.after c events).disk.fileAt? name with
  | some file =>
    refine (hsame name file hfile ?_).symm
    rwa [Disk.modified?, Disk.file?, hlocate, Option.bind_some, hfile] at hold
  | none =>
    -- files are never removed, so there was none before
    refine (Option.not_isSome_iff_eq_none.1 fun hsome => ?_).symm
    have hthere := hgrown.files name hsome
    rw [hfile] at hthere
    cases hthere

/-- In a workspace whose index starts empty and in which nothing fails, a run skips exactly the
paths that it meets without a supplied text and that were indexed since the stamp of their files.
Such a file has not changed since the path was last indexed.  If the text that was indexed then was
the text of the file, as it is when a run read it, it still is. -/
theorem skipped_unchanged (c : Config) (w : Workspace) (hfaultless : w.vault.Faultless)
    (hempty : w.vault.store = Store.empty) (events : List Event) (hstamped : Stamped events)
    (overrides : Table String) (roots : List String) (x : Circumstances) (path : String) :
    let now := w.after c events
    ((Event.run overrides roots x).skips c now path = true ↔
      path ∈ c.projectPaths now.disk overrides roots ∧ overrides.get? path = none ∧
      ∃ last, w.lastIndexing? c path events = some last ∧
        (now.disk.modified? path).getD 0 ≤ last.time) ∧
    ((Event.run overrides roots x).skips c now path = true →
      ∃ last, w.lastIndexing? c path events = some last ∧
        (∀ name, now.disk.locate? path = some name →
          now.disk.fileAt? name = last.disk.fileAt? name) ∧
        (last.fromDisk = true ∨ last.disk.read path = .ok last.source →
          now.disk.read path = .ok last.source)) := by
  intro now
  have hcalm : w.vault.Calm := calm_of_empty hfaultless hempty
  obtain ⟨hcalm', hrecord⟩ := Workspace.indexedAt?_after (c := c) hcalm events path
  have hnone : w.vault.store.tables.indexedAt? path = none := by
    rw [hempty]
    rfl
  have hskips : (Event.run overrides roots x).skips c now path = true ↔
      path ∈ c.projectPaths now.disk overrides roots ∧ overrides.get? path = none ∧
      ∃ last, w.lastIndexing? c path events = some last ∧
        (now.disk.modified? path).getD 0 ≤ last.time := by
    have hlast : now.vault.store.tables.indexedAt? path =
        (w.lastIndexing? c path events).map (·.time) := by
      rw [hrecord, hnone, Workspace.lastIndexing?]
      cases w.lastMeeting? c path events <;> rfl
    rw [Event.skips_run_iff hcalm', Tables.isFresh_iff, hlast]
    simp only [Option.map_eq_some_iff, exists_exists_and_eq_and]
    rfl
  refine ⟨hskips, fun hskipped => ?_⟩
  obtain ⟨-, -, last, hlast, hold⟩ := hskips.1 hskipped
  obtain ⟨hgrown, hread, -⟩ := Workspace.unchanged_since hstamped hlast
  have hunchanged : ∀ name, now.disk.locate? path = some name →
      now.disk.fileAt? name = last.disk.fileAt? name := fun _ hlocate =>
    Workspace.unchanged_of_fresh hstamped hlast hold hlocate
  refine ⟨last, hlast, hunchanged, fun hsource => hgrown.read hunchanged ?_⟩
  exact hsource.elim hread id

/-- A project with one file, of which nothing is indexed. -/
def smallProject : Workspace where
  disk := { files := [(["p", "a.php"], ⟨some "<?php class A {}", 5⟩)], directories := [["p"]] }
  vault := Vault.empty

/-- The project is indexed.  Then the reader breaks off on a text of its file, the file is written,
and the project is indexed again. -/
def rewritten : List Event :=
  [.run .empty ["/p"] (.steady 10),
    .index "/p/a.php" "<?php class" ⟨fun _ => 12, fun _ => true⟩,
    .write "/p/a.php" ⟨some "<?php class C {}", 15⟩, .run .empty ["/p"] (.steady 20)]

/-- The next run skips the file, and the text that was indexed last is the one on the disk. -/
theorem skipped_unchanged_rewritten :
    smallProject.vault.Faultless ∧ smallProject.vault.store = Store.empty ∧ Stamped rewritten ∧
    (Event.run .empty ["/p"] (.steady 30)).skips {} (smallProject.after {} rewritten)
      "/p/a.php" = true ∧
    ∃ last, smallProject.lastIndexing? {} "/p/a.php" rewritten = some last ∧
      last.fromDisk = true ∧
      (smallProject.after {} rewritten).disk.read "/p/a.php" = .ok last.source := by
  have hfaultless : smallProject.vault.Faultless := fun _ _ => rfl
  have hstamped : Stamped rewritten := by
    simp [Stamped, rewritten, Event.time?, Circumstances.steady]
  have hskips : (Event.run .empty ["/p"] (.steady 30)).skips {} (smallProject.after {} rewritten)
      "/p/a.php" = true := by decide +kernel
  obtain ⟨last, hlast, -, hread⟩ := (skipped_unchanged {} smallProject hfaultless rfl rewritten
    hstamped .empty ["/p"] (.steady 30) "/p/a.php").2 hskips
  have hdisk : (smallProject.lastIndexing? {} "/p/a.php" rewritten).all (·.fromDisk) = true := by
    decide +kernel
  rw [hlast, Option.all_some] at hdisk
  exact ⟨hfaultless, rfl, hstamped, hskips, last, hlast, hdisk, hread (.inl hdisk)⟩

/-- The project is indexed with an edited text of its file. -/
def edited : List Event :=
  [.run (Table.empty.insert "/p/a.php" "<?php class B {}") ["/p"] (.steady 10)]

/-- A text that is indexed under a path that is skipped need not be the text of the file. -/
theorem not_forall_skipped_read :
    ¬ ∀ (c : Config) (w : Workspace), w.vault.Faultless → w.vault.store = Store.empty →
      ∀ events, Stamped events → ∀ (e : Event) (path : String),
        e.skips c (w.after c events) path = true →
        ∃ last, w.lastIndexing? c path events = some last ∧
          (w.after c events).disk.read path = .ok last.source := by
  intro h
  obtain ⟨last, hlast, hread⟩ := h {} smallProject (fun _ _ => rfl) rfl edited
    (List.pairwise_singleton _ _) (.run .empty ["/p"] (.steady 20)) "/p/a.php" (by decide +kernel)
  have hsource : (smallProject.lastIndexing? {} "/p/a.php" edited).all
      (·.source == "<?php class B {}") = true := by decide +kernel
  rw [hlast, Option.all_some, beq_iff_eq] at hsource
  rw [hsource] at hread
  have hdisk : (smallProject.after {} edited).disk.read "/p/a.php" = .ok "<?php class A {}" := by
    decide +kernel
  rw [hdisk] at hread
  exact absurd (Except.ok.inj hread) (by decide)

end PhpAtlas
