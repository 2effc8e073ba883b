import TemplLayout.Command.Run
import TemplLayout.Proofs.Workspace.Settled

/-!
# TemplLayout.Proofs.Workspace.Run

Files formatted one after another.

* `Turn mode f path s s' r`   — what the turn of the file `f` does to a run: everything that comes of
  it depends on `f` alone.
* `Run mode s files s' rs`    — one turn after the other.

Formatting files is such a run (`run_formatFiles`). Writing settles the files (`Run.workspace_write`)
and counts as changed as many as there are stale files less (`Run.changed_add`). Unless a file is
written twice, each fares as it would alone (`Run.results`).
-/

namespace TemplLayout

/-- A warning that speaks of a file and not of its markup. -/
def Event.warnsOfFile (e : Event) : Bool :=
  e.level = .warn && e.target = "templfmt"

/-- What is printed of a file. -/
def File.shown (f : File) (path : Path) : List String :=
  f.formatted?.toList.flatMap fun output => [heading path ++ "\n", output.string]

def Workspace.shownAt (w : Workspace) (path : Path) : List String :=
  (w.fileAt path).toList.flatMap (·.shown path)

structure Turn (mode : Mode) (f : File) (path : Path) (s s' : Progress) (r : FileResult) :
    Prop where
  named : r.path = path
  failed : r.isFailed = f.isBroken
  changed : r.isChanged = f.isStale
  workspace : s'.workspace = if mode = .write then s.workspace.settle [f.place] else s.workspace
  printed : s'.printed = s.printed ++ if mode = .print then f.shown path else []
  events : ∃ es, s'.events = s.events ++ es ∧ ∀ e ∈ es, e.warnsOfFile = false

theorem warnsOfFile_readingEvents (source : Text) :
    ∀ e ∈ readingEvents source, e.warnsOfFile = false := by
  intro e he
  rw [readingEvents, List.mem_append, List.mem_map] at he
  rcases he with ⟨w, -, rfl⟩ | he
  · rfl
  · split at he
    · rw [List.mem_singleton.1 he]
      rfl
    · cases he

namespace Workspace

variable {w : Workspace} {f : File} {path : Path}

/-- Settling one file is giving it its text. -/
theorem settle_singleton (hw : w.WellFormed) (hf : f ∈ w.files) {output : Text}
    (h : f.formatted? = some output) : w.settle [f.place] = w.store f.place output.utf8 := by
  have hfiles : ∀ g ∈ w.files, g.settledIn [f.place] =
      if g.place = f.place then { g with bytes := output.utf8 } else g := by
    intro g hg
    rw [File.settledIn]
    simp only [List.mem_singleton]
    split
    · obtain rfl := hw.eq_of_place hg hf ‹_›
      exact File.settled_of_some h
    · rfl
  rw [settle, store, List.map_congr_left hfiles]

theorem settle_singleton_of_settled (hw : w.WellFormed) (hf : f ∈ w.files) (h : f.settled = f) :
    w.settle [f.place] = w := by
  refine settle_of_settled fun g hg hplace => ?_
  rw [hw.eq_of_place hg hf (List.mem_singleton.1 hplace), h]

theorem read_eq (hw : w.WellFormed) (hf : f ∈ w.files) (hpath : w.locate path = .ok f.place) :
    w.read path =
      match Text.ofUtf8? f.bytes with
      | some t => .ok t
      | none => .error .notUtf8 := by
  have hfile : w.file? f.place = some f := (file?_eq_some_iff hw).2 ⟨hf, rfl⟩
  have hbytes : w.bytesOf path = .ok f.bytes := by
    rw [bytesOf, hpath]
    simp [bind, Except.bind, hfile]
  rw [read, hbytes]
  rfl

theorem write_eq (hpath : w.locate path = .ok f.place) (t : Text) :
    w.write path t = w.store f.place t.utf8 := by
  rw [write, hpath]

end Workspace

/-! ## One turn -/

variable {mode : Mode} {s s' : Progress} {f : File} {path : Path} {r : FileResult}

theorem turn_of_broken (hw : s.workspace.WellFormed) (hf : f ∈ s.workspace.files)
    (h : f.formatted? = none) {es : List Event} (hes : ∀ e ∈ es, e.warnsOfFile = false)
    (fault : FileFault) :
    Turn mode f path s { s with events := s.events ++ es } ⟨path, .error fault⟩ where
  named := rfl
  failed := by rw [File.isBroken, h]; rfl
  changed := by rw [File.isStale, h]; rfl
  workspace := by
    rw [Workspace.settle_singleton_of_settled hw hf (File.settled_of_none h), ite_self]
  printed := by
    rw [File.shown, h]
    simp
  events := ⟨es, rfl, hes⟩

theorem turn_of_formatted (mode : Mode) (hw : s.workspace.WellFormed)
    (hf : f ∈ s.workspace.files) (hpath : s.workspace.locate path = .ok f.place)
    {source output : Text} (hread : s.workspace.read path = .ok source)
    (hbytes : f.bytes = source.utf8) (hformat : format source = .ok output) :
    Turn mode f path s (formatFile mode s path).1 (formatFile mode s path).2 := by
  have hsome : f.formatted? = some output :=
    File.formatted?_eq_some_iff.2 ⟨source, hbytes, hformat⟩
  have hbroken : false = f.isBroken := by rw [File.isBroken, hsome]; rfl
  have hreading := warnsOfFile_readingEvents source
  simp only [formatFile, hread, hformat, ← File.isStale_eq hbytes hsome]
  cases mode with
  | print =>
    refine ⟨rfl, hbroken, rfl, rfl, ?_, readingEvents source, rfl, hreading⟩
    rw [File.shown, hsome]
    rfl
  | check =>
    exact ⟨rfl, hbroken, rfl, rfl, (List.append_nil _).symm, readingEvents source, rfl, hreading⟩
  | write =>
    cases hstale : f.isStale with
    | false =>
      have hsettle := Workspace.settle_singleton_of_settled hw hf (File.settled_of_not_isStale hstale)
      exact ⟨rfl, hbroken, hstale.symm, hsettle.symm, (List.append_nil _).symm,
        readingEvents source, rfl, hreading⟩
    | true =>
      have hsettle := Workspace.settle_singleton hw hf hsome
      rw [← Workspace.write_eq hpath] at hsettle
      have hevents := List.append_assoc s.events (readingEvents source) [.formatted path]
      refine ⟨rfl, hbroken, hstale.symm, hsettle.symm, (List.append_nil _).symm, _, hevents, ?_⟩
      exact List.forall_mem_append.2 ⟨hreading, List.forall_mem_singleton.2 rfl⟩

theorem turn_formatFile (mode : Mode) (hw : s.workspace.WellFormed) (hf : f ∈ s.workspace.files)
    (hpath : s.workspace.locate path = .ok f.place) :
    Turn mode f path s (formatFile mode s path).1 (formatFile mode s path).2 := by
  have hread := Workspace.read_eq hw hf hpath
  cases htext : Text.ofUtf8? f.bytes with
  | none =>
    have hnone : f.formatted? = none := by rw [File.formatted?, htext, Option.bind_none]
    rw [htext] at hread
    have hturn : Turn mode f path s { s with events := s.events ++ [] }
        ⟨path, .error (.unreadable .notUtf8)⟩ := turn_of_broken hw hf hnone (by simp) _
    rw [List.append_nil] at hturn
    rw [formatFile, hread]
    exact hturn
  | some source =>
    rw [htext] at hread
    cases hformat : format source with
    | error fault =>
      have hnone : f.formatted? = none := by
        rw [File.formatted?, htext, Option.bind_some, hformat]
        rfl
      simp only [formatFile, hread, hformat]
      exact turn_of_broken hw hf hnone (warnsOfFile_readingEvents source) (.malformed fault)
    | ok output =>
      exact turn_of_formatted mode hw hf hpath hread (Text.eq_utf8_of_ofUtf8? htext) hformat

/-! ## A whole run -/

/-- One turn after the other. -/
inductive Run (mode : Mode) : Progress → List Path → Progress → List FileResult → Prop where
  | done {s : Progress} : Run mode s [] s []
  | turn {s s₁ s' : Progress} {f : File} {path : Path} {files : List Path} {r : FileResult}
      {rs : List FileResult} : f ∈ s.workspace.files → s.workspace.locate path = .ok f.place →
      Turn mode f path s s₁ r → Run mode s₁ files s' rs → Run mode s (path :: files) s' (r :: rs)

variable {files : List Path} {rs : List FileResult}

theorem Turn.samePlaces (h : Turn mode f path s s' r) : s.workspace.SamePlaces s'.workspace := by
  rw [h.workspace]
  split
  · exact s.workspace.samePlaces_settle _
  · exact ⟨rfl, rfl, rfl⟩

theorem Turn.workspace_write (h : Turn .write f path s s' r) :
    s'.workspace = s.workspace.settle [f.place] :=
  h.workspace

theorem Turn.workspace_of_ne_write (h : Turn mode f path s s' r) (hmode : mode ≠ .write) :
    s'.workspace = s.workspace := by
  rw [h.workspace, if_neg hmode]

/-- A turn changes nothing for a file in another place. -/
theorem Turn.keeps (h : Turn mode f path s s' r) (hw : s.workspace.WellFormed) {g : File} {p : Path}
    (hg : g ∈ s.workspace.files) (hp : s.workspace.locate p = .ok g.place)
    (hother : mode = .write → f.place ≠ g.place) :
    s'.workspace.brokenAt p = s.workspace.brokenAt p ∧
      s'.workspace.staleAt p = s.workspace.staleAt p := by
  by_cases hmode : mode = .write
  · have hplace : g.place ∉ [f.place] := by
      rw [List.mem_singleton]
      exact (hother hmode).symm
    subst hmode
    rw [h.workspace_write]
    exact ⟨s.workspace.brokenAt_settle _ p, Workspace.staleAt_settle_of_not_mem hw hg hp hplace⟩
  · rw [h.workspace_of_ne_write hmode]
    exact ⟨rfl, rfl⟩

theorem run_formatFiles (mode : Mode) (hw : s.workspace.WellFormed)
    (h : s.workspace.Finds files) :
    Run mode s files (formatFiles mode s files).1 (formatFiles mode s files).2 := by
  induction files generalizing s with
  | nil => exact .done
  | cons path files ih =>
    obtain ⟨f, hf, hpath⟩ := h path (List.mem_cons_self ..)
    have hrest : s.workspace.Finds files := fun p hp => h p (List.mem_cons_of_mem _ hp)
    have hturn := turn_formatFile mode hw hf hpath
    have hsame := hturn.samePlaces
    exact .turn hf hpath hturn (ih (hw.congr hsame) (hrest.congr hsame))

namespace Run

variable (h : Run mode s files s' rs)
include h

theorem workspace_of_ne_write (hmode : mode ≠ .write) : s'.workspace = s.workspace := by
  induction h with
  | done => rfl
  | turn _ _ hturn _ ih => rw [ih, hturn.workspace_of_ne_write hmode]

theorem workspace_write (hmode : mode = .write) :
    s'.workspace = s.workspace.settle (s.workspace.placesOf files) := by
  subst hmode
  induction h with
  | done => exact (Workspace.settle_of_settled (by simp [Workspace.placesOf])).symm
  | @turn s _ _ f path files _ _ _ hpath hturn _ ih =>
    rw [ih, hturn.workspace_write, Workspace.placesOf_settle, Workspace.settle_settle,
      Workspace.placesOf_cons hpath, List.singleton_append]

/-- As many files fail as are broken at the start, those that are collected twice counted twice. -/
theorem failed (hw : s.workspace.WellFormed) :
    rs.map (·.isFailed) = files.map s.workspace.brokenAt := by
  induction h with
  | done => rfl
  | @turn s s₁ _ f path files r _ hf hpath hturn _ ih =>
    have hsame : s₁.workspace.brokenAt = s.workspace.brokenAt := by
      funext p
      rw [hturn.workspace]
      split
      · exact s.workspace.brokenAt_settle _ p
      · rfl
    have hbroken : s.workspace.brokenAt path = f.isBroken := by
      rw [Workspace.brokenAt, Workspace.fileAt_eq_some hw hf hpath]
      rfl
    rw [List.map_cons, List.map_cons, hturn.failed, hbroken, ih (hw.congr hturn.samePlaces), hsame]

theorem named : rs.map (·.path) = files := by
  induction h with
  | done => rfl
  | turn _ _ hturn _ ih => rw [List.map_cons, hturn.named, ih]

theorem finds : s.workspace.Finds files := by
  induction h with
  | done => simp [Workspace.Finds]
  | @turn s _ _ f path files _ _ hf hpath hturn _ ih =>
    rw [Workspace.Finds, List.forall_mem_cons]
    exact ⟨⟨f, hf, hpath⟩, ih.congr hturn.samePlaces.symm⟩

/-- Unless a file is written twice, each fares as it would alone. -/
theorem results (hw : s.workspace.WellFormed)
    (hmode : mode = .write → (s.workspace.placesOf files).Nodup) :
    rs.map (fun r => (r.path, r.isFailed, r.isChanged)) =
      files.map fun path => (path, s.workspace.brokenAt path, s.workspace.staleAt path) := by
  induction h with
  | done => rfl
  | @turn s s₁ _ f path files r _ hf hpath hturn hrun ih =>
    have hsame := hturn.samePlaces
    have hnodup : mode = .write → f.place ∉ s.workspace.placesOf files ∧
        (s.workspace.placesOf files).Nodup := by
      intro hm
      have hall := hmode hm
      rwa [Workspace.placesOf_cons hpath, List.nodup_cons] at hall
    have hrest : ∀ p ∈ files, s₁.workspace.brokenAt p = s.workspace.brokenAt p ∧
        s₁.workspace.staleAt p = s.workspace.staleAt p := by
      intro p hp
      obtain ⟨g, hg, hlocate⟩ := hrun.finds.congr hsame.symm p hp
      refine hturn.keeps hw hg hlocate fun hm hplace => (hnodup hm).1 ?_
      exact Workspace.mem_placesOf.2 ⟨p, hp, hplace ▸ hlocate⟩
    have hfile := Workspace.fileAt_eq_some hw hf hpath
    have hplaces := Workspace.placesOf_congr hsame files
    rw [List.map_cons, List.map_cons, ih (hw.congr hsame) (fun hm => hplaces ▸ (hnodup hm).2),
      hturn.named, hturn.failed, hturn.changed, Workspace.brokenAt, Workspace.staleAt, hfile]
    refine congrArg _ (List.map_congr_left fun p hp => ?_)
    rw [(hrest p hp).1, (hrest p hp).2]

/-- With each change there is one stale file less. -/
theorem changed_add (hw : s.workspace.WellFormed) (hmode : mode = .write) :
    s.workspace.files.countP (·.isStale) =
      rs.countP (·.isChanged) + s'.workspace.files.countP (·.isStale) := by
  subst hmode
  induction h with
  | done => exact (Nat.zero_add _).symm
  | @turn s s₁ _ f path files r rs hf hpath hturn hrun ih =>
    have hrest := ih (hw.congr hturn.samePlaces)
    rw [hturn.workspace_write] at hrest
    rw [List.countP_cons, hturn.changed, Nat.add_right_comm, ← hrest]
    exact Workspace.countP_isStale_settle hw hf

/-- Each file is printed, whatever becomes of the others. -/
theorem printed (hw : s.workspace.WellFormed) (hmode : mode = .print) :
    s'.printed = s.printed ++ files.flatMap s.workspace.shownAt := by
  subst hmode
  induction h with
  | done => exact (List.append_nil _).symm
  | @turn s s₁ _ f path files r rs hf hpath hturn hrun ih =>
    have hshown : s.workspace.shownAt path = f.shown path := by
      rw [Workspace.shownAt, Workspace.fileAt_eq_some hw hf hpath]
      exact List.append_nil _
    have hworkspace := hturn.workspace_of_ne_write (by decide)
    rw [ih (hw.congr hturn.samePlaces), hturn.printed, hworkspace, List.flatMap_cons, hshown,
      List.append_assoc, if_pos rfl]

theorem silent : ∀ e ∈ s'.events, e ∈ s.events ∨ e.warnsOfFile = false := by
  induction h with
  | done => exact fun e he => .inl he
  | turn _ _ hturn _ ih =>
    obtain ⟨es, hevents, hes⟩ := hturn.events
    intro e he
    rcases ih e he with he | he
    · rw [hevents, List.mem_append] at he
      exact he.imp_right (hes e)
    · exact .inr he

end Run

/-! ## What comes of it -/

variable {w : Workspace}

theorem run_formatRun (mode : Mode) (hw : w.WellFormed) (h : w.Finds files) :
    Run mode ⟨w, [], [.collected files.length]⟩ files (formatRun w mode files).1
      (formatRun w mode files).2 :=
  run_formatFiles mode hw h

theorem workspace_runOver_write (hw : w.WellFormed) (h : w.Finds files) :
    (runOver w .write files).workspace = w.settle (w.placesOf files) :=
  (run_formatRun .write hw h).workspace_write rfl

theorem workspace_runOver_of_ne_write (hw : w.WellFormed) (h : w.Finds files)
    (hmode : mode ≠ .write) : (runOver w mode files).workspace = w :=
  (run_formatRun mode hw h).workspace_of_ne_write hmode

theorem printed_runOver_print (hw : w.WellFormed) (h : w.Finds files) :
    (runOver w .print files).printed = files.flatMap w.shownAt :=
  (run_formatRun .print hw h).printed hw rfl

namespace Summary

theorem files_ofRun (mode : Mode) (hw : w.WellFormed) (h : w.Finds files) :
    (ofRun w mode files).files = files.length := by
  have hnamed := congrArg List.length (run_formatRun mode hw h).named
  rwa [List.length_map] at hnamed

theorem failed_ofRun (mode : Mode) (hw : w.WellFormed) (h : w.Finds files) :
    (ofRun w mode files).failed = files.countP w.brokenAt := by
  have hfailed := congrArg (List.countP id) ((run_formatRun mode hw h).failed hw)
  rwa [List.countP_map, List.countP_map] at hfailed

/-- The stale files there were are those that have been changed and those that are left. -/
theorem changed_ofRun_write (hw : w.WellFormed) (h : w.Finds files) :
    w.files.countP (·.isStale) = (ofRun w .write files).changed +
      (w.settle (w.placesOf files)).files.countP (·.isStale) := by
  have hrun := run_formatRun .write hw h
  rw [← hrun.workspace_write rfl]
  exact hrun.changed_add hw rfl

theorem changed_ofRun (hw : w.WellFormed) (h : w.Finds files)
    (hmode : mode = .write → (w.placesOf files).Nodup) :
    (ofRun w mode files).changed = files.countP w.staleAt := by
  have hresults := congrArg (List.countP (·.2.2)) ((run_formatRun mode hw h).results hw hmode)
  rwa [List.countP_map, List.countP_map] at hresults

end Summary

theorem Summary.isSome_failure? (mode : Mode) (t : Summary) :
    (t.failure? mode).isSome = true ↔ 0 < t.failed ∨ mode = .check ∧ 0 < t.changed := by
  rw [Summary.failure?]
  by_cases hfailed : 0 < t.failed
  · simp [hfailed]
  · by_cases hchanged : mode = .check ∧ 0 < t.changed
    · rw [if_neg hfailed, if_pos hchanged]
      exact ⟨fun _ => .inr hchanged, fun _ => rfl⟩
    · rw [if_neg hfailed, if_neg hchanged]
      simp [hfailed, hchanged]

theorem exitCode_runOver (w : Workspace) (mode : Mode) (files : List Path) :
    (runOver w mode files).exitCode =
      if 0 < (Summary.ofRun w mode files).failed ∨
        mode = .check ∧ 0 < (Summary.ofRun w mode files).changed then 1 else 0 := by
  have hfailure : (runOver w mode files).failure = (Summary.ofRun w mode files).failure? mode := rfl
  rw [Outcome.exitCode, hfailure]
  simp only [Summary.isSome_failure?]

theorem notFormatted_mem_events {path : Path} (r : FileResult) :
    .notFormatted path ∈ r.events .check ↔ r.path = path ∧ r.isChanged = true := by
  rw [FileResult.events, FileResult.isChanged]
  cases r.outcome with
  | error fault => cases fault <;> simp [Event.notFormatted, Event.failed]
  | ok changed =>
    have hname : Event.notFormatted path = .notFormatted r.path ↔ r.path = path := by
      constructor
      · intro hsame
        have hfields := congrArg Event.fields hsame
        simp only [Event.notFormatted, List.cons.injEq, Prod.mk.injEq, true_and, and_true] at hfields
        exact (String.ofList_injective hfields).symm
      · rintro rfl
        rfl
    cases changed <;> simp [hname]

theorem exists_changed_iff {path : Path} (hw : w.WellFormed) (h : w.Finds files) :
    (∃ r ∈ (formatRun w .check files).2, r.path = path ∧ r.isChanged = true) ↔
      path ∈ files ∧ w.staleAt path = true := by
  have hresults := (run_formatRun .check hw h).results hw (by simp)
  constructor
  · rintro ⟨r, hr, rfl, hchanged⟩
    have hmem := List.mem_map_of_mem (f := fun r => (r.path, r.isFailed, r.isChanged)) hr
    rw [hresults, List.mem_map] at hmem
    obtain ⟨p, hp, hfares⟩ := hmem
    simp only [Prod.mk.injEq] at hfares
    exact ⟨hfares.1 ▸ hp, by rw [← hfares.1, hfares.2.2, hchanged]⟩
  · rintro ⟨hp, hstale⟩
    have hmem := List.mem_map_of_mem (f := fun p => (p, w.brokenAt p, w.staleAt p)) hp
    rw [← hresults, List.mem_map] at hmem
    obtain ⟨r, hr, hfares⟩ := hmem
    simp only [Prod.mk.injEq] at hfares
    exact ⟨r, hr, hfares.1, hfares.2.2.trans hstale⟩

/-- The files that are reported as not formatted are the stale ones. While the files have their turn
there is no warning of that kind. -/
theorem notFormatted_mem_runOver {path : Path} (hw : w.WellFormed) (h : w.Finds files) :
    .notFormatted path ∈ (runOver w .check files).events ↔
      path ∈ files ∧ w.staleAt path = true := by
  have hevents : (runOver w .check files).events = (formatRun w .check files).1.events ++
      (formatRun w .check files).2.flatMap (·.events .check) ++
      [.finished (Summary.ofRun w .check files)] := rfl
  have hsilent : .notFormatted path ∉ (formatRun w .check files).1.events := by
    intro hmem
    rcases (run_formatRun .check hw h).silent _ hmem with hstart | hwarns
    · simp [Event.notFormatted, Event.collected] at hstart
    · cases hwarns
  have hfinished : .notFormatted path ≠ Event.finished (Summary.ofRun w .check files) := by
    simp [Event.notFormatted, Event.finished]
  rw [hevents, List.mem_append, List.mem_append, List.mem_singleton, or_iff_left hfinished,
    or_iff_right hsilent, List.mem_flatMap, ← exists_changed_iff hw h]
  exact exists_congr fun r => and_congr_right fun _ => notFormatted_mem_events r

end TemplLayout
