import TemplLayout.Proofs.Workspace.FixedPoint

/-!
# TemplLayout.Proofs.Workspace.Modes

What the modes have to do with each other.

* `modes_agree` — checking reports what writing changes, all modes count alike, and no file keeps
  another from its turn.
-/

namespace TemplLayout

open Workspace

variable {w : Workspace} {files : List Path}

/-! ## Without the files that fail -/

/-- The paths that lead to files that can be formatted. -/
def Workspace.formattable (w : Workspace) (files : List Path) : List Path :=
  files.filter fun path => !w.brokenAt path

theorem Workspace.Finds.formattable (h : w.Finds files) : w.Finds (w.formattable files) :=
  fun path hpath => h path (List.mem_of_mem_filter hpath)

theorem brokenAt_of_staleAt {path : Path} (h : w.staleAt path = true) :
    w.brokenAt path = false := by
  rw [staleAt] at h
  rw [brokenAt]
  cases hfile : w.fileAt path with
  | none => rfl
  | some f =>
    rw [hfile] at h
    exact File.isBroken_of_isStale h

theorem settle_formattable (hw : w.WellFormed) :
    w.settle (w.placesOf (w.formattable files)) = w.settle (w.placesOf files) := by
  refine settle_congr fun f hf hsettled => ?_
  have hbroken := File.isBroken_of_isStale (File.isStale_iff.2 hsettled)
  rw [mem_placesOf, mem_placesOf]
  constructor
  · rintro ⟨path, hpath, hlocate⟩
    exact ⟨path, List.mem_of_mem_filter hpath, hlocate⟩
  · rintro ⟨path, hpath, hlocate⟩
    refine ⟨path, List.mem_filter.2 ⟨hpath, ?_⟩, hlocate⟩
    rw [brokenAt, fileAt_eq_some hw hf hlocate, Option.any_some, hbroken]
    rfl

theorem countP_staleAt_formattable (w : Workspace) (files : List Path) :
    (w.formattable files).countP w.staleAt = files.countP w.staleAt := by
  rw [Workspace.formattable, List.countP_filter]
  refine List.countP_congr fun path _ => ?_
  rw [Bool.and_eq_true, and_iff_left_of_imp]
  intro hstale
  rw [brokenAt_of_staleAt hstale]
  rfl

theorem shownAt_of_brokenAt {path : Path} (h : w.brokenAt path = true) : w.shownAt path = [] := by
  rw [brokenAt] at h
  rw [shownAt]
  cases hfile : w.fileAt path with
  | none => rfl
  | some f =>
    rw [hfile, Option.any_some, File.isBroken, Option.isNone_iff_eq_none] at h
    rw [Option.toList_some, List.flatMap_singleton, File.shown, h]
    rfl

theorem flatMap_shownAt_formattable (w : Workspace) (files : List Path) :
    (w.formattable files).flatMap w.shownAt = files.flatMap w.shownAt := by
  induction files with
  | nil => rfl
  | cons path files ih =>
    rw [Workspace.formattable] at ih ⊢
    rw [List.flatMap_cons, ← ih]
    cases hbroken : w.brokenAt path with
    | true => rw [List.filter_cons_of_neg (by simp [hbroken]), shownAt_of_brokenAt hbroken]; rfl
    | false => rw [List.filter_cons_of_pos (by simp [hbroken]), List.flatMap_cons]

theorem workspace_formattable (mode : Mode) (hw : w.WellFormed) (h : w.Finds files) :
    (runOver w mode (w.formattable files)).workspace = (runOver w mode files).workspace := by
  by_cases hmode : mode = .write
  · subst hmode
    rw [workspace_runOver_write hw h.formattable, workspace_runOver_write hw h,
      settle_formattable hw]
  · rw [workspace_runOver_of_ne_write hw h.formattable hmode,
      workspace_runOver_of_ne_write hw h hmode]

theorem changed_formattable (mode : Mode) (hw : w.WellFormed) (h : w.Finds files) :
    (Summary.ofRun w mode (w.formattable files)).changed = (Summary.ofRun w mode files).changed := by
  by_cases hmode : mode = .write
  · subst hmode
    have hchanged := Summary.changed_ofRun_write hw h
    rw [Summary.changed_ofRun_write hw h.formattable, settle_formattable hw] at hchanged
    exact Nat.add_right_cancel hchanged
  · rw [Summary.changed_ofRun hw h.formattable (absurd · hmode),
      Summary.changed_ofRun hw h (absurd · hmode), countP_staleAt_formattable]

theorem printed_formattable (hw : w.WellFormed) (h : w.Finds files) :
    (runOver w .print (w.formattable files)).printed = (runOver w .print files).printed := by
  rw [printed_runOver_print hw h.formattable, printed_runOver_print hw h,
    flatMap_shownAt_formattable]

/-! ## All modes -/

theorem rewritten_iff_reported (hw : w.WellFormed) (h : w.Finds files) :
    ∀ f ∈ w.files, f ∉ (runOver w .write files).workspace.files ↔
      ∃ path, .notFormatted path ∈ (runOver w .check files).events ∧
        w.locate path = .ok f.place := by
  intro f hf
  have hstale : ∀ path, w.locate path = .ok f.place → w.staleAt path = f.isStale := by
    intro path hlocate
    rw [staleAt, fileAt_eq_some hw hf hlocate, Option.any_some]
  rw [workspace_runOver_write hw h, not_mem_settle_iff hw hf, mem_placesOf]
  simp only [notFormatted_mem_runOver hw h]
  constructor
  · rintro ⟨⟨path, hpath, hlocate⟩, hf⟩
    exact ⟨path, ⟨hpath, (hstale path hlocate).trans hf⟩, hlocate⟩
  · rintro ⟨path, ⟨hpath, hp⟩, hlocate⟩
    exact ⟨⟨path, hpath, hlocate⟩, (hstale path hlocate).symm.trans hp⟩

/-- What can be said of the runs in the three modes over the same files, and of the run `both` that is
asked to write and to check. -/
structure ModesAgree (w : Workspace) (files : List Path) (print write check both : Outcome) :
    Prop where
  kept_by_print : print.workspace = w
  kept_by_check : check.workspace = w
  /-- Checking reports the files that can be formatted and are not. -/
  reported : ∀ path, .notFormatted path ∈ check.events ↔ path ∈ files ∧ w.staleAt path = true
  /-- Writing gives other bytes to the files that checking reports. -/
  rewritten : ∀ f ∈ w.files, f ∉ write.workspace.files ↔
    ∃ path, .notFormatted path ∈ check.events ∧ w.locate path = .ok f.place
  counted_changed : (w.placesOf files).Nodup →
    ∀ mode, (Summary.ofRun w mode files).changed = files.countP w.staleAt
  counted_files : ∀ mode, (Summary.ofRun w mode files).files = files.length
  counted_failed : ∀ mode, (Summary.ofRun w mode files).failed = files.countP w.brokenAt
  /-- Without the files that fail the others fare no better. -/
  unhindered : ∀ mode,
    (runOver w mode (w.formattable files)).workspace = (runOver w mode files).workspace ∧
    (Summary.ofRun w mode (w.formattable files)).changed = (Summary.ofRun w mode files).changed
  unhindered_print : (runOver w .print (w.formattable files)).printed = print.printed
  exit_print : print.exitCode = if 0 < (Summary.ofRun w .print files).failed then 1 else 0
  exit_write : write.exitCode = if 0 < (Summary.ofRun w .write files).failed then 1 else 0
  exit_check : check.exitCode =
    if 0 < (Summary.ofRun w .check files).failed ∨ 0 < (Summary.ofRun w .check files).changed then 1
    else 0
  /-- Nothing is read and nothing is done. -/
  refused : both = ⟨w, [], [], some .contradictoryFlags⟩
  exit_both : both.exitCode = 1

theorem modes_agree (hw : w.WellFormed) (paths : List Path) :
    ModesAgree w (w.collectAll paths) ((Command.format paths false false).run w)
      ((Command.format paths true false).run w) ((Command.format paths false true).run w)
      ((Command.format paths true true).run w) := by
  have h : w.Finds (w.collectAll paths) := finds_collectAll hw paths
  exact
    { kept_by_print := workspace_runOver_of_ne_write hw h (by decide)
      kept_by_check := workspace_runOver_of_ne_write hw h (by decide)
      reported := fun path => notFormatted_mem_runOver hw h
      rewritten := rewritten_iff_reported hw h
      counted_changed := fun hnodup mode => Summary.changed_ofRun hw h fun _ => hnodup
      counted_files := fun mode => Summary.files_ofRun mode hw h
      counted_failed := fun mode => Summary.failed_ofRun mode hw h
      unhindered := fun mode => ⟨workspace_formattable mode hw h, changed_formattable mode hw h⟩
      unhindered_print := printed_formattable hw h
      exit_print := (exitCode_runOver w .print _).trans (by simp)
      exit_write := (exitCode_runOver w .write _).trans (by simp)
      exit_check := (exitCode_runOver w .check _).trans (by simp)
      refused := rfl
      exit_both := rfl }

/-- One file is reported and one fails. -/
theorem modes_agree_cluttered :
    let paths : List Path := [".".toList]
    let check := (Command.format paths false true).run cluttered
    cluttered.WellFormed ∧ (cluttered.placesOf (cluttered.collectAll paths)).Nodup ∧
    .notFormatted "./a.templ".toList ∈ check.events ∧
    (cluttered.collectAll paths).countP cluttered.brokenAt = 1 ∧
    ModesAgree cluttered (cluttered.collectAll paths)
      ((Command.format paths false false).run cluttered)
      ((Command.format paths true false).run cluttered) check
      ((Command.format paths true true).run cluttered) := by
  intro paths check
  have hw : cluttered.WellFormed := by decide
  have hnodup : (cluttered.placesOf (cluttered.collectAll paths)).Nodup := by decide +kernel
  have hfails : (cluttered.collectAll paths).countP cluttered.brokenAt = 1 := by decide +kernel
  have hagree := modes_agree hw paths
  have hreported := (hagree.reported "./a.templ".toList).2 ⟨by decide +kernel, by decide +kernel⟩
  exact ⟨hw, hnodup, hreported, hfails, hagree⟩

end TemplLayout
