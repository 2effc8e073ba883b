import TemplLayout.Proofs.Workspace.Run

/-!
# TemplLayout.Proofs.Workspace.FixedPoint

Writing what is formatted comes to rest after one run.

The files that are collected are settled and no others are touched, in whatever order they are taken,
and a second run finds nothing left to do (`write_settles`).
-/

namespace TemplLayout

open Workspace

variable {w : Workspace} {files files' : List Path}

/-! ## The order of files -/

theorem settle_placesOf_perm (w : Workspace) (h : files.Perm files') :
    w.settle (w.placesOf files) = w.settle (w.placesOf files') :=
  settle_congr fun _ _ _ => (w.placesOf_perm h).mem_iff

theorem ofRun_write_perm (hw : w.WellFormed) (h : w.Finds files') (hperm : files.Perm files') :
    Summary.ofRun w .write files = Summary.ofRun w .write files' := by
  have hfiles := h.perm hperm
  ext
  · rw [Summary.files_ofRun .write hw hfiles, Summary.files_ofRun .write hw h, hperm.length_eq]
  · have hchanged := Summary.changed_ofRun_write hw hfiles
    rw [settle_placesOf_perm w hperm, Summary.changed_ofRun_write hw h] at hchanged
    exact (Nat.add_right_cancel hchanged).symm
  · rw [Summary.failed_ofRun .write hw hfiles, Summary.failed_ofRun .write hw h,
      hperm.countP_eq w.brokenAt]

/-! ## A second run -/

section Again

variable (h : w.Finds files) (hperm : files'.Perm files)
include h hperm

theorem finds_again : (w.settle (w.placesOf files)).Finds files' :=
  (h.perm hperm).congr (w.samePlaces_settle _)

variable (hw : w.WellFormed)
include hw

theorem workspace_write_again :
    (runOver (w.settle (w.placesOf files)) .write files').workspace =
      w.settle (w.placesOf files) := by
  rw [workspace_runOver_write (hw.settle _) (finds_again h hperm), placesOf_settle, settle_settle]
  refine settle_congr fun f _ _ => ?_
  rw [List.mem_append, (w.placesOf_perm hperm).mem_iff]
  exact or_self_iff

theorem changed_write_again :
    (Summary.ofRun (w.settle (w.placesOf files)) .write files').changed = 0 := by
  have hafter := hw.settle (w.placesOf files)
  have hfinds := finds_again h hperm
  have hchanged := Summary.changed_ofRun_write hafter hfinds
  rw [← workspace_runOver_write hafter hfinds, workspace_write_again h hperm hw] at hchanged
  omega

theorem staleAt_again {path : Path} (hpath : path ∈ files') :
    (w.settle (w.placesOf files)).staleAt path = false :=
  staleAt_settle hw h (hperm.subset hpath) (List.Subset.refl _)

theorem changed_check_again :
    (Summary.ofRun (w.settle (w.placesOf files)) .check files').changed = 0 := by
  rw [Summary.changed_ofRun (hw.settle _) (finds_again h hperm) (by simp), List.countP_eq_zero]
  intro path hpath
  rw [staleAt_again h hperm hw hpath]
  exact Bool.false_ne_true

theorem failed_again (mode : Mode) :
    (Summary.ofRun (w.settle (w.placesOf files)) mode files').failed = files.countP w.brokenAt := by
  rw [Summary.failed_ofRun mode (hw.settle _) (finds_again h hperm),
    funext (w.brokenAt_settle _), hperm.countP_eq]

end Again

/-- A file that is collected and can be formatted holds what it is formatted to, every other file is
as it was, and neither that nor the counts depend on the order. A second run changes nothing, and
checking reports nothing but the files that cannot be formatted. -/
theorem write_settles (hw : w.WellFormed) {paths files : List Path}
    (hfiles : files.Perm (w.collectAll paths)) :
    let collected := w.collectAll paths
    let after := w.settle (w.placesOf collected)
    (runOver w .write files).workspace = after ∧
    Summary.ofRun w .write files = Summary.ofRun w .write collected ∧
    ∀ again : List Path, again.Perm (after.collectAll paths) →
      (runOver after .write again).workspace = after ∧
      (Summary.ofRun after .write again).changed = 0 ∧
      (∀ path, .notFormatted path ∉ (runOver after .check again).events) ∧
      ((runOver after .check again).exitCode = 0 ↔ (Summary.ofRun w .write files).failed = 0) := by
  intro collected after
  have hcollected : w.Finds collected := finds_collectAll hw paths
  have hfinds := hcollected.perm hfiles
  refine ⟨?_, ofRun_write_perm hw hcollected hfiles, fun again hagain => ?_⟩
  · rw [workspace_runOver_write hw hfinds, settle_placesOf_perm w hfiles]
  have hperm : again.Perm collected := by rwa [collectAll_settle] at hagain
  refine ⟨workspace_write_again hcollected hperm hw, changed_write_again hcollected hperm hw,
    fun path hreport => ?_, ?_⟩
  · obtain ⟨hpath, hstale⟩ :=
      (notFormatted_mem_runOver (hw.settle _) (finds_again hcollected hperm)).1 hreport
    rw [staleAt_again hcollected hperm hw hpath] at hstale
    cases hstale
  · rw [exitCode_runOver, changed_check_again hcollected hperm hw, failed_again hcollected hperm hw,
      Summary.failed_ofRun .write hw hfinds, hfiles.countP_eq]
    generalize collected.countP w.brokenAt = failed
    have hiff : 0 < failed ∨ Mode.check = .check ∧ 0 < 0 ↔ 0 < failed := by simp
    rw [if_congr hiff rfl rfl, ite_eq_right_iff]
    omega

/-- A template to be formatted, one that is no text, and a file that is no template. -/
def cluttered : Workspace where
  files := [⟨["r".toList, "a.templ".toList], Text.utf8 "\x7b% package p %\x7d".toList⟩,
    ⟨["r".toList, "sub".toList, "b.templ".toList], [0xff]⟩,
    ⟨["r".toList, "notes".toList], Text.utf8 "n".toList⟩]
  folders := []
  here := ["r".toList]

/-- The first template is collected twice, by two paths. -/
theorem write_settles_cluttered :
    let paths : List Path := [".".toList, "a.templ".toList]
    let files : List Path := ["a.templ".toList, "./sub/b.templ".toList, "./a.templ".toList]
    let after := cluttered.settle (cluttered.placesOf (cluttered.collectAll paths))
    cluttered.WellFormed ∧ files.Perm (cluttered.collectAll paths) ∧
    after.files.map (·.bytes) =
      [Text.utf8 "\x7b% package p %\x7d\n\n".toList, [0xff], Text.utf8 "n".toList] ∧
    Summary.ofRun cluttered .write files = ⟨3, 1, 1⟩ ∧
    (runOver cluttered .write files).workspace = after ∧
    Summary.ofRun cluttered .write files =
      Summary.ofRun cluttered .write (cluttered.collectAll paths) ∧
    ∀ again : List Path, again.Perm (after.collectAll paths) →
      (runOver after .write again).workspace = after ∧
      (Summary.ofRun after .write again).changed = 0 ∧
      (∀ path, .notFormatted path ∉ (runOver after .check again).events) ∧
      ((runOver after .check again).exitCode = 0 ↔
        (Summary.ofRun cluttered .write files).failed = 0) := by
  intro paths files after
  have hw : cluttered.WellFormed := by decide
  have hcollected : cluttered.collectAll paths = files.reverse := by decide +kernel
  have hperm : files.Perm (cluttered.collectAll paths) := hcollected ▸ (files.reverse_perm).symm
  have hbytes : after.files.map (·.bytes) =
      [Text.utf8 "\x7b% package p %\x7d\n\n".toList, [0xff], Text.utf8 "n".toList] := by
    decide +kernel
  have hcounts : Summary.ofRun cluttered .write files = ⟨3, 1, 1⟩ := by decide +kernel
  exact ⟨hw, hperm, hbytes, hcounts, write_settles hw hperm⟩

end TemplLayout
