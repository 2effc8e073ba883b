import TemplLayout.Proofs.Document.Format
import TemplLayout.Proofs.Workspace.Path

/-!
# TemplLayout.Proofs.Workspace.Settled

Files as formatting leaves them.

* `File.formatted? f`       — the text that `f` is formatted to, if it can be formatted.
* `File.settled f`          — `f` with that text; a file that cannot be formatted stays as it is.
* `File.isBroken`, `File.isStale` — `f` cannot be formatted, or formatting changes it.
* `Workspace.settle w ps`   — `w` with the files at the places `ps` settled, and all others as they
  are.
* `Workspace.fileAt w path` — the file at the end of a path; `brokenAt` and `staleAt` ask it.

A settled file is settled once and for all (`settled_settled`), so it makes no difference in which
order files are settled, or how often (`settle_settle`, `settle_congr`).
-/

namespace TemplLayout

namespace File

variable {f : File}

/-- None if the bytes are no text, or the text is no template. -/
def formatted? (f : File) : Option Text :=
  (Text.ofUtf8? f.bytes).bind fun source => (format source).toOption

def settled (f : File) : File :=
  match f.formatted? with
  | some output => { f with bytes := output.utf8 }
  | none => f

def isBroken (f : File) : Bool :=
  f.formatted?.isNone

def isStale (f : File) : Bool :=
  f.formatted?.any (·.utf8 ≠ f.bytes)

theorem formatted?_eq_some_iff {output : Text} :
    f.formatted? = some output ↔ ∃ source, f.bytes = source.utf8 ∧ format source = .ok output := by
  rw [formatted?, Option.bind_eq_some_iff]
  refine exists_congr fun source => and_congr Text.ofUtf8?_eq_some_iff ?_
  cases format source <;> simp [Except.toOption]

@[simp] theorem place_settled (f : File) : f.settled.place = f.place := by
  rw [settled]
  split <;> rfl

theorem settled_of_some {output : Text} (h : f.formatted? = some output) :
    f.settled = { f with bytes := output.utf8 } := by
  rw [settled, h]

theorem settled_of_none (h : f.formatted? = none) : f.settled = f := by
  rw [settled, h]

/-- What a file is formatted to is formatted already. -/
theorem formatted?_settled (f : File) : f.settled.formatted? = f.formatted? := by
  cases h : f.formatted? with
  | none => rw [settled_of_none h, h]
  | some output =>
    obtain ⟨source, -, hformat⟩ := formatted?_eq_some_iff.1 h
    obtain ⟨d, hparse, -⟩ := exists_parse_of_format hformat
    obtain ⟨output', d', hformat', hparse', -, hrender⟩ := format_readBack hparse
    obtain rfl : output = output' := by
      rw [hformat] at hformat'
      exact Except.ok.inj hformat'
    rw [settled_of_some h]
    refine formatted?_eq_some_iff.2 ⟨output, rfl, ?_⟩
    rw [format, hparse']
    exact congrArg Except.ok hrender

theorem settled_settled (f : File) : f.settled.settled = f.settled := by
  have h := f.formatted?_settled
  cases hf : f.formatted? with
  | none => exact settled_of_none (h.trans hf)
  | some output => rw [settled_of_some (h.trans hf), settled_of_some hf]

theorem isBroken_settled (f : File) : f.settled.isBroken = f.isBroken := by
  rw [isBroken, isBroken, formatted?_settled]

theorem isStale_iff : f.isStale = true ↔ f.settled ≠ f := by
  rw [isStale]
  cases h : f.formatted? with
  | none => simp [settled_of_none h]
  | some output =>
    rw [settled_of_some h, Option.any_some, decide_eq_true_eq]
    refine not_congr ⟨fun hbytes => by rw [hbytes], fun hsame => congrArg bytes hsame⟩

theorem settled_of_not_isStale (h : f.isStale = false) : f.settled = f := by
  rw [← Bool.not_eq_true, isStale_iff, not_not] at h
  exact h

theorem isStale_settled (f : File) : f.settled.isStale = false := by
  rw [← Bool.not_eq_true, isStale_iff, settled_settled, not_not]

theorem isStale_eq {source output : Text} (hbytes : f.bytes = source.utf8)
    (h : f.formatted? = some output) : f.isStale = decide (output ≠ source) := by
  rw [isStale, h, Option.any_some, hbytes]
  refine decide_eq_decide.2 (not_congr ⟨fun hutf8 => ?_, congrArg _⟩)
  have hread := Text.ofUtf8?_utf8 output
  rw [hutf8, Text.ofUtf8?_utf8] at hread
  exact (Option.some.inj hread).symm

theorem isBroken_of_isStale (h : f.isStale = true) : f.isBroken = false := by
  rw [isBroken]
  cases hf : f.formatted? with
  | none =>
    rw [isStale, hf] at h
    cases h
  | some output => rfl

/-- Settled if it is at one of the places. -/
def settledIn (places : List Place) (f : File) : File :=
  if f.place ∈ places then f.settled else f

variable {places : List Place}

theorem settledIn_of_mem (h : f.place ∈ places) : f.settledIn places = f.settled :=
  if_pos h

theorem settledIn_of_not_mem (h : f.place ∉ places) : f.settledIn places = f :=
  if_neg h

@[simp] theorem place_settledIn (places : List Place) (f : File) :
    (f.settledIn places).place = f.place := by
  rw [settledIn]
  split
  · exact f.place_settled
  · rfl

theorem isBroken_settledIn (places : List Place) (f : File) :
    (f.settledIn places).isBroken = f.isBroken := by
  rw [settledIn]
  split
  · exact f.isBroken_settled
  · rfl

theorem settledIn_of_settled (h : f.settled = f) : f.settledIn places = f := by
  rw [settledIn, h, ite_self]

theorem settledIn_settledIn (places places' : List Place) (f : File) :
    (f.settledIn places).settledIn places' = f.settledIn (places ++ places') := by
  by_cases h : f.place ∈ places
  · rw [settledIn_of_mem h, settledIn_of_settled f.settled_settled,
      settledIn_of_mem (List.mem_append_left _ h)]
  · simp [settledIn, h]

end File

namespace Workspace

def settle (w : Workspace) (places : List Place) : Workspace :=
  { w with files := w.files.map (File.settledIn places) }

def fileAt (w : Workspace) (path : Path) : Option File :=
  (w.locate path).toOption.bind w.file?

def brokenAt (w : Workspace) (path : Path) : Bool :=
  (w.fileAt path).any File.isBroken

def staleAt (w : Workspace) (path : Path) : Bool :=
  (w.fileAt path).any File.isStale

variable {w : Workspace} {f : File} {path : Path} {places places' : List Place}

/-! ## Places stay -/

theorem samePlaces_settle (w : Workspace) (places : List Place) :
    w.SamePlaces (w.settle places) := by
  refine ⟨?_, rfl, rfl⟩
  rw [settle, List.map_map]
  exact List.map_congr_left fun f _ => f.place_settledIn places

theorem WellFormed.settle (hw : w.WellFormed) (places : List Place) : (w.settle places).WellFormed :=
  hw.congr (w.samePlaces_settle places)

theorem locate_settle (w : Workspace) (places : List Place) (path : Path) :
    (w.settle places).locate path = w.locate path :=
  locate_congr (w.samePlaces_settle places) path

theorem placesOf_settle (w : Workspace) (places : List Place) (files : List Path) :
    (w.settle places).placesOf files = w.placesOf files :=
  placesOf_congr (w.samePlaces_settle places) files

theorem collectAll_settle (w : Workspace) (places : List Place) (paths : List Path) :
    (w.settle places).collectAll paths = w.collectAll paths :=
  collectAll_congr (w.samePlaces_settle places) paths

/-! ## Settling twice -/

theorem settle_settle (w : Workspace) (places places' : List Place) :
    (w.settle places).settle places' = w.settle (places ++ places') := by
  rw [settle, settle, settle, List.map_map]
  refine congrArg (fun files => { w with files }) (List.map_congr_left fun f _ => ?_)
  exact f.settledIn_settledIn places places'

/-- A file that settling changes is settled in both, or in neither. -/
theorem settle_congr (h : ∀ f ∈ w.files, f.settled ≠ f → (f.place ∈ places ↔ f.place ∈ places')) :
    w.settle places = w.settle places' := by
  refine congrArg (fun files => { w with files }) (List.map_congr_left fun f hf => ?_)
  by_cases hsettled : f.settled = f
  · rw [File.settledIn_of_settled hsettled, File.settledIn_of_settled hsettled]
  · rw [File.settledIn, File.settledIn]
    simp only [h f hf hsettled]

theorem settle_of_settled (h : ∀ f ∈ w.files, f.place ∈ places → f.settled = f) :
    w.settle places = w := by
  have hfiles : ∀ f ∈ w.files, f.settledIn places = id f := by
    intro f hf
    by_cases hplace : f.place ∈ places
    · exact File.settledIn_of_settled (h f hf hplace)
    · exact File.settledIn_of_not_mem hplace
  rw [settle, List.map_congr_left hfiles, List.map_id]

/-- A file is gone exactly if it was stale and has been settled. -/
theorem not_mem_settle_iff (hw : w.WellFormed) (hf : f ∈ w.files) :
    f ∉ (w.settle places).files ↔ f.place ∈ places ∧ f.isStale = true := by
  rw [settle, List.mem_map, File.isStale_iff]
  constructor
  · intro hgone
    by_cases hplace : f.place ∈ places
    · exact ⟨hplace, fun hsettled => hgone ⟨f, hf, File.settledIn_of_settled hsettled⟩⟩
    · exact absurd ⟨f, hf, File.settledIn_of_not_mem hplace⟩ hgone
  · rintro ⟨hplace, hstale⟩ ⟨g, hg, hgf⟩
    -- What has taken the place of the file is the file itself, settled.
    have hsame : g.place = f.place := by rw [← hgf, g.place_settledIn]
    obtain rfl := hw.eq_of_place hg hf hsame
    rw [File.settledIn_of_mem hplace] at hgf
    exact hstale hgf

/-- Settling a stale file leaves one stale file less. -/
theorem countP_isStale_settle (hw : w.WellFormed) (hf : f ∈ w.files) :
    w.files.countP (·.isStale) =
      (w.settle [f.place]).files.countP (·.isStale) + if f.isStale then 1 else 0 := by
  obtain ⟨before, behind, hfiles⟩ := List.append_of_mem hf
  have hplaces := hw.places
  rw [hfiles, List.map_append, List.map_cons, List.nodup_middle, ← List.map_append,
    List.nodup_cons, List.mem_map] at hplaces
  have hothers : ∀ g ∈ before ++ behind, g.settledIn [f.place] = id g := fun g hg =>
    File.settledIn_of_not_mem fun hplace => hplaces.1 ⟨g, hg, List.mem_singleton.1 hplace⟩
  have hcount := congrArg (List.countP (·.isStale)) (List.map_congr_left hothers)
  rw [List.map_id, List.map_append, List.countP_append, List.countP_append] at hcount
  have hself : (f.settledIn [f.place]).isStale = false := by
    rw [File.settledIn_of_mem (List.mem_singleton_self _), f.isStale_settled]
  rw [settle, hfiles, List.map_append, List.map_cons, List.countP_append, List.countP_append,
    List.countP_cons, List.countP_cons, hself, if_neg Bool.false_ne_true]
  omega

/-! ## The file at the end of a path -/

theorem fileAt_eq_some (hw : w.WellFormed) (hf : f ∈ w.files) (hpath : w.locate path = .ok f.place) :
    w.fileAt path = some f := by
  rw [fileAt, hpath]
  exact (file?_eq_some_iff hw).2 ⟨hf, rfl⟩

theorem fileAt_settle (w : Workspace) (places : List Place) (path : Path) :
    (w.settle places).fileAt path = (w.fileAt path).map (File.settledIn places) := by
  have hfile : ∀ place,
      (w.settle places).file? place = (w.file? place).map (File.settledIn places) := by
    intro place
    rw [file?, file?, settle, List.find?_map]
    simp only [Function.comp_def, File.place_settledIn]
  rw [fileAt, fileAt, locate_settle]
  cases w.locate path with
  | error fault => rfl
  | ok place => exact hfile place

theorem brokenAt_settle (w : Workspace) (places : List Place) (path : Path) :
    (w.settle places).brokenAt path = w.brokenAt path := by
  rw [brokenAt, brokenAt, fileAt_settle, Option.any_map]
  simp only [File.isBroken_settledIn]

theorem staleAt_settle_of_not_mem (hw : w.WellFormed) (hf : f ∈ w.files)
    (hpath : w.locate path = .ok f.place) (h : f.place ∉ places) :
    (w.settle places).staleAt path = w.staleAt path := by
  rw [staleAt, staleAt, fileAt_settle, fileAt_eq_some hw hf hpath, Option.map_some,
    File.settledIn_of_not_mem h]

/-- What has been settled is stale no more. -/
theorem staleAt_settle (hw : w.WellFormed) {files : List Path} (hfinds : w.Finds files)
    (h : path ∈ files) (hplaces : w.placesOf files ⊆ places) :
    (w.settle places).staleAt path = false := by
  obtain ⟨f, hf, hpath⟩ := hfinds path h
  have hplace : f.place ∈ places := hplaces (mem_placesOf.2 ⟨path, h, hpath⟩)
  rw [staleAt, fileAt_settle, fileAt_eq_some hw hf hpath, Option.map_some,
    File.settledIn_of_mem hplace]
  exact f.isStale_settled

end Workspace

end TemplLayout
