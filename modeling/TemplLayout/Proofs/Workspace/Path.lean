import Mathlib.Data.List.Nodup
import TemplLayout.Workspace.Basic

/-!
# TemplLayout.Proofs.Workspace.Path

Where the paths lead that stand for template files.

* `Path.IsEntry name`      — a name that something in a folder can have.
* `Workspace.WellFormed w` — each file of `w` has a place of its own, and that place can be spelled.
* `Workspace.follow`       — following the parts of a path, in two stretches, and along the names of
  a file.

* `Workspace.Finds w files` — each of the paths leads to a file.
* `Workspace.SamePlaces`   — the same folders, and files in the same places.

A path that walking a folder gives for a file leads to that file (`locate_below`), so every path that
is collected leads to a template file (`exists_file_of_mem_collectAll`). Where a path leads and what
is collected depends on no bytes (`locate_congr`, `collectAll_congr`).
-/

namespace TemplLayout

namespace Path

structure IsEntry (name : Text) : Prop where
  ne_nil : name ≠ []
  no_slash : '/' ∉ name
  not_here : name ≠ ['.']
  not_up : name ≠ ['.', '.']

instance (name : Text) : Decidable (IsEntry name) :=
  decidable_of_iff (name ≠ [] ∧ '/' ∉ name ∧ name ≠ ['.'] ∧ name ≠ ['.', '.'])
    ⟨fun ⟨h₁, h₂, h₃, h₄⟩ => ⟨h₁, h₂, h₃, h₄⟩, fun ⟨h₁, h₂, h₃, h₄⟩ => ⟨h₁, h₂, h₃, h₄⟩⟩

theorem parts_eq_splitOn (path : Path) : parts path = path.splitOn '/' := by
  induction path with
  | nil => rfl
  | cons c path ih =>
    rw [List.splitOn_cons_eq_if_modifyHead, ← ih, parts]
    cases hparts : parts path with
    | nil => exact absurd (ih.symm.trans hparts) (List.splitOn_ne_nil '/' path)
    | cons part others => by_cases hc : c = '/' <;> simp [hc]

/-- A slash at the end of a path is not doubled by what goes on behind it. -/
theorem exists_front_of_below (path : Path) {rest : List Text} (hne : rest ≠ [])
    (hrest : ∀ name ∈ rest, IsEntry name) :
    ∃ front, parts (below path rest) = front ++ rest ∧
      (parts path = front ∨ parts path = front ++ [[]]) := by
  have hparts : (List.intercalate ['/'] rest).splitOn '/' = rest :=
    List.splitOn_intercalate '/' (fun name h => (hrest name h).no_slash) hne
  simp only [parts_eq_splitOn, below]
  by_cases hlast : path.getLast? = some '/'
  · obtain ⟨stem, rfl⟩ := List.getLast?_eq_some_iff.1 hlast
    refine ⟨stem.splitOn '/', ?_, .inr ?_⟩
    · rw [if_pos hlast, List.append_nil, List.append_assoc, List.singleton_append,
        List.splitOn_append_cons_self, hparts]
    · rw [List.splitOn_append_cons_self, List.splitOn_nil]
  · refine ⟨path.splitOn '/', ?_, .inl rfl⟩
    rw [if_neg hlast, List.append_assoc, List.singleton_append, List.splitOn_append_cons_self,
      hparts]

theorem enter_entry {name : Text} (h : IsEntry name) (place : Place) :
    enter place name = place ++ [name] := by
  rw [enter, if_neg (not_or.2 ⟨h.ne_nil, h.not_here⟩), if_neg h.not_up]

end Path

structure Workspace.WellFormed (w : Workspace) : Prop where
  entries : ∀ f ∈ w.files, ∀ name ∈ f.place, Path.IsEntry name
  places : (w.files.map (·.place)).Nodup

instance (w : Workspace) : Decidable w.WellFormed :=
  decidable_of_iff
    ((∀ f ∈ w.files, ∀ name ∈ f.place, Path.IsEntry name) ∧ (w.files.map (·.place)).Nodup)
    ⟨fun ⟨h₁, h₂⟩ => ⟨h₁, h₂⟩, fun ⟨h₁, h₂⟩ => ⟨h₁, h₂⟩⟩

namespace Workspace

variable {w : Workspace} {f : File} {path : Path} {place : Place}

theorem WellFormed.eq_of_place (hw : w.WellFormed) {g : File} (hf : f ∈ w.files) (hg : g ∈ w.files)
    (h : f.place = g.place) : f = g :=
  List.inj_on_of_nodup_map hw.places hf hg h

theorem file?_eq_some_iff (hw : w.WellFormed) :
    w.file? place = some f ↔ f ∈ w.files ∧ f.place = place := by
  constructor
  · intro h
    exact ⟨List.mem_of_find?_eq_some h, by simpa using List.find?_some h⟩
  · rintro ⟨hf, rfl⟩
    cases hfile : w.file? f.place with
    | none => simpa using List.find?_eq_none.1 hfile f hf
    | some g =>
      have hplace : g.place = f.place := by simpa using List.find?_some hfile
      rw [hw.eq_of_place (List.mem_of_find?_eq_some hfile) hf hplace]

/-! ## Following a path -/

theorem follow_append (place : Place) (xs ys : List Text) :
    w.follow place (xs ++ ys) = (w.follow place xs).bind fun p => w.follow p ys := by
  induction xs generalizing place with
  | nil => rfl
  | cons part xs ih =>
    rw [List.cons_append, follow, follow, ih]
    split
    · rfl
    · split <;> rfl

/-- The empty part behind a last slash leads nowhere else. -/
theorem follow_front {start : Place} {front : List Text}
    (h : w.follow start (front ++ [[]]) = .ok place) : w.follow start front = .ok place := by
  rw [follow_append] at h
  cases hfront : w.follow start front with
  | error fault =>
    rw [hfront] at h
    cases h
  | ok p =>
    rw [hfront] at h
    simp only [Except.bind, follow] at h
    split at h
    · exact h
    · split at h <;> cases h

/-- From a folder a file is reached by the names between them. -/
theorem follow_entries (hf : f ∈ w.files) {names : List Text} (h : f.place = place ++ names)
    (hnames : ∀ name ∈ names, Path.IsEntry name) : w.follow place names = .ok f.place := by
  induction names generalizing place with
  | nil => rw [follow, h, List.append_nil]
  | cons name names ih =>
    rw [List.forall_mem_cons] at hnames
    have hbelow : isBelow place f.place = true := by simp [isBelow, h]
    have hfolder : w.isFolder place = true := by
      rw [isFolder, List.any_eq_true.2 ⟨f, hf, hbelow⟩, Bool.or_true]
    rw [follow, if_pos hfolder, Path.enter_entry hnames.1]
    exact ih (by rw [h, List.append_assoc, List.singleton_append]) hnames.2

theorem isBelow_iff {folder : Place} :
    isBelow folder place = true ↔ ∃ names, names ≠ [] ∧ place = folder ++ names := by
  rw [isBelow, Bool.and_eq_true, List.isPrefixOf_iff_prefix, decide_eq_true_eq]
  constructor
  · rintro ⟨⟨names, rfl⟩, hlength⟩
    refine ⟨names, ?_, rfl⟩
    rintro rfl
    simp at hlength
  · rintro ⟨names, hne, rfl⟩
    have hlength := List.length_pos_iff.2 hne
    exact ⟨List.prefix_append folder names, by simpa using hlength⟩

theorem ne_nil_of_locate (h : w.locate path = .ok place) : path ≠ [] := by
  rintro rfl
  cases h

theorem origin_cons (w : Workspace) (c : Char) (s t : Path) :
    w.origin (c :: s) = w.origin (c :: t) := by
  by_cases hc : c = '/' <;> simp [origin, hc]

theorem locate_eq_follow (hne : path ≠ []) :
    w.locate path = w.follow (w.origin path) (Path.parts path) := by
  rw [locate, if_neg (by simpa using hne)]

/-- The path that walking a folder gives for a file leads to the file. -/
theorem locate_below (hw : w.WellFormed) (hpath : w.locate path = .ok place) (hf : f ∈ w.files)
    (hbelow : isBelow place f.place = true) :
    w.locate (Path.below path (f.place.drop place.length)) = .ok f.place := by
  obtain ⟨names, hne, hplace⟩ := isBelow_iff.1 hbelow
  have hentries : ∀ name ∈ names, Path.IsEntry name := by
    intro name hname
    exact hw.entries f hf name (hplace ▸ List.mem_append_right place hname)
  rw [hplace, List.drop_left, ← hplace]
  obtain ⟨front, hparts, hfront⟩ := Path.exists_front_of_below path hne hentries
  obtain ⟨c, rest, rfl⟩ := List.exists_cons_of_ne_nil (ne_nil_of_locate hpath)
  have horigin : w.origin (Path.below (c :: rest) names) = w.origin (c :: rest) :=
    w.origin_cons c _ _
  have hstart : w.follow (w.origin (c :: rest)) front = .ok place := by
    rw [locate_eq_follow (List.cons_ne_nil c rest)] at hpath
    rcases hfront with hfront | hfront
    · rwa [hfront] at hpath
    · exact follow_front (by rwa [hfront] at hpath)
  rw [locate_eq_follow (by simp [Path.below]), horigin, hparts, follow_append, hstart]
  exact follow_entries hf hplace hentries

/-! ## What is collected -/

theorem exists_file_of_mem_collect (hw : w.WellFormed) {arg : Path} (h : path ∈ w.collect arg) :
    ∃ f ∈ w.files, w.locate path = .ok f.place ∧ f.place.getLast?.any Path.isTemplate = true := by
  rw [collect] at h
  split at h
  · cases h
  · rename_i place hplace
    split at h
    · rename_i f hfile
      obtain ⟨hf, rfl⟩ := (file?_eq_some_iff hw).1 hfile
      split at h
      · rename_i htemplate
        rw [List.mem_singleton] at h
        exact ⟨f, hf, h ▸ hplace, htemplate⟩
      · cases h
    · obtain ⟨f, hf, hbelow⟩ := List.mem_filterMap.1 h
      split at hbelow
      · rename_i hcond
        rw [Bool.and_eq_true] at hcond
        cases hbelow
        exact ⟨f, hf, locate_below hw hplace hf hcond.1, hcond.2⟩
      · cases hbelow

/-- Where the paths lead. -/
def placesOf (w : Workspace) (files : List Path) : List Place :=
  files.filterMap fun path => (w.locate path).toOption

theorem placesOf_cons (hpath : w.locate path = .ok place) (files : List Path) :
    w.placesOf (path :: files) = place :: w.placesOf files := by
  rw [placesOf, List.filterMap_cons, hpath]
  rfl

theorem mem_placesOf {files : List Path} :
    place ∈ w.placesOf files ↔ ∃ path ∈ files, w.locate path = .ok place := by
  rw [placesOf, List.mem_filterMap]
  refine exists_congr fun path => and_congr_right fun _ => ?_
  cases w.locate path <;> simp [Except.toOption]

theorem placesOf_perm (w : Workspace) {files files' : List Path} (h : files.Perm files') :
    (w.placesOf files).Perm (w.placesOf files') :=
  h.filterMap _

/-- Each of the paths leads to a file. -/
def Finds (w : Workspace) (files : List Path) : Prop :=
  ∀ path ∈ files, ∃ f ∈ w.files, w.locate path = .ok f.place

theorem Finds.perm {files files' : List Path} (h : w.Finds files') (hperm : files.Perm files') :
    w.Finds files :=
  fun path hpath => h path (hperm.subset hpath)

theorem exists_file_of_mem_collectAll (hw : w.WellFormed) {paths : List Path}
    (h : path ∈ w.collectAll paths) :
    ∃ f ∈ w.files, w.locate path = .ok f.place ∧ f.place.getLast?.any Path.isTemplate = true := by
  obtain ⟨arg, -, harg⟩ := List.mem_flatMap.1 h
  exact exists_file_of_mem_collect hw harg

theorem finds_collectAll (hw : w.WellFormed) (paths : List Path) :
    w.Finds (w.collectAll paths) := by
  intro path hpath
  obtain ⟨f, hf, hlocate, -⟩ := exists_file_of_mem_collectAll hw hpath
  exact ⟨f, hf, hlocate⟩

/-! ## Other bytes in the same places -/

structure SamePlaces (w w' : Workspace) : Prop where
  places : w'.files.map (·.place) = w.files.map (·.place)
  folders : w'.folders = w.folders
  here : w'.here = w.here

variable {w' : Workspace}

theorem SamePlaces.symm (h : SamePlaces w w') : SamePlaces w' w :=
  ⟨h.places.symm, h.folders.symm, h.here.symm⟩

theorem WellFormed.congr (h : SamePlaces w w') (hw : w.WellFormed) : w'.WellFormed where
  entries f hf := by
    have hplace : f.place ∈ w'.files.map (·.place) := List.mem_map_of_mem hf
    rw [h.places] at hplace
    obtain ⟨g, hg, hsame⟩ := List.mem_map.1 hplace
    exact hsame ▸ hw.entries g hg
  places := h.places ▸ hw.places

theorem isSome_file? (w : Workspace) (place : Place) :
    (w.file? place).isSome = decide (place ∈ w.files.map (·.place)) := by
  rw [Bool.eq_iff_iff, decide_eq_true_eq, List.mem_map, file?, List.find?_isSome]
  simp

theorem isFolder_congr (h : SamePlaces w w') (place : Place) :
    w'.isFolder place = w.isFolder place := by
  have hany := congrArg (List.any · (isBelow place)) h.places
  simp only [List.any_map] at hany
  rw [isFolder, isFolder, h.here, h.folders]
  exact congrArg _ hany

theorem follow_congr (h : SamePlaces w w') (place : Place) (parts : List Text) :
    w'.follow place parts = w.follow place parts := by
  induction parts generalizing place with
  | nil => rfl
  | cons part parts ih =>
    rw [follow, follow, isFolder_congr h, isSome_file?, isSome_file?, h.places, ih]

theorem locate_congr (h : SamePlaces w w') (path : Path) : w'.locate path = w.locate path := by
  have horigin : w'.origin path = w.origin path := by
    rw [origin.eq_def, origin.eq_def, h.here]
  rw [locate, locate, horigin, follow_congr h]

theorem placesOf_congr (h : SamePlaces w w') (files : List Path) :
    w'.placesOf files = w.placesOf files := by
  rw [placesOf, placesOf, funext (locate_congr h)]

theorem Finds.congr (h : SamePlaces w w') {files : List Path} (hfiles : w.Finds files) :
    w'.Finds files := by
  intro path hpath
  obtain ⟨f, hf, hlocate⟩ := hfiles path hpath
  have hplace : f.place ∈ w.files.map (·.place) := List.mem_map_of_mem hf
  rw [← h.places] at hplace
  obtain ⟨g, hg, hsame⟩ := List.mem_map.1 hplace
  exact ⟨g, hg, by rw [locate_congr h, hlocate, hsame]⟩

theorem collect_congr (h : SamePlaces w w') (path : Path) : w'.collect path = w.collect path := by
  have hbelow : ∀ place, w'.templatesBelow path place = w.templatesBelow path place := by
    intro place
    have hcollected := congrArg (List.filterMap fun p : Place =>
      if isBelow place p && p.getLast?.any Path.isTemplate then
        some (Path.below path (p.drop place.length))
      else none) h.places
    rwa [List.filterMap_map, List.filterMap_map] at hcollected
  rw [collect, collect, locate_congr h]
  split
  · rfl
  · rename_i place _
    have hfile : (w'.file? place).isSome = (w.file? place).isSome := by
      rw [isSome_file?, isSome_file?, h.places]
    cases hf : w.file? place <;> cases hf' : w'.file? place <;> simp_all

theorem collectAll_congr (h : SamePlaces w w') (paths : List Path) :
    w'.collectAll paths = w.collectAll paths := by
  rw [collectAll, collectAll, funext (collect_congr h)]

end Workspace

end TemplLayout
