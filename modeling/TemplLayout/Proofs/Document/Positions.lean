import TemplLayout.Proofs.Document.FirstFault
import TemplLayout.Proofs.Document.Warnings

/-!
# TemplLayout.Proofs.Document.Positions

Every position points at what it belongs to.

* `Declaration.Placed source x` — a directive stands where the declaration is, and the tags of its
  elements stand where the elements are.
* `Document.positions d`        — where the package, the declarations and their elements stand, in the
  order of the document, the elements of a block in preorder.
* `Document.Placed source d`    — the same of a whole document; its positions rise, and a warning has the
  position of the element that it is about.

A passage adds the positions of what it adds, and these lie in the passage (`Advances.positions`). So the
positions of what has been read rise up to where the reading has got (`Reaches.rising`).
-/

namespace TemplLayout

open Text Node

namespace Declaration

def positions : Declaration → List Position
  | .importPath i => [i.position]
  | .templ t => t.position :: (preorderAll t.body).filterMap Entry.place?

def Placed (source : Text) : Declaration → Prop
  | .importPath i => Reached source i.position ['{', '%']
  | .templ t =>
    Reached source t.position ['{', '%'] ∧
      ∀ tag p, .element tag p ∈ preorderAll t.body → Reached source p ('<' :: tag.name)

theorem Placed.append {source : Text} {x : Declaration} (h : x.Placed source) (t : Text) :
    x.Placed (source ++ t) := by
  cases x with
  | importPath i => exact Reached.append h t
  | templ b => exact ⟨h.1.append t, fun tag p hmem => (h.2 tag p hmem).append t⟩

end Declaration

namespace Document

def positions (d : Document) : List Position :=
  d.package.position :: d.declarations.flatMap Declaration.positions

structure Placed (source : Text) (d : Document) : Prop where
  package : Reached source d.package.position ['{', '%']
  declarations : ∀ x ∈ d.declarations, x.Placed source
  rising : Rising 0 source.utf8.length d.positions
  warnings : ∀ w ∈ d.warnings, ∃ t ∈ d.templates, ∃ tag children,
    .element tag w.position children ∈ postorderAll t.body ∧ w.tag = tag.name ∧
      isVoid tag.name = true ∧ children.any (!·.isBlank) = true

end Document

namespace Reading

/-- Where the things stand that have been read, the head of an open block last. -/
def positions (r : Reading) : List Position :=
  match r.stage with
  | .preamble => []
  | .top package => package.position :: r.declarations.reverse.flatMap Declaration.positions
  | .block package t _ =>
    package.position :: (r.declarations.reverse.flatMap Declaration.positions ++ [t.position])

variable {p : Position} {u t before : Text} {r r' : Reading} {d : Directive}

theorem Advances.positions (h : Advances p before d r r') (hd : d.position = p.after before)
    (hr : r.stage = .preamble → r.declarations = []) {b : Nat} (hb : d.position.offset < b) :
    ∃ ps, r'.positions = r.positions ++ ps ∧ Rising p.offset b ps := by
  have hdirective : Rising p.offset b [d.position] := by
    refine ⟨?_, hb⟩
    rw [hd]
    exact offset_le_after p before
  cases h with
  | package =>
    obtain rfl := hr rfl
    exact ⟨[d.position], rfl, hdirective⟩
  | importPath => exact ⟨[d.position], by simp [Reading.positions, Declaration.positions], hdirective⟩
  | templ => exact ⟨[d.position], by simp [Reading.positions], hdirective⟩
  | @endtempl package t ds ws ws' body _ _ hread =>
    refine ⟨(preorderAll body).filterMap Entry.place?, ?_, ?_⟩
    · simp [Reading.positions, Declaration.positions]
    · have hbody := rising_preorder hread
      rw [← hd] at hbody
      have hrest : Rising d.position.offset b [] := Nat.le_of_lt hb
      simpa using hbody.append hrest

theorem Reaches.rising (h : Reaches u r) :
    Rising 0 (Position.start.after u).offset r.positions := by
  induction h with
  | start => exact Nat.le_refl 0
  | @passage u r r' q hr hq hadvances ih =>
    have hb : (q.directive (Position.start.after u)).position.offset <
        (Position.start.after (u ++ q.spell)).offset := by
      rw [Passage.spell, Position.after_append, Position.after_append]
      exact offset_lt_after _ '{' _
    have hpreamble : r.stage = .preamble → r.declarations = [] := by
      intro hstage
      rw [(hr.eq_start hstage).2]
      rfl
    obtain ⟨ps, hps, hrising⟩ := hadvances.positions rfl hpreamble hb
    rw [hps]
    exact ih.append hrising

theorem Reaches.declarations_placed (h : Reaches u r) : ∀ x ∈ r.declarations, x.Placed u := by
  induction h with
  | start =>
    intro x hx
    cases hx
  | @passage u r r' q hr hq hadvances ih =>
    have hreached := hr.reached_directive hq hadvances
    have hplaced := hr.placed
    have hold : ∀ x ∈ r.declarations, x.Placed (u ++ q.spell) := fun x hx => (ih x hx).append _
    cases hadvances with
    | package => exact hold
    | importPath => exact List.forall_mem_cons.2 ⟨hreached, hold⟩
    | templ => exact hold
    | endtempl _ _ hread =>
      refine List.forall_mem_cons.2 ⟨⟨hplaced.2.append _, fun tag p hmem => ?_⟩, hold⟩
      exact hr.markup rfl hq.before (reached_of_read hread hmem) _

/-- Where the reading of a document has got before the text behind its last directive. -/
theorem exists_reaches_of_parse {source : Text} {d : Document} (h : parse source = .ok d) :
    ∃ u t package ds ws, source = u ++ t ∧ Lacks opensDirective t ∧
      Reaches u ⟨.top package, ds, .empty, ws⟩ ∧
      d = ⟨package, ds.reverse, (Gap.ofText t).comment, ws⟩ := by
  rw [parse] at h
  split at h
  · cases h
  · rename_i r' hsource
    obtain ⟨u, t, r, rfl, hr, ht, hfeed⟩ := exists_reaches_last hsource
    obtain ⟨package, ds, ws, rfl, rfl⟩ := finish_last hr.between _ hfeed h
    exact ⟨u, t, package, ds, ws, rfl, ht, hr, rfl⟩

end Reading

/-- A warning has the tag and the position of its element. -/
theorem element_of_mem_warnings {source : Text} {d : Document} (h : parse source = .ok d)
    {w : Warning} (hw : w ∈ d.warnings) :
    ∃ t ∈ d.templates, ∃ tag children, .element tag w.position children ∈ postorderAll t.body ∧
      w.tag = tag.name ∧ isVoid tag.name = true ∧ children.any (!·.isBlank) = true := by
  rw [(wellFormed_parse h).warnings, templates_warnings] at hw
  obtain ⟨t, ht, hw⟩ := List.mem_flatMap.1 hw
  rw [Forest.warnings_eq_postorder] at hw
  obtain ⟨n, hn, hwarning⟩ := List.mem_filterMap.1 hw
  refine ⟨t, ht, ?_⟩
  rcases n with content | ⟨tag, p, children⟩
  · cases hwarning
  · rw [warning?] at hwarning
    split at hwarning
    · rename_i hvoid
      cases hwarning
      rw [Bool.and_eq_true] at hvoid
      exact ⟨tag, children, hn, rfl, hvoid⟩
    · cases hwarning

/-- What a document or a fault says about positions is so: there is the directive or the tag in
question. A package that is missing altogether is missing at the end. -/
theorem placed_parse (source : Text) :
    match parse source with
    | .ok d => d.Placed source
    | .error fault =>
      fault.Faces (Reached source) ∨
        (Lacks opensDirective source ∧ fault = .missingPackage (Position.start.after source)) := by
  cases h : parse source with
  | error fault => exact faces_parse h
  | ok d =>
    obtain ⟨u, t, package, ds, ws, rfl, ht, hr, rfl⟩ := Reading.exists_reaches_of_parse h
    have hpackage : Reached u package.position ['{', '%'] := hr.placed
    have hend : Rising (Position.start.after u).offset (u ++ t).utf8.length [] := by
      rw [Position.offset_after, Text.utf8_append, List.length_append]
      simp [Position.start, Rising]
    refine ⟨hpackage.append t, fun x hx => ?_, ?_, fun w hw => element_of_mem_warnings h hw⟩
    · exact (hr.declarations_placed x (List.mem_reverse.1 hx)).append t
    · simpa [Reading.positions, Document.positions] using hr.rising.append hend

/-- A character of two bytes in front of each element. -/
example : (parse (Directive.spell "package p".toList ++ Directive.spell "import é".toList ++
    Directive.spell "templ t()".toList ++ "é<p>é<br>é</p>é<i></i>".toList ++
    Directive.spell "endtempl".toList)).toOption.map (·.positions.map (·.offset)) =
      some [0, 15, 30, 47, 52, 64] := by
  decide +kernel

end TemplLayout
