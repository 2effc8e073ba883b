import TemplLayout.Proofs.Document.Grammar
import TemplLayout.Proofs.Markup.Closing

/-!
# TemplLayout.Proofs.Document.Warnings

The warnings of a document are about the void elements in its blocks that have content, and about no
others (`warnings_parse`).

* `Reading.Warns p u ss ws` — the warnings `ws` come from literals among the segments `ss` of the text
  `u`, which stands at `p`: each is about an element that gets its closing tag in its literal, and no
  two are about the same element.

A block adds warnings from its own literal, which lies behind all literals before it (`Runs.warns`).
-/

namespace TemplLayout

open Text Node

namespace Reading

structure Warns (p : Position) (u : Text) (segments : List Segment) (ws : List Warning) : Prop where
  apart : (ws.map (·.position.offset)).Nodup
  inside : ∀ w ∈ ws, p.offset ≤ w.position.offset ∧ w.position.offset < (p.after u).offset
  closed : ∀ w ∈ ws, ∃ t q, Segment.literal t q ∈ segments ∧ w.position ∈ closedTags q t

variable {p : Position} {u v : Text} {xs ys : List Segment} {ws ws' : List Warning}

theorem warns_nil : Warns p u xs [] :=
  ⟨.nil, by simp, by simp⟩

theorem Warns.append (h : Warns p u xs ws) (h' : Warns (p.after u) v ys ws') :
    Warns p (u ++ v) (xs ++ ys) (ws ++ ws') where
  apart := by
    rw [List.map_append]
    refine List.nodup_append.2 ⟨h.apart, h'.apart, ?_⟩
    intro a ha b hb
    obtain ⟨w, hw, rfl⟩ := List.mem_map.1 ha
    obtain ⟨w', hw', rfl⟩ := List.mem_map.1 hb
    have := (h.inside w hw).2
    have := (h'.inside w' hw').1
    omega
  inside := by
    rw [Position.after_append]
    have hu := offset_le_after p u
    have hv := offset_le_after (p.after u) v
    intro w hw
    rcases List.mem_append.1 hw with hw | hw
    · have := h.inside w hw
      omega
    · have := h'.inside w hw
      omega
  closed := by
    intro w hw
    rcases List.mem_append.1 hw with hw | hw
    · obtain ⟨t, q, hmem, hclosed⟩ := h.closed w hw
      exact ⟨t, q, List.mem_append_left ys hmem, hclosed⟩
    · obtain ⟨t, q, hmem, hclosed⟩ := h'.closed w hw
      exact ⟨t, q, List.mem_append_right xs hmem, hclosed⟩

theorem warns_read {before : Text} {body : Forest} (h : Forest.read p before = .ok (body, ws)) :
    Warns p before (literals p before) ws := by
  refine ⟨nodup_warnings h, bounds_of_mem_warnings h, fun w hw => ?_⟩
  have hclosed := closed_of_mem_warnings h w hw
  cases before with
  | nil =>
    rw [closedTags_nil] at hclosed
    cases hclosed
  | cons c before => exact ⟨_, p, List.mem_singleton_self _, hclosed⟩

variable {r r' : Reading} {before : Text} {d : Directive}

/-- Only the end of a block adds warnings. -/
theorem Advances.warns (h : Advances p before d r r') :
    ∃ ws, r'.warnings = r.warnings ++ ws ∧ Warns p before (literals p before) ws := by
  cases h with
  | package | importPath | templ => exact ⟨[], by simp, warns_nil⟩
  | endtempl _ _ hread => exact ⟨_, rfl, warns_read hread⟩

theorem Runs.warns {qs : List Passage} (h : Runs p qs r r') (u : Text) :
    ∃ ws, r'.warnings = r.warnings ++ ws ∧
      Warns p (qs.flatMap Passage.spell ++ u) (segmentsFrom p qs u) ws := by
  induction h with
  | nil => exact ⟨[], by simp, warns_nil⟩
  | @cons p q qs _ _ _ hadvances _ ih =>
    obtain ⟨ws, hws, hwarns⟩ := hadvances.warns
    obtain ⟨ws', hws', hwarns'⟩ := ih
    -- The directive of the passage warns of nothing.
    have hdirective : Warns (p.after q.before) (Piece.directive q.body).spell
        [.directive q.body.trim (p.after q.before)] [] := warns_nil
    rw [← List.append_nil ws] at hws
    rw [Passage.spell, Position.after_append] at hwarns'
    have hall := hwarns.append (hdirective.append hwarns')
    refine ⟨ws ++ ws', ?_, ?_⟩
    · rw [hws', hws, List.append_nil, List.append_assoc]
    · simpa [segmentsFrom, Passage.spell, List.flatMap_cons, Position.after_append] using hall

end Reading

open Reading

theorem templates_warnings (ds : List Declaration) :
    ds.flatMap Declaration.warnings =
      (ds.filterMap fun
        | .importPath _ => none
        | .templ t => some t).flatMap fun t => Forest.warnings t.body := by
  induction ds with
  | nil => rfl
  | cons x ds ih =>
    rw [List.flatMap_cons, ih]
    cases x <;> rfl

/-- The void elements that have a child other than blank text, block by block and in postorder, are
warned of where they stand. Each of them is warned of once, and each has a closing tag of its own. -/
theorem warnings_parse {source : Text} {d : Document} (h : parse source = .ok d) :
    d.warnings = d.templates.flatMap (fun t => (postorderAll t.body).filterMap Node.warning?) ∧
      (d.warnings.map (·.position.offset)).Nodup ∧
      ∀ w ∈ d.warnings, ∃ t p, .ok (.literal t p) ∈ scan source ∧
        w.position ∈ closedTags p t := by
  refine ⟨?_, ?_⟩
  · simp only [(wellFormed_parse h).warnings, templates_warnings, Forest.warnings_eq_postorder]
    rfl
  · obtain ⟨qs, u, hqs, hu, rfl⟩ := exists_passages_of_parse h
    obtain ⟨package, ds, ws, hruns, rfl⟩ := (parse_passages_eq_ok_iff hqs hu).1 h
    obtain ⟨_, rfl, hwarns⟩ := hruns.warns u
    rw [scan_eq_scanFrom, scanFrom_passages hqs hu]
    refine ⟨hwarns.apart, fun w hw => ?_⟩
    obtain ⟨t, p, hmem, hclosed⟩ := hwarns.closed w hw
    exact ⟨t, p, List.mem_map_of_mem hmem, hclosed⟩

/-- Void elements with content of their own, with blank content, and left open. -/
def voidBlocks : Text :=
  Directive.spell "package p".toList ++ Directive.spell "templ t()".toList ++
    "<br>a</br><p><img><hr> </hr>x<wbr><BR>b<i></i></BR></p>".toList ++
    Directive.spell "endtempl".toList ++ Directive.spell "templ u()".toList ++
    "<input>c</input><col>".toList ++ Directive.spell "endtempl".toList

theorem warnings_parse_voidBlocks :
    ∃ d, parse voidBlocks = .ok d ∧
      d.warnings.map (·.tag) = ["br".toList, "BR".toList, "input".toList] ∧
      d.warnings = d.templates.flatMap (fun t => (postorderAll t.body).filterMap Node.warning?) ∧
      (d.warnings.map (·.position.offset)).Nodup ∧
      ∀ w ∈ d.warnings, ∃ t p, .ok (.literal t p) ∈ scan voidBlocks ∧
        w.position ∈ closedTags p t := by
  have hvalue : (parse voidBlocks).toOption.map (·.warnings.map (·.tag)) =
      some ["br".toList, "BR".toList, "input".toList] := by decide +kernel
  cases h : parse voidBlocks with
  | error fault =>
    rw [h] at hvalue
    cases hvalue
  | ok d =>
    rw [h] at hvalue
    exact ⟨d, rfl, Option.some.inj hvalue, warnings_parse h⟩

end TemplLayout
