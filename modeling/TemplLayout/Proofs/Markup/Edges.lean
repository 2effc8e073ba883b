import TemplLayout.Proofs.Markup.Alike
import TemplLayout.Proofs.Markup.Layout

/-!
# TemplLayout.Proofs.Markup.Edges

The blank ends of a block's text.

* `bodyLines t` — the lines that the text `t` of a block is laid out in, if it can be read.

They do not depend on where the text stands (`exists_read_of_bodyLines`), and neither on the blank
characters it begins with nor on those it ends with (`bodyLines_blank_append`,
`bodyLines_append_blank`). A text that comes last stands last in the forest even when void elements are
open there, as these are spilled.
-/

namespace TemplLayout

open Text Node

/-- The node of a run of text; an empty run makes none. -/
def Node.run {π : Type} (t : Text) : List (Node π) :=
  if t.isEmpty then [] else [.text t]

theorem unplacedAll_run_append (s : Text) (f : Forest) :
    unplacedAll (Node.run s ++ f) = Node.run s ++ unplacedAll f := by
  cases s <;> rfl

theorem unplacedAll_append_run (s : Text) (f : Forest) :
    unplacedAll (f ++ Node.run s) = unplacedAll f ++ Node.run s := by
  rw [unplacedAll_eq_map, unplacedAll_eq_map, List.map_append]
  cases s <;> rfl

/-! ## First and last -/

namespace Nesting

/-- `s` with `xs` in front of all that stands outside. -/
def onto (xs : Forest) (s : Nesting) : Nesting :=
  { s with outside := s.outside ++ xs.reverse }

theorem push_onto (xs : Forest) (s : Nesting) (n : Node Position) :
    (s.onto xs).push n = (s.push n).onto xs := by
  obtain ⟨_ | ⟨e, outer⟩, outside, warnings⟩ := s <;> rfl

theorem outcome_onto (xs : Forest) (s : Nesting) (toks : List Token) :
    (s.onto xs).outcome toks = (s.outcome toks).map (xs ++ ·) := by
  induction toks generalizing s with
  | nil =>
    rw [outcome_nil, outcome_nil, finish_toOption, finish_toOption, Option.map_map]
    congr 1
    funext f
    simp [onto]
  | cons tok toks ih =>
    cases tok with
    | text content => rw [outcome_text, outcome_text, push_onto, ih]
    | unterminated name p => rw [outcome_unterminated, outcome_unterminated]; rfl
    | mark m p =>
      cases m with
      | opening tag =>
        rw [outcome_opening, outcome_opening]
        split
        · rw [push_onto, ih]
        · exact ih { s with opened := ⟨tag, p, []⟩ :: s.opened }
      | closing name =>
        rw [outcome_closing, outcome_closing]
        change Option.bind (unwind name p [] s.opened).toOption _ = _
        cases unwind name p [] s.opened with
        | error fault => rfl
        | ok found =>
          obtain ⟨e, content, outer⟩ := found
          let s' : Nesting := ⟨outer, s.outside, s.warnings ++ warningsOf e content⟩
          have hpush := push_onto xs s' (.element e.tag e.position content)
          exact (congrArg (outcome · toks) hpush).trans (ih _)

theorem outcome_run_append (s : Text) (toks : List Token) :
    empty.outcome (Token.run s ++ toks) =
      (empty.outcome toks).map (Node.run s ++ ·) := by
  cases s with
  | nil => simp [Token.run, Node.run]
  | cons c s =>
    have honto : empty.push (.text (c :: s)) = empty.onto [.text (c :: s)] := rfl
    rw [Token.run, if_neg (by simp), List.singleton_append, outcome_text, honto, outcome_onto]
    rfl

theorem settle_append (carried f : Forest) (opened : List OpenElement) :
    (settle (carried ++ f) opened).toOption = (settle carried opened).toOption.map (· ++ f) := by
  induction opened generalizing carried with
  | nil => rfl
  | cons e outer ih =>
    rw [settle, settle]
    split
    · have hspilled : e.spilled (carried ++ f) = e.spilled carried ++ f := by
        simp [OpenElement.spilled, OpenElement.content_eq]
      rw [hspilled, ih]
    · rfl

/-- What is put in last stands last. -/
theorem finish_push (s : Nesting) (n : Node Position) :
    (s.push n).finish.toOption = s.finish.toOption.map (· ++ [n]) := by
  obtain ⟨_ | ⟨e, outer⟩, outside, warnings⟩ := s
  · simp [push, finish, settle, Except.map, Except.toOption, List.reverseAux_eq]
  · rw [finish_toOption, finish_toOption, push]
    dsimp only
    rw [settle, settle]
    split
    · have hspilled : OpenElement.spilled ⟨e.tag, e.position, n :: e.children⟩ [] =
          e.spilled [] ++ [n] := by
        simp [OpenElement.spilled, OpenElement.content_eq]
      rw [hspilled, settle_append, Option.map_map, Option.map_map]
      congr 1
      funext f
      simp
    · rfl

theorem outcome_append_text (s : Nesting) (content : Text) (toks : List Token) :
    s.outcome (toks ++ [.text content]) = (s.outcome toks).map (· ++ [.text content]) := by
  induction toks generalizing s with
  | nil => exact finish_push s (.text content)
  | cons tok toks ih =>
    cases tok with
    | text content' => rw [List.cons_append, outcome_text, outcome_text, ih]
    | unterminated name p => rw [List.cons_append, outcome_unterminated, outcome_unterminated]; rfl
    | mark m p =>
      cases m with
      | opening tag =>
        rw [List.cons_append, outcome_opening, outcome_opening]
        split
        · exact ih _
        · exact ih _
      | closing name =>
        rw [List.cons_append, outcome_closing, outcome_closing]
        cases unwind name p [] s.opened with
        | error fault => rfl
        | ok found => exact ih _

theorem outcome_append_run (s : Nesting) (content : Text) (toks : List Token) :
    s.outcome (toks ++ Token.run content) =
      (s.outcome toks).map (· ++ Node.run content) := by
  cases content with
  | nil => simp [Token.run, Node.run]
  | cons c content => exact outcome_append_text s _ toks

theorem outcome_append_unterminated (s : Nesting) (name : Text) (p : Position)
    (toks : List Token) : s.outcome (toks ++ [.unterminated name p]) = none := by
  induction toks generalizing s with
  | nil => exact outcome_unterminated s name p []
  | cons tok toks ih =>
    rw [List.cons_append]
    rcases hstep : step s tok with ⟨s', _ | fault⟩
    · rw [outcome_cons _ hstep, ih]
    · exact outcome_refused _ hstep

end Nesting

/-! ## Tokens -/

namespace Token

theorem relabel_ofText (g : Text → Text) (p q : Position) (t : Text) :
    (ofText p t).map (relabel g) = (ofText q t).map (relabel g) := by
  induction t using markup_induction generalizing p q with
  | last s hs => rw [ofText_last hs, ofText_last hs]
  | tag s inner rest hs hstart hi ih =>
    rw [ofText_run hs (.inr hstart), ofText_mark hstart hi, ofText_run hs (.inr hstart),
      ofText_mark hstart hi, List.map_append, List.map_append, List.map_cons, List.map_cons,
      ih _ ((q.after s).after ('<' :: inner ++ ['>']))]
    rfl
  | unterminated s u hs hstart hclose =>
    rw [ofText_run hs (.inr hstart), ofText_unterminated hstart hclose, ofText_run hs (.inr hstart),
      ofText_unterminated hstart hclose, List.map_append, List.map_append]
    rfl

end Token

theorem closeTag?_append_blank {u v : Text} (h : closeTag? u = none) (hv : v.isBlank = true) :
    closeTag? (u ++ v) = none := by
  cases hclose : closeTag? (u ++ v) with
  | none => rfl
  | some cut =>
    obtain ⟨inner, rest⟩ := cut
    have happ := append_of_closeTag? hclose
    have hshut := shut_of_closeTag? hclose
    rcases List.append_eq_append_iff.1 happ with ⟨as, rfl, hrest⟩ | ⟨as, rfl, rfl⟩
    · cases as with
      | nil =>
        have hmem : '>' ∈ v := by
          rw [List.nil_append] at hrest
          rw [← hrest]
          exact List.mem_cons_self ..
        exact absurd (isBlank_iff.1 hv _ hmem) (by decide)
      | cons c as =>
        obtain ⟨rfl, -⟩ := List.cons.inj hrest
        rw [closeTag?_append hshut] at h
        cases h
    · have hmem : '>' ∈ as ++ '>' :: rest := by simp
      exact absurd (isBlank_iff.1 hv _ hmem) (by decide)

/-- Blank characters behind a text go to its last run of text, or get lost in a tag that never ends. -/
theorem Token.ofText_append_blank {v : Text} (hv : v.isBlank = true) (p : Position) (t : Text) :
    (∃ toks s, ofText p t = toks ++ run s ∧ ofText p (t ++ v) = toks ++ run (s ++ v)) ∨
      ∃ toks name q, ofText p t = toks ++ [.unterminated name q] ∧
        ∃ name', ofText p (t ++ v) = toks ++ [.unterminated name' q] := by
  induction t using markup_induction generalizing p with
  | last s hs =>
    have hsv := (pattern_startsTag.loose.append_blank hv).2 hs
    exact .inl ⟨[], s, by rw [ofText_last hs]; rfl, by rw [ofText_last hsv]; rfl⟩
  | tag s inner rest hs hstart hi ih =>
    have hstart' := pattern_startsTag.found_append v hstart
    have happ : s ++ '<' :: (inner ++ '>' :: rest) ++ v =
        s ++ '<' :: (inner ++ '>' :: (rest ++ v)) := by simp
    rw [List.cons_append, List.append_assoc, List.cons_append] at hstart'
    rw [happ, ofText_run hs (.inr hstart), ofText_mark hstart hi, ofText_run hs (.inr hstart'),
      ofText_mark hstart' hi]
    rcases ih ((p.after s).after ('<' :: inner ++ ['>'])) with
      ⟨toks, last, h, h'⟩ | ⟨toks, name, q, h, name', h'⟩
    · refine .inl ⟨run s ++ .mark (Mark.ofInner inner) (p.after s) :: toks, last, ?_, ?_⟩
      · rw [h, List.append_assoc, List.cons_append]
      · rw [h', List.append_assoc, List.cons_append]
    · refine .inr ⟨run s ++ .mark (Mark.ofInner inner) (p.after s) :: toks, name, q, ?_, name', ?_⟩
      · rw [h, List.append_assoc, List.cons_append]
      · rw [h', List.append_assoc, List.cons_append]
  | unterminated s u hs hstart hclose =>
    have hstart' := pattern_startsTag.found_append v hstart
    have hclose' := closeTag?_append_blank hclose hv
    rw [List.cons_append] at hstart'
    rw [List.append_assoc, List.cons_append, ofText_run hs (.inr hstart),
      ofText_unterminated hstart hclose, ofText_run hs (.inr hstart'),
      ofText_unterminated hstart' hclose']
    exact .inr ⟨run s, _, _, rfl, _, rfl⟩

/-! ## Lines -/

/-- A text that is blank in front begins no line earlier. -/
theorem stretches_textItems_blank_append {w : Text} (hw : w.isBlank = true) (s : Text)
    (xs : List (Option LineItem)) :
    stretches (textItems (w ++ s) ++ xs) = stretches (textItems s ++ xs) := by
  rw [textItems, textItems, isBlank_append, hw, Bool.true_and]
  split
  · rfl
  · rename_i hblank
    have hne : s ≠ [] := by
      rintro rfl
      exact hblank rfl
    have hskip : ∀ (b : Bool) (ys : List (Option LineItem)),
        stretches ((if b = true then [none] else []) ++ ys) = stretches ys := by
      intro b ys
      cases b <;> rfl
    rw [trim_blank_append hw, endsBlank_append hne]
    simp only [List.append_assoc, hskip]

theorem stretches_append_textItems_blank {v : Text} (hv : v.isBlank = true) (s : Text)
    (xs : List (Option LineItem)) :
    stretches (xs ++ textItems (s ++ v)) = stretches (xs ++ textItems s) := by
  rw [textItems, textItems, isBlank_append, hv, Bool.and_true]
  split
  · rfl
  · rename_i hblank
    have hne : s ≠ [] := by
      rintro rfl
      exact hblank rfl
    have hskip : ∀ (b : Bool) (ys : List (Option LineItem)),
        stretches (ys ++ if b = true then [none] else []) = stretches ys := by
      intro b ys
      cases b with
      | false => exact congrArg stretches (List.append_nil ys)
      | true => exact (stretches_append_none ys []).trans (List.append_nil _)
    rw [trim_append_blank s hv, startsBlank_append hne]
    simp only [← List.append_assoc, hskip]

theorem layout_text_cons_blank_append {w : Text} (hw : w.isBlank = true) (s : Text)
    (ns : List (Node Unit)) : layout (.text (w ++ s) :: ns) = layout (.text s :: ns) := by
  rw [layout, layout, itemsAll, itemsAll, items, items, stretches_textItems_blank_append hw]

theorem layout_concat_text_append_blank {v : Text} (hv : v.isBlank = true) (s : Text)
    (ns : List (Node Unit)) : layout (ns ++ [.text (s ++ v)]) = layout (ns ++ [.text s]) := by
  have hlast : ∀ r : Text, itemsAll [Node.text r] = textItems r := fun r => List.append_nil _
  rw [layout, layout, itemsAll_append, itemsAll_append, hlast, hlast,
    stretches_append_textItems_blank hv]

/-- An empty text makes no difference at the front. -/
theorem layout_run_append (s : Text) (ns : List (Node Unit)) :
    layout (Node.run s ++ ns) = layout (.text s :: ns) := by
  cases s <;> rfl

theorem layout_append_run (s : Text) (ns : List (Node Unit)) :
    layout (ns ++ Node.run s) = layout (ns ++ [.text s]) := by
  cases s with
  | cons c s => rfl
  | nil =>
    have hlast : stretches (itemsAll ns ++ [none]) = stretches (itemsAll ns) :=
      (stretches_append_none (itemsAll ns) []).trans (List.append_nil _)
    have hempty : itemsAll [Node.text []] = [none] := rfl
    rw [layout, layout, itemsAll_append, itemsAll_append, hempty, hlast]
    exact congrArg (List.map Line.ofItems ∘ stretches) (List.append_nil _)

/-! ## The lines of a text -/

def bodyLines (t : Text) : Option (List Line) :=
  (Nesting.empty.outcome (Token.ofText .start t)).map fun f => layout (unplacedAll f)

theorem outcome_position (p q : Position) (t : Text) :
    (Nesting.empty.outcome (Token.ofText p t)).map unplacedAll =
      (Nesting.empty.outcome (Token.ofText q t)).map unplacedAll := by
  have h := Nesting.outcome_congr (g := id) (.refl .empty) (Token.relabel_ofText id p q t)
  have hid : relabelAll id = unplacedAll (π := Position) := funext relabelAll_id
  rwa [hid] at h

theorem bodyLines_eq (p : Position) (t : Text) :
    bodyLines t =
      (Nesting.empty.outcome (Token.ofText p t)).map fun f => layout (unplacedAll f) := by
  have h := congrArg (Option.map layout) (outcome_position .start p t)
  rwa [Option.map_map, Option.map_map] at h

theorem bodyLines_of_read {p : Position} {t : Text} {f : Forest} {ws : List Warning}
    (h : Forest.read p t = .ok (f, ws)) : bodyLines t = some (layout (unplacedAll f)) := by
  rw [bodyLines_eq p, Forest.exists_read_iff.1 ⟨ws, h⟩]
  rfl

theorem exists_read_of_bodyLines {t : Text} {ls : List Line} (h : bodyLines t = some ls)
    (p : Position) : ∃ f ws, Forest.read p t = .ok (f, ws) ∧ layout (unplacedAll f) = ls := by
  rw [bodyLines_eq p, Option.map_eq_some_iff] at h
  obtain ⟨f, houtcome, hls⟩ := h
  obtain ⟨ws, hread⟩ := Forest.exists_read_iff.2 houtcome
  exact ⟨f, ws, hread, hls⟩

theorem bodyLines_blank_append {w : Text} (hw : w.isBlank = true) (t : Text) :
    bodyLines (w ++ t) = bodyLines t := by
  obtain ⟨s, u, rfl, hs, hu⟩ : ∃ s u, t = s ++ u ∧ Lacks startsTag s ∧
      (u = [] ∨ startsTag u = true) :=
    ⟨_, _, (breakAt_append startsTag t).symm, pattern_startsTag.lacks_breakAt_fst t,
      breakAt_snd startsTag t⟩
  have hlines : ∀ r : Text, Lacks startsTag r → bodyLines (r ++ u) =
      ((Nesting.empty.outcome (Token.ofText .start u)).map unplacedAll).map fun ns =>
        layout (.text r :: ns) := by
    intro r hr
    rw [bodyLines, Token.ofText_run hr hu, Nesting.outcome_run_append, outcome_position .start
      (Position.start.after r), Option.map_map, Option.map_map]
    congr 1
    funext f
    exact (congrArg layout (unplacedAll_run_append r f)).trans (layout_run_append r _)
  rw [← List.append_assoc, hlines s hs, hlines _ ((pattern_startsTag.loose.blank_append hw).2 hs)]
  simp only [layout_text_cons_blank_append hw]

theorem bodyLines_append_blank {v : Text} (hv : v.isBlank = true) (t : Text) :
    bodyLines (t ++ v) = bodyLines t := by
  rw [bodyLines, bodyLines]
  rcases Token.ofText_append_blank hv .start t with
    ⟨toks, s, h, h'⟩ | ⟨toks, name, q, h, name', h'⟩
  · rw [h, h', Nesting.outcome_append_run, Nesting.outcome_append_run, Option.map_map,
      Option.map_map]
    congr 1
    funext f
    change layout (unplacedAll (f ++ Node.run (s ++ v))) = layout (unplacedAll (f ++ Node.run s))
    rw [unplacedAll_append_run, unplacedAll_append_run, layout_append_run, layout_append_run,
      layout_concat_text_append_blank hv]
  · rw [h, h', Nesting.outcome_append_unterminated, Nesting.outcome_append_unterminated]

end TemplLayout
