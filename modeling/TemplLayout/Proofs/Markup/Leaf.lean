import Mathlib.Data.List.Nodup
import TemplLayout.Proofs.Markup.Closing
import TemplLayout.Proofs.Markup.Edges

/-!
# TemplLayout.Proofs.Markup.Leaf

A void element that is left open is a leaf.

* `isLeafAt b tag p`   — the tag at `p` is the tag of a void element, and `b` is that place. With
  `none` there is no such tag.
* `blurred b`          — of a node, a token, a fault or a warning: the same without its position, and
  with the tag at `b` closing itself.
* `Nesting.blurred b`  — the nesting as it would be if that tag had closed itself: no element is open
  for it, and what it has collected stands behind it.
* `Forest.blurred b r` — what has been read, or the fault, blurred.

As long as the element at `b` gets no closing tag of its own, blurred nestings and blurred tokens run
like those that they come from (`step_blurred`, `feed_blurred`): where the open element is spilled, its
content already stands where it belongs in the blurred nesting (`closing_pushAll`). So the forest of the
blurred tokens is the blurred forest (`ofTokens_blurred`), and it is the same forest with `none` when the
tag is written as one that closes itself (`read_leaf`).
-/

namespace TemplLayout

open Text Node

variable {b : Option Position}

/-! ## Without positions -/

def isLeafAt (b : Option Position) (tag : Tag) (p : Position) : Bool :=
  b == some p && isVoid tag.name

def Tag.blurred (b : Option Position) (tag : Tag) (p : Position) : Tag :=
  { tag with selfClosed := tag.selfClosed || isLeafAt b tag p }

namespace Node

mutual

def blurred (b : Option Position) : Node Position → Node Position
  | .text content => .text content
  | .element tag p children => .element (tag.blurred b p) .start (blurredAll b children)

def blurredAll (b : Option Position) : Forest → Forest
  | [] => []
  | n :: ns => n.blurred b :: blurredAll b ns

end

theorem blurredAll_eq_map (b : Option Position) (ns : Forest) :
    blurredAll b ns = ns.map (blurred b) := by
  induction ns with
  | nil => rfl
  | cons n ns ih => rw [blurredAll, ih, List.map_cons]

theorem isBlank_blurred (b : Option Position) (n : Node Position) :
    (n.blurred b).isBlank = n.isBlank := by
  cases n <;> rfl

end Node

def Token.blurred (b : Option Position) : Token → Token
  | .text content => .text content
  | .mark (.opening tag) p => .mark (.opening (tag.blurred b p)) .start
  | .mark (.closing name) _ => .mark (.closing name) .start
  | .unterminated name _ => .unterminated name .start

def Warning.blurred (w : Warning) : Warning :=
  ⟨w.tag, .start⟩

def Fault.blurred : Fault → Fault
  | .unterminatedDirective _ => .unterminatedDirective .start
  | .missingPackage _ => .missingPackage .start
  | .duplicatePackage _ _ => .duplicatePackage .start .start
  | .malformedDirective keyword _ => .malformedDirective keyword .start
  | .unexpectedDirective directive _ => .unexpectedDirective directive .start
  | .nestedTempl outer _ => .nestedTempl outer .start
  | .unterminatedTempl name _ => .unterminatedTempl name .start
  | .mismatchedTag opened closed _ => .mismatchedTag opened closed .start
  | .unexpectedClosingTag tag _ => .unexpectedClosingTag tag .start
  | .unclosedElement tag _ => .unclosedElement tag .start
  | .unterminatedTag tag _ => .unterminatedTag tag .start

/-- A result with its fault blurred. -/
def blurredWith {α β : Type} (k : α → β) : Except Fault α → Except Fault β
  | .error fault => .error fault.blurred
  | .ok a => .ok (k a)

def OpenElement.blurred (b : Option Position) (e : OpenElement) : OpenElement :=
  ⟨e.tag.blurred b e.position, .start, blurredAll b e.children⟩

namespace Nesting

/-- Puts nodes, the latest of them first, into the innermost open element. -/
def pushAll (s : Nesting) (ns : Forest) : Nesting :=
  match s.opened with
  | [] => { s with outside := ns ++ s.outside }
  | e :: outer => { s with opened := { e with children := ns ++ e.children } :: outer }

/-- Puts an open element into a blurred nesting. One at `b` comes in as a leaf, with what it has
collected behind it. -/
def reopen (b : Option Position) (e : OpenElement) (s : Nesting) : Nesting :=
  if isLeafAt b e.tag e.position then
    s.pushAll (blurredAll b (e.children ++ [.element e.tag e.position []]))
  else { s with opened := e.blurred b :: s.opened }

def blurred (b : Option Position) (s : Nesting) : Nesting :=
  s.opened.foldr (reopen b) ⟨[], blurredAll b s.outside, s.warnings.map Warning.blurred⟩

variable {s s' : Nesting}

theorem blurred_cons (e : OpenElement) (outer : List OpenElement) (outside : Forest)
    (ws : List Warning) :
    blurred b ⟨e :: outer, outside, ws⟩ = reopen b e (blurred b ⟨outer, outside, ws⟩) := rfl

theorem pushAll_cons (s : Nesting) (n : Node Position) (ns : Forest) :
    s.pushAll (n :: ns) = (s.pushAll ns).push n := by
  obtain ⟨_ | ⟨e, outer⟩, outside, ws⟩ := s <;> rfl

theorem push_blurred (s : Nesting) (n : Node Position) :
    (s.push n).blurred b = (s.blurred b).push (n.blurred b) := by
  obtain ⟨_ | ⟨e, outer⟩, outside, ws⟩ := s
  · rfl
  · rw [push, blurred_cons, blurred_cons, reopen, reopen]
    split
    · exact pushAll_cons _ _ _
    · rfl

/-! ## One token -/

/-- The element that a closing tag closes, its content, and the nesting around it. The children so far
are part of the content, so the element is given as it was opened. -/
def closing (s : Nesting) (name : Text) (p : Position) (carried : Forest) :
    Except Fault (OpenElement × Forest × Nesting) :=
  (unwind name p carried s.opened).map fun (e, content, outer) =>
    (⟨e.tag, e.position, []⟩, content, ⟨outer, s.outside, s.warnings⟩)

theorem step_closing_eq (s : Nesting) (name : Text) (p : Position) :
    s.step (.mark (.closing name) p) =
      match s.closing name p [] with
      | .error fault => (s, some fault)
      | .ok (e, content, s') =>
        (push { s' with warnings := s'.warnings ++ warningsOf e content }
          (.element e.tag e.position content), none) := by
  rw [step, closing]
  cases unwind name p [] s.opened <;> rfl

theorem closing_cons (e : OpenElement) (outer : List OpenElement) (outside : Forest)
    (ws : List Warning) (name : Text) (p : Position) (carried : Forest) :
    closing ⟨e :: outer, outside, ws⟩ name p carried =
      if sameName e.tag.name name then
        .ok (⟨e.tag, e.position, []⟩, e.content carried, ⟨outer, outside, ws⟩)
      else if isVoid e.tag.name then closing ⟨outer, outside, ws⟩ name p (e.spilled carried)
      else .error (.mismatchedTag e.tag.name name p) := by
  rw [closing, unwind]
  split
  · rfl
  · split <;> rfl

/-- What is carried out of an element may as well be among the children of the next one before. -/
theorem closing_pushAll (s : Nesting) (ns : Forest) (name : Text) (p : Position)
    (carried : Forest) :
    (s.pushAll ns).closing name p carried = s.closing name p (ns.reverse ++ carried) := by
  obtain ⟨_ | ⟨e, outer⟩, outside, ws⟩ := s
  · rfl
  · rw [pushAll, closing_cons, closing_cons]
    simp [OpenElement.content_eq, OpenElement.spilled]

theorem content_blurred (e : OpenElement) (carried : Forest) :
    (e.blurred b).content (blurredAll b carried) = blurredAll b (e.content carried) := by
  simp [OpenElement.content_eq, OpenElement.blurred, blurredAll_eq_map]

theorem spilled_blurred (e : OpenElement) (carried : Forest) :
    (e.blurred b).spilled (blurredAll b carried) = blurredAll b (e.spilled carried) := by
  rw [OpenElement.spilled, content_blurred, OpenElement.spilled, blurredAll, Node.blurred]
  rfl

theorem reverse_blurred_append (e : OpenElement) (carried : Forest) :
    (blurredAll b (e.children ++ [.element e.tag e.position []])).reverse ++ blurredAll b carried =
      blurredAll b (e.spilled carried) := by
  simp [OpenElement.spilled, OpenElement.content_eq, blurredAll_eq_map]

def blurredFound (b : Option Position) :
    OpenElement × Forest × Nesting → OpenElement × Forest × Nesting :=
  fun (e, content, s) => (e.blurred b, blurredAll b content, s.blurred b)

theorem closing_blurred {name : Text} {p : Position} {carried : Forest}
    (h : ∀ found, s.closing name p carried = .ok found → b ≠ some found.1.position) :
    (s.blurred b).closing name .start (blurredAll b carried) =
      blurredWith (blurredFound b) (s.closing name p carried) := by
  obtain ⟨opened, outside, ws⟩ := s
  induction opened generalizing carried with
  | nil => rfl
  | cons e outer ih =>
    rw [closing_cons] at h
    rw [blurred_cons, closing_cons, reopen]
    by_cases hleaf : isLeafAt b e.tag e.position = true
    · obtain ⟨hb, hvoid⟩ : b = some e.position ∧ isVoid e.tag.name = true := by
        simpa [isLeafAt] using hleaf
      have hname : ¬ sameName e.tag.name name = true := by
        intro hname
        rw [if_pos hname] at h
        exact h _ rfl hb
      rw [if_neg hname, if_pos hvoid] at h ⊢
      rw [if_pos hleaf, closing_pushAll, reverse_blurred_append, ih h]
    · rw [if_neg hleaf, closing_cons, content_blurred, spilled_blurred]
      change (if sameName e.tag.name name then _ else if isVoid e.tag.name then _ else _) = _
      split
      · rfl
      · rename_i hname
        rw [if_neg hname] at h
        split
        · rename_i hvoid
          rw [if_pos hvoid] at h
          exact ih h
        · rfl

theorem warningsOf_blurred (e : OpenElement) (content : Forest) :
    warningsOf (e.blurred b) (blurredAll b content) =
      (warningsOf e content).map Warning.blurred := by
  have hany : (blurredAll b content).any (!·.isBlank) = content.any (!·.isBlank) := by
    rw [blurredAll_eq_map, List.any_map]
    exact List.any_congr rfl fun n => congrArg not (isBlank_blurred b n)
  rw [warningsOf, warningsOf, hany]
  change (if isVoid e.tag.name && _ then _ else _) = _
  split <;> rfl

theorem warnings_blurred (s : Nesting) :
    (s.blurred b).warnings = s.warnings.map Warning.blurred := by
  obtain ⟨opened, outside, ws⟩ := s
  have hpushAll : ∀ (s : Nesting) (ns : Forest), (s.pushAll ns).warnings = s.warnings := by
    rintro ⟨_ | ⟨e, outer⟩, outside, ws⟩ ns <;> rfl
  induction opened with
  | nil => rfl
  | cons e outer ih =>
    rw [blurred_cons, reopen]
    split
    · rw [hpushAll, ih]
    · exact ih

/-- Warnings stay apart from all the rest. -/
theorem blurred_warn (s : Nesting) (ws : List Warning) :
    blurred b { s with warnings := s.warnings ++ ws } =
      { s.blurred b with
        warnings := (s.blurred b).warnings ++ ws.map Warning.blurred } := by
  obtain ⟨opened, outside, warnings⟩ := s
  have hpushAll : ∀ (s : Nesting) (ns : Forest) (ws : List Warning),
      pushAll { s with warnings := s.warnings ++ ws } ns =
        { s.pushAll ns with warnings := (s.pushAll ns).warnings ++ ws } := by
    rintro ⟨_ | ⟨e, outer⟩, outside, warnings⟩ ns ws <;> rfl
  induction opened with
  | nil => simp [blurred]
  | cons e outer ih =>
    rw [blurred_cons, blurred_cons]
    dsimp only at ih ⊢
    rw [ih, reopen, reopen]
    split
    · exact hpushAll _ _ _
    · rfl

theorem closes_closing {name : Text} {p : Position} {found : OpenElement × Forest × Nesting}
    (h : s.closing name p [] = .ok found) :
    s.closes (.mark (.closing name) p) = some found.1.position := by
  rw [closing] at h
  cases hunwind : unwind name p [] s.opened with
  | error fault =>
    rw [hunwind] at h
    cases h
  | ok unwound =>
    rw [hunwind] at h
    cases h
    rw [closes, hunwind]
    rfl

theorem step_blurred {tok : Token} (h : ∀ q ∈ s.closes tok, b ≠ some q) :
    (s.blurred b).step (tok.blurred b) =
      ((s.step tok).1.blurred b, (s.step tok).2.map Fault.blurred) := by
  rcases tok with content | ⟨tag | name, p⟩ | ⟨name, p⟩
  · rw [step, push_blurred]
    rfl
  · obtain ⟨opened, outside, ws⟩ := s
    rw [Token.blurred, step, step]
    by_cases hclosed : tag.selfClosed = true
    · rw [if_pos hclosed, if_pos (by simp [Tag.blurred, hclosed]), push_blurred]
      rfl
    · rw [if_neg hclosed, blurred_cons, reopen]
      by_cases hleaf : isLeafAt b tag p = true
      · rw [if_pos hleaf, if_pos (by simp [Tag.blurred, hleaf])]
        generalize blurred b ⟨opened, outside, ws⟩ = r
        obtain ⟨_ | ⟨e, outer⟩, outside', ws'⟩ := r <;> rfl
      · rw [if_neg hleaf, if_neg (by simp [Tag.blurred, hclosed, hleaf])]
        rfl
  · have hclosing : (s.blurred b).closing name .start [] =
        blurredWith (blurredFound b) (s.closing name p []) :=
      closing_blurred fun found hfound => h _ (closes_closing hfound)
    rw [Token.blurred, step_closing_eq, step_closing_eq, hclosing]
    cases s.closing name p [] with
    | error fault => rfl
    | ok found =>
      obtain ⟨e, content, s'⟩ := found
      simp only [blurredWith, blurredFound, Option.map_none]
      rw [push_blurred, blurred_warn, warningsOf_blurred]
      rfl
  · rfl

/-! ## All tokens -/

theorem closes_of_refused {tok : Token} {fault : Fault} (h : s.step tok = (s', some fault)) :
    s.closes tok = none := by
  rcases tok with content | ⟨tag | name, p⟩ | ⟨name, p⟩
  · rfl
  · rfl
  · rw [step] at h
    split at h
    · rename_i hunwind
      rw [closes, hunwind]
      rfl
    · cases h
  · rfl

theorem feed_blurred {toks : List Token} (h : ∀ q ∈ s.closedBy toks, b ≠ some q) :
    feed step (s.blurred b) (toks.map (Token.blurred b)) =
      ((feed step s toks).1.blurred b, (feed step s toks).2.map Fault.blurred) := by
  induction toks generalizing s with
  | nil => rfl
  | cons tok toks ih =>
    rw [List.map_cons, feed, feed]
    rcases hstep : s.step tok with ⟨s₁, _ | fault⟩
    · rw [closedBy_cons toks hstep] at h
      rw [step_blurred fun q hq => h q (List.mem_append_left _ (by simpa using hq)), hstep]
      exact ih fun q hq => h q (List.mem_append_right _ hq)
    · rw [step_blurred (by simp [closes_of_refused hstep]), hstep]
      rfl

/-- The forest, once the block has ended, with `carried` behind what is open. -/
def ending (s : Nesting) (carried : Forest) : Except Fault Forest :=
  (settle carried s.opened).map s.outside.reverseAux

theorem finish_eq_ending (s : Nesting) : s.finish = s.ending [] := rfl

theorem ending_cons (e : OpenElement) (outer : List OpenElement) (outside : Forest)
    (ws : List Warning) (carried : Forest) :
    ending ⟨e :: outer, outside, ws⟩ carried =
      if isVoid e.tag.name then ending ⟨outer, outside, ws⟩ (e.spilled carried)
      else .error (.unclosedElement e.tag.name e.position) := by
  rw [ending, settle]
  split <;> rfl

theorem ending_pushAll (s : Nesting) (ns carried : Forest) :
    (s.pushAll ns).ending carried = s.ending (ns.reverse ++ carried) := by
  obtain ⟨_ | ⟨e, outer⟩, outside, ws⟩ := s
  · simp [pushAll, ending, settle, Except.map, List.reverseAux_eq]
  · rw [pushAll, ending_cons, ending_cons]
    simp [OpenElement.content_eq, OpenElement.spilled]

theorem ending_blurred (b : Option Position) (opened : List OpenElement) (outside : Forest)
    (ws : List Warning) (carried : Forest) :
    (blurred b ⟨opened, outside, ws⟩).ending (blurredAll b carried) =
      blurredWith (blurredAll b) (ending ⟨opened, outside, ws⟩ carried) := by
  induction opened generalizing carried with
  | nil =>
    simp [blurred, ending, settle, Except.map, blurredWith, List.reverseAux_eq, blurredAll_eq_map]
  | cons e outer ih =>
    rw [blurred_cons, ending_cons, reopen]
    split
    · rename_i hleaf
      have hvoid : isVoid e.tag.name = true := (Bool.and_eq_true_iff.1 hleaf).2
      rw [if_pos hvoid, ending_pushAll, reverse_blurred_append, ih]
    · rw [ending_cons, spilled_blurred]
      change (if isVoid e.tag.name then _ else _) = _
      split
      · exact ih _
      · rfl

end Nesting

namespace Forest

/-- What is read off tokens. -/
def ofTokens (toks : List Token) : Except Fault (Forest × List Warning) :=
  match feed Nesting.step .empty toks with
  | (_, some fault) => .error fault
  | (s, none) => s.finish.map fun forest => (forest, s.warnings)

/-- What was read, or the fault, blurred. -/
def blurred (b : Option Position) :
    Except Fault (Forest × List Warning) → Except Fault (Forest × List Warning) :=
  blurredWith fun (f, ws) => (blurredAll b f, ws.map Warning.blurred)

theorem ofTokens_blurred {toks : List Token}
    (h : ∀ q ∈ Nesting.empty.closedBy toks, b ≠ some q) :
    ofTokens (toks.map (Token.blurred b)) = blurred b (ofTokens toks) := by
  have hfeed := Nesting.feed_blurred h
  rw [show Nesting.empty.blurred b = .empty from rfl] at hfeed
  rw [ofTokens, ofTokens, hfeed]
  rcases feed Nesting.step .empty toks with ⟨⟨opened, outside, ws⟩, _ | fault⟩
  · have hending := Nesting.ending_blurred b opened outside ws []
    rw [blurredAll] at hending
    simp only [Option.map_none, Nesting.finish_eq_ending, hending, Nesting.warnings_blurred]
    cases Nesting.ending ⟨opened, outside, ws⟩ [] <;> rfl
  · rfl

theorem blurred_read {p : Position} {t : Text} (h : ∀ q ∈ closedTags p t, b ≠ some q) :
    blurred b (read p t) = ofTokens ((Token.ofText p t).map (Token.blurred b)) :=
  (ofTokens_blurred h).symm

end Forest

/-! ## A tag of a text -/

/-- A slash in front of the `>` closes the tag and changes nothing else. -/
theorem Tag.ofInner_concat_slash {inner : Text} (hopen : (Tag.ofInner inner).selfClosed = false) :
    Tag.ofInner (inner ++ ['/']) = { Tag.ofInner inner with selfClosed := true } := by
  have hname : (inner ++ ['/']).takeWhile isNameChar = inner.takeWhile isNameChar := by
    rw [List.takeWhile_append]
    split
    · rename_i hall
      rw [List.takeWhile_cons_of_neg (by decide), List.append_nil]
      exact ((List.takeWhile_prefix isNameChar).eq_of_length hall).symm
    · rfl
  have hbody : (inner ++ ['/']).dropWhile isNameChar = inner.dropWhile isNameChar ++ ['/'] := by
    rw [List.dropWhile_append]
    split
    · rename_i hnil
      rw [List.isEmpty_iff.1 hnil]
      rfl
    · rfl
  have hend : Text.trimEnd (inner.dropWhile isNameChar ++ ['/']) =
      inner.dropWhile isNameChar ++ ['/'] :=
    trimEnd_eq (endsBlank_append (List.cons_ne_nil _ _))
  rw [Tag.ofInner, hname, hbody, hend, if_pos List.getLast?_concat, List.dropLast_concat]
  rw [Tag.ofInner] at hopen ⊢
  split
  · rename_i hslash
    rw [if_pos hslash] at hopen
    cases hopen
  · rw [trim_trimEnd]

theorem Mark.ofInner_concat_slash {inner : Text} {tag : Tag}
    (hinner : (Span.tag inner).WellFormed) (h : Mark.ofInner inner = .opening tag)
    (hopen : tag.selfClosed = false) :
    (Span.tag (inner ++ ['/'])).WellFormed ∧
      Mark.ofInner (inner ++ ['/']) = .opening { tag with selfClosed := true } := by
  obtain ⟨hstart, hshut⟩ := hinner
  refine ⟨⟨pattern_startsTag.found_append ['/'] hstart, ?_⟩, ?_⟩
  · exact (shut_append_singleton plain_slash (by simp)).2 hshut
  · have hclosed : startsTag ('<' :: (inner ++ ['>'])) = true := startsTag_inner_iff.2 hstart
    obtain ⟨c, u, hc, rfl | rfl⟩ := inner_of_startsTag hclosed
    · rw [Mark.ofInner_alpha hc] at h
      obtain rfl := Mark.opening.inj h
      rw [List.cons_append, Mark.ofInner_alpha hc, ← List.cons_append,
        Tag.ofInner_concat_slash hopen]
    · cases h

theorem Token.blurred_none : Token.blurred none = Token.relabel id := by
  funext tok
  rcases tok with content | ⟨tag | name, p⟩ | ⟨name, p⟩
  · rfl
  · simp [Token.blurred, Token.relabel, Tag.blurred, isLeafAt]
  · rfl
  · rfl

theorem map_blurred_of_not_mem {q : Position} {toks : List Token}
    (h : q ∉ toks.filterMap Token.position?) :
    toks.map (Token.blurred (some q)) = toks.map (Token.blurred none) := by
  refine List.map_congr_left fun tok htok => ?_
  rcases tok with content | ⟨tag | name, p⟩ | ⟨name, p⟩
  · rfl
  · have hne : q ≠ p := by
      rintro rfl
      exact h (List.mem_filterMap.2 ⟨_, htok, rfl⟩)
    simp [Token.blurred, Tag.blurred, isLeafAt, hne]
  · rfl
  · rfl

/-- The tags around the one at `p.after (Span.spellAll xs)` stand elsewhere. -/
theorem not_mem_positions {xs : List Span} {inner : Text} (hxs : IsMarkup xs)
    (hinner : (Span.tag inner).WellFormed) (p : Position) (rest : Text) :
    p.after (Span.spellAll xs) ∉ (Span.tokensAll p xs).filterMap Token.position? ∧
      p.after (Span.spellAll xs) ∉ (Token.ofText
        ((p.after (Span.spellAll xs)).after ('<' :: inner ++ ['>'])) rest).filterMap
          Token.position? := by
  have hrising := rising_ofText p (Span.spellAll xs ++ '<' :: (inner ++ '>' :: rest))
  rw [ofText_tag_append hxs hinner, List.filterMap_append] at hrising
  have hnodup := List.Nodup.of_map _ hrising.nodup
  rw [List.filterMap_cons, Token.position?, List.nodup_middle, List.nodup_cons, List.mem_append,
    not_or] at hnodup
  exact hnodup.1

/-- The tag that closes itself makes the same tokens, when positions do not matter. -/
theorem map_blurred_tag {p : Position} {xs : List Span} {inner inner' : Text} {tag : Tag}
    (hxs : IsMarkup xs) (hinner : (Span.tag inner).WellFormed)
    (hinner' : (Span.tag inner').WellFormed) (hmark : Mark.ofInner inner = .opening tag)
    (hmark' : Mark.ofInner inner' = .opening { tag with selfClosed := true })
    (hvoid : isVoid tag.name = true) (rest : Text) :
    (Token.ofText p (Span.spellAll xs ++ '<' :: (inner ++ '>' :: rest))).map
        (Token.blurred (some (p.after (Span.spellAll xs)))) =
      (Token.ofText p (Span.spellAll xs ++ '<' :: (inner' ++ '>' :: rest))).map
        (Token.blurred none) := by
  obtain ⟨hbefore, hbehind⟩ := not_mem_positions hxs hinner p rest
  rw [ofText_tag_append hxs hinner, ofText_tag_append hxs hinner', List.map_append, List.map_append,
    List.map_cons, List.map_cons, map_blurred_of_not_mem hbefore, map_blurred_of_not_mem hbehind,
    hmark, hmark']
  generalize p.after (Span.spellAll xs) = q
  have hrest := Token.relabel_ofText id (q.after ('<' :: inner ++ ['>']))
    (q.after ('<' :: inner' ++ ['>'])) rest
  have htag : (Token.mark (.opening tag) q).blurred (some q) =
      (Token.mark (.opening { tag with selfClosed := true }) q).blurred none := by
    simp [Token.blurred, Tag.blurred, isLeafAt, hvoid]
  rw [htag, Token.blurred_none, hrest]

/-- A void element whose tag is left open might as well have closed itself there: with a slash in front
of its `>`, the text has the same fault, or the same forest and the same warnings. -/
theorem read_leaf {p q : Position} {t : Text} {tag : Tag}
    (hmem : .mark (.opening tag) q ∈ Token.ofText p t) (hopen : tag.selfClosed = false)
    (hvoid : isVoid tag.name = true) (hleft : q ∉ closedTags p t) :
    (∃ front inner rest, t = front ++ '<' :: (inner ++ '>' :: rest) ∧ q = p.after front ∧
      Shut none inner ∧ Mark.ofInner inner = .opening tag ∧
      Forest.blurred none (Forest.read p (front ++ '<' :: (inner ++ ['/'] ++ '>' :: rest))) =
        Forest.blurred (some q) (Forest.read p t)) ∧
      ∀ f ws, Forest.read p t = .ok (f, ws) →
        ((preorderAll f).filterMap Entry.place?).count q = 1 := by
  refine ⟨?_, fun f ws h => ?_⟩
  · obtain ⟨xs, inner, rest, hxs, hinner, rfl, rfl, hmark⟩ := exists_of_mem_ofText hmem
    obtain ⟨hinner', hmark'⟩ := Mark.ofInner_concat_slash hinner hmark.symm hopen
    refine ⟨_, inner, rest, rfl, rfl, hinner.2, hmark.symm, ?_⟩
    have hnot : ∀ r ∈ closedTags p (Span.spellAll xs ++ '<' :: (inner ++ '>' :: rest)),
        some (p.after (Span.spellAll xs)) ≠ some r := by
      rintro r hr heq
      cases heq
      exact hleft hr
    rw [Forest.blurred_read hnot, Forest.blurred_read (by simp),
      map_blurred_tag hxs hinner hinner' hmark.symm hmark' hvoid]
  · have hnodup := List.Nodup.of_map _ (rising_preorder h).nodup
    refine List.count_eq_one_of_mem hnodup ?_
    rw [preorderAll_read h]
    exact List.mem_filterMap.2 ⟨_, List.mem_filterMap.2 ⟨_, hmem, rfl⟩, rfl⟩

/-- The `br` is open until `</p>`, and another void element in it. -/
def openVoid : Text :=
  "a<p><br class=x>b<img>c</p>d".toList

theorem read_leaf_openVoid :
    ∃ front inner rest, openVoid = front ++ '<' :: (inner ++ '>' :: rest) ∧
      Position.start.after front = ⟨4, 1, 5⟩ ∧
      Forest.blurred none (Forest.read .start (front ++ '<' :: (inner ++ ['/'] ++ '>' :: rest))) =
        Forest.blurred (some ⟨4, 1, 5⟩) (Forest.read .start openVoid) := by
  have hmem : .mark (.opening ⟨"br".toList, "class=x".toList, false⟩) ⟨4, 1, 5⟩ ∈
      Token.ofText .start openVoid := by decide +kernel
  obtain ⟨⟨front, inner, rest, hsplit, hfront, -, -, hread⟩, -⟩ :=
    read_leaf hmem rfl (by decide) (by decide +kernel)
  exact ⟨front, inner, rest, hsplit, hfront.symm, hread⟩

end TemplLayout
