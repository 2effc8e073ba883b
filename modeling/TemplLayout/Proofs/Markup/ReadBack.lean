import TemplLayout.Proofs.Markup.Nesting

/-!
# TemplLayout.Proofs.Markup.ReadBack

Reading undoes writing.

* `Nesting.extend s f` — `s` once the forest `f` has been read in it.
* `Written ns t`       — `t` is the forest `ns` as text: every element has both its tags, or closes
  itself, and a closing tag may spell the name in another case.

What is written of a well-formed forest is read back as that forest, at whatever position it stands
and whatever follows (`feed_written`, `read_written`). `Node.spellAll` is one way to write it
(`written_spellAll`). No directive opens in it unless one opens in a text or in an attribute
(`Written.lacks`).
-/

namespace TemplLayout

open Text Node

variable {π : Type} {Q : Text → Prop}

namespace Nesting

def extend (s : Nesting) (f : Forest) : Nesting :=
  match s.opened with
  | [] => ⟨[], f.reverse ++ s.outside, s.warnings ++ Forest.warnings f⟩
  | e :: outer =>
    ⟨{ e with children := f.reverse ++ e.children } :: outer, s.outside,
      s.warnings ++ Forest.warnings f⟩

theorem extend_nil (s : Nesting) : s.extend [] = s := by
  obtain ⟨_ | ⟨e, outer⟩, outside, warnings⟩ := s <;> simp [extend]

theorem extend_append (s : Nesting) (f g : Forest) : s.extend (f ++ g) = (s.extend f).extend g := by
  obtain ⟨_ | ⟨e, outer⟩, outside, warnings⟩ := s <;> simp [extend, Forest.warnings_append]

theorem finish_extend_empty (f : Forest) : (empty.extend f).finish = .ok f := by
  simp [extend, empty, finish, settle, Except.map, List.reverseAux_eq]

theorem warnings_extend_empty (f : Forest) : (empty.extend f).warnings = Forest.warnings f := by
  simp [extend, empty]

/-- `s` inside an element that has just been opened. -/
def enter (s : Nesting) (tag : Tag) (position : Position) : Nesting :=
  { s with opened := ⟨tag, position, []⟩ :: s.opened }

theorem step_text (s : Nesting) (content : Text) :
    s.step (.text content) = (s.extend [.text content], none) := by
  obtain ⟨_ | ⟨e, outer⟩, outside, warnings⟩ := s <;>
    simp [step, push, extend, Forest.warnings, loadedAll, loaded]

theorem step_leaf (s : Nesting) {tag : Tag} (h : tag.selfClosed = true) (p : Position) :
    s.step (.mark (.opening tag) p) = (s.extend [.element tag p []], none) := by
  obtain ⟨_ | ⟨e, outer⟩, outside, warnings⟩ := s <;>
    simp [step, h, push, extend, Forest.warnings, loadedAll, loaded]

theorem step_opening (s : Nesting) {tag : Tag} (h : tag.selfClosed = false) (p : Position) :
    s.step (.mark (.opening tag) p) = (s.enter tag p, none) := by
  simp [step, h, enter]

theorem step_closing (s : Nesting) {tag : Tag} {name : Text} (h : sameName tag.name name = true)
    (p q : Position) (f : Forest) :
    ((s.enter tag p).extend f).step (.mark (.closing name) q) =
      (s.extend [.element tag p f], none) := by
  have hw := Forest.warnings_element ⟨tag, p, f.reverse⟩ f
  obtain ⟨_ | ⟨e, outer⟩, outside, warnings⟩ := s <;>
    simp [enter, extend, step, unwind, h, push, OpenElement.content_eq, hw, warningsOf]

end Nesting

inductive Written : List (Node π) → Text → Prop
  | nil : Written [] []
  | text {content t : Text} {ns : List (Node π)} : Written ns t →
      Written (.text content :: ns) (content ++ t)
  | leaf {tag : Tag} {place : π} {t : Text} {ns : List (Node π)} : tag.selfClosed = true →
      Written ns t → Written (.element tag place [] :: ns) (tag.spell ++ t)
  | element {tag : Tag} {place : π} {body name t : Text} {children ns : List (Node π)} :
      tag.selfClosed = false → Written children body → sameName tag.name name = true →
      Written ns t →
      Written (.element tag place children :: ns) (tag.spell ++ (body ++ (closingTag name ++ t)))

theorem written_spellAll {ns : List (Node π)} (h : WellFormedAll Q ns) :
    Written ns (spellAll ns) := by
  induction ns using forest_induction with
  | nil => exact .nil
  | text content ns ih => exact .text (ih (wellFormedAll_cons.1 h).2.2)
  | element tag place children ns ihc ihs =>
    obtain ⟨hn, -, hns⟩ := wellFormedAll_cons.1 h
    obtain ⟨htag, -, hclosed, hchildren⟩ := wellFormed_element_iff.1 hn
    rw [spellAll, spell]
    cases hself : tag.selfClosed with
    | true =>
      rw [hclosed hself, if_pos rfl, List.append_nil]
      exact .leaf hself (ihs hns)
    | false =>
      rw [if_neg (by simp), Tag.spellClosing_eq, List.append_assoc, List.append_assoc]
      exact .element hself (ihc hchildren) (by simp [sameName]) (ihs hns)

/-- What is written in front of a tag or at the end begins with a tag, unless it begins with a
text. -/
theorem Written.starts {ns : List (Node π)} {t u : Text} (h : Written ns t)
    (hns : WellFormedAll Q ns) (hlead : ∀ n ∈ ns.head?, n.isElement = true)
    (hu : u = [] ∨ startsTag u = true) : t ++ u = [] ∨ startsTag (t ++ u) = true := by
  have htag : ∀ {tag : Tag} {place : π} {children ns : List (Node π)},
      WellFormedAll Q (.element tag place children :: ns) → tag.WellFormed := by
    intro tag place children ns h
    exact (wellFormed_element_iff.1 (wellFormedAll_cons.1 h).1).1
  cases h with
  | nil => exact hu
  | text _ => exact absurd (hlead _ rfl) (by simp [isElement])
  | leaf _ _ =>
    rw [List.append_assoc]
    exact .inr (startsTag_spell (htag hns) _)
  | element _ _ _ _ =>
    rw [List.append_assoc]
    exact .inr (startsTag_spell (htag hns) _)

theorem feed_written {ns : List (Node π)} {t : Text} (h : Written ns t)
    (hns : WellFormedAll Q ns) (u : Text) (hu : u = [] ∨ startsTag u = true) (s : Nesting)
    (p : Position) :
    ∃ f : Forest, unplacedAll f = unplacedAll ns ∧
      feed Nesting.step s (Token.ofText p (t ++ u)) =
        feed Nesting.step (s.extend f) (Token.ofText (p.after t) u) := by
  induction h generalizing s p u with
  | nil => exact ⟨[], rfl, by rw [Nesting.extend_nil]; rfl⟩
  | @text content t ns h ih =>
    obtain ⟨hn, hlead, hns⟩ := wellFormedAll_cons.1 hns
    obtain ⟨hne, htag, -⟩ : content ≠ [] ∧ Lacks startsTag content ∧ Q content := by
      cases hn
      exact ⟨‹_›, ‹_›, ‹_›⟩
    have hhead : ∀ n ∈ ns.head?, n.isElement = true := by
      intro n hn
      exact (hlead n hn).resolve_left (by simp [isElement])
    have hrun : Token.run content = [.text content] := by simp [Token.run, hne]
    obtain ⟨f, hf, hfeed⟩ := ih hns u hu (s.extend [.text content]) (p.after content)
    refine ⟨.text content :: f, by rw [unplacedAll, hf]; rfl, ?_⟩
    rw [List.append_assoc, Token.ofText_run htag (h.starts hns hhead hu), hrun,
      List.singleton_append, feed_cons _ (Nesting.step_text s content), hfeed,
      ← Nesting.extend_append, Position.after_append]
    rfl
  | @leaf tag place t ns hself h ih =>
    obtain ⟨hn, -, hns⟩ := wellFormedAll_cons.1 hns
    obtain ⟨htag, -⟩ := wellFormed_element_iff.1 hn
    obtain ⟨f, hf, hfeed⟩ := ih hns u hu (s.extend [.element tag p []]) (p.after tag.spell)
    refine ⟨.element tag p [] :: f, by rw [unplacedAll, hf]; rfl, ?_⟩
    rw [List.append_assoc, Token.ofText_spell htag, feed_cons _ (Nesting.step_leaf s hself p),
      hfeed, ← Nesting.extend_append, Position.after_append]
    rfl
  | @element tag place body name t children ns hopen hbody hsame h ihc ihs =>
    obtain ⟨hn, -, hns⟩ := wellFormedAll_cons.1 hns
    obtain ⟨htag, -, -, hchildren⟩ := wellFormed_element_iff.1 hn
    have hname := htag.name.of_sameName hsame
    -- The children come to an end at the closing tag.
    obtain ⟨g, hg, hfeedc⟩ := ihc hchildren (closingTag name ++ (t ++ u))
      (.inr (startsTag_closingTag hname _)) (s.enter tag p) (p.after tag.spell)
    obtain ⟨f, hf, hfeeds⟩ := ihs hns u hu (s.extend [.element tag p g])
      (((p.after tag.spell).after body).after (closingTag name))
    refine ⟨.element tag p g :: f, ?_, ?_⟩
    · rw [unplacedAll, hf, unplaced, hg]
      rfl
    · simp only [List.append_assoc]
      rw [Token.ofText_spell htag, feed_cons _ (Nesting.step_opening s hopen p), hfeedc,
        Token.ofText_closingTag hname, feed_cons _ (Nesting.step_closing s hsame p _ g), hfeeds,
        ← Nesting.extend_append]
      simp only [Position.after_append]
      rfl

/-- What is written of a well-formed forest is read back, wherever it stands. -/
theorem feed_written_all {ns : List (Node π)} {t : Text} (h : Written ns t)
    (hns : WellFormedAll Q ns) (p : Position) :
    ∃ f : Forest, unplacedAll f = unplacedAll ns ∧
      feed Nesting.step .empty (Token.ofText p t) = (Nesting.empty.extend f, none) := by
  obtain ⟨f, hf, hfeed⟩ := feed_written h hns [] (.inl rfl) .empty p
  rw [List.append_nil, Token.ofText_nil] at hfeed
  exact ⟨f, hf, hfeed⟩

theorem read_written {ns : List (Node π)} {t : Text} (h : Written ns t)
    (hns : WellFormedAll Q ns) (p : Position) :
    ∃ f : Forest, unplacedAll f = unplacedAll ns ∧
      Forest.read p t = .ok (f, Forest.warnings f) := by
  obtain ⟨f, hf, hfeed⟩ := feed_written_all h hns p
  refine ⟨f, hf, ?_⟩
  rw [Forest.read, hfeed]
  simp [Nesting.finish_extend_empty, Nesting.warnings_extend_empty, Except.map]

/-! ## Delimiters in what is written -/

theorem lacks_spell {tag : Tag} (h : tag.WellFormed) (ha : Lacks opensDirective tag.attrs) :
    Lacks opensDirective tag.spell := by
  have hname : Lacks opensDirective ('<' :: tag.name) := by
    refine pattern_opensDirective.lacks_of_not_mem fun hmem => ?_
    rcases List.mem_cons.1 hmem with heq | hmem
    · exact absurd heq (by decide)
    · exact absurd (h.name.chars _ hmem) (by decide)
  have hattrs : Lacks opensDirective (if tag.attrs.isEmpty then [] else ' ' :: tag.attrs) := by
    split
    · exact pattern_opensDirective.lacks_nil
    · exact lacks_cons.2 ⟨rfl, ha⟩
  have hend : Lacks opensDirective (if tag.selfClosed then ['/', '>'] else ['>']) :=
    pattern_opensDirective.lacks_of_not_mem (by split <;> decide)
  refine pattern_opensDirective.lacks_append ?_ hend (seam_pair (.inl ?_))
  · refine pattern_opensDirective.lacks_append hname hattrs (seam_pair (.inl ?_))
    split <;> simp
  · split <;> simp

theorem lacks_closingTag {name : Text} (h : IsName name) :
    Lacks opensDirective (closingTag name) := by
  refine pattern_opensDirective.lacks_of_not_mem fun hmem => ?_
  simp only [closingTag, List.cons_append, List.mem_cons, List.mem_append, List.not_mem_nil,
    or_false] at hmem
  rcases hmem with heq | heq | hmem | heq
  · exact absurd heq (by decide)
  · exact absurd heq (by decide)
  · exact absurd (h.chars _ hmem) (by decide)
  · exact absurd heq (by decide)

/-- What begins with `<` or is empty opens no directive together with what stands before it. -/
theorem Written.head_ne {ns : List (Node π)} {t : Text} (h : Written ns t)
    (hlead : ∀ n ∈ ns.head?, n.isElement = true) : ∀ c ∈ t.head?, c ≠ '%' := by
  cases h with
  | nil => simp
  | text _ => exact absurd (hlead _ rfl) (by simp [isElement])
  | leaf _ _ => simp [Tag.spell, Tag.lead]
  | element _ _ _ _ => simp [Tag.spell, Tag.lead]

theorem Written.lacks {ns : List (Node π)} {t : Text} (h : Written ns t)
    (hns : WellFormedAll (Lacks opensDirective) ns) : Lacks opensDirective t := by
  have hspell : ∀ (tag : Tag), ∀ c ∈ tag.spell.getLast?, c ≠ '{' := by
    intro tag
    rw [Tag.spell_eq, List.getLast?_concat]
    simp
  induction h with
  | nil => exact pattern_opensDirective.lacks_nil
  | @text content t ns h ih =>
    obtain ⟨hn, hlead, hns⟩ := wellFormedAll_cons.1 hns
    cases hn with
    | text hne hs hq =>
      refine pattern_opensDirective.lacks_append hq (ih hns) (seam_pair (.inl (h.head_ne ?_)))
      intro n hn
      exact (hlead n hn).resolve_left (by simp [isElement])
  | @leaf tag place t ns hself h ih =>
    obtain ⟨hn, -, hns⟩ := wellFormedAll_cons.1 hns
    obtain ⟨htag, hq, -⟩ := wellFormed_element_iff.1 hn
    exact pattern_opensDirective.lacks_append (lacks_spell htag hq) (ih hns)
      (seam_pair (.inr (hspell tag)))
  | @element tag place body name t children ns hopen hbody hsame h ihc ihs =>
    obtain ⟨hn, -, hns⟩ := wellFormedAll_cons.1 hns
    obtain ⟨htag, hq, -, hchildren⟩ := wellFormed_element_iff.1 hn
    have hname := htag.name.of_sameName hsame
    have hrest : Lacks opensDirective (closingTag name ++ t) :=
      pattern_opensDirective.lacks_append (lacks_closingTag hname) (ihs hns)
        (seam_pair (.inr (by rw [closingTag, List.getLast?_concat]; simp)))
    have hinner := pattern_opensDirective.lacks_append (ihc hchildren) hrest
      (seam_pair (.inl (by simp [closingTag])))
    exact pattern_opensDirective.lacks_append (lacks_spell htag hq) hinner
      (seam_pair (.inr (hspell tag)))

end TemplLayout
