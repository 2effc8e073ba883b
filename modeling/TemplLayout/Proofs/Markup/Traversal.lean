import TemplLayout.Proofs.Markup.Derivation
import TemplLayout.Proofs.Markup.Nesting
import TemplLayout.Proofs.Markup.Span

/-!
# TemplLayout.Proofs.Markup.Traversal

A forest in preorder is the text that it was read from.

* `Node.preorderAll ns`  — the texts and the elements of the forest, each element before its children.
* `Node.postorderAll ns` — the elements of the forest, each of them behind its children.
* `Nesting.listed s`     — the preorder of what has been read so far, open elements included.
* `Span.listed p xs`     — the runs of text and the opening tags among the spans, which stand at `p`.

Spilling an element moves its content behind it and so keeps the preorder. Hence every token adds its
own entry to what is listed and changes nothing of what has been listed before
(`preorderAll_outcome`), and a forest that was read lists the spans of its text
(`preorder_read`). In preorder the elements stand at rising positions (`rising_preorder`).
-/

namespace TemplLayout

open Text

/-- A node without its children. -/
inductive Entry (π : Type) where
  | text (content : Text)
  | element (tag : Tag) (place : π)
deriving DecidableEq, Repr

namespace Node

variable {π : Type}

mutual

def preorder : Node π → List (Entry π)
  | .text content => [.text content]
  | .element tag place children => .element tag place :: preorderAll children

def preorderAll : List (Node π) → List (Entry π)
  | [] => []
  | n :: ns => n.preorder ++ preorderAll ns

end

mutual

def postorder : Node π → List (Node π)
  | .text _ => []
  | .element tag place children => postorderAll children ++ [.element tag place children]

def postorderAll : List (Node π) → List (Node π)
  | [] => []
  | n :: ns => n.postorder ++ postorderAll ns

end

theorem preorderAll_append (ms ns : List (Node π)) :
    preorderAll (ms ++ ns) = preorderAll ms ++ preorderAll ns := by
  induction ms with
  | nil => rfl
  | cons m ms ih => rw [List.cons_append, preorderAll, preorderAll, ih, List.append_assoc]

def place? : Node π → Option π
  | .text _ => none
  | .element _ place _ => some place

end Node

def Entry.text? {π : Type} : Entry π → Option Text
  | .text content => some content
  | .element _ _ => none

def Entry.place? {π : Type} : Entry π → Option π
  | .text _ => none
  | .element _ place => some place

/-- The two orders have the same elements. -/
theorem places_postorder_perm {π : Type} (ns : List (Node π)) :
    ((Node.postorderAll ns).filterMap Node.place?).Perm
      ((Node.preorderAll ns).filterMap Entry.place?) := by
  induction ns using forest_induction with
  | nil => exact .nil
  | text content ns ih => exact ih
  | element tag place children ns ihc ihs =>
    simp only [Node.postorderAll, Node.postorder, Node.preorderAll, Node.preorder,
      List.filterMap_append, List.cons_append, List.filterMap_cons, Entry.place?]
    refine (List.Perm.append_right _ ?_).trans (List.Perm.append_left (place :: _) ihs)
    exact List.perm_append_comm.trans (ihc.cons place)

/-! ## One token -/

open Node

/-- What a token adds to a forest. A closing tag adds nothing. -/
def Token.entry? : Token → Option (Entry Position)
  | .text content => some (.text content)
  | .mark (.opening tag) p => some (.element tag p)
  | _ => none

namespace Nesting

/-- The open elements and their children so far, outermost element first. -/
def openListed (opened : List OpenElement) : List (Entry Position) :=
  opened.reverse.flatMap fun e => .element e.tag e.position :: preorderAll e.children.reverse

theorem openListed_cons (e : OpenElement) (outer : List OpenElement) :
    openListed (e :: outer) =
      openListed outer ++ .element e.tag e.position :: preorderAll e.children.reverse := by
  simp [openListed]

def listed (s : Nesting) : List (Entry Position) :=
  preorderAll s.outside.reverse ++ openListed s.opened

theorem listed_push (s : Nesting) (n : Node Position) : (s.push n).listed = s.listed ++ n.preorder := by
  obtain ⟨_ | ⟨e, outer⟩, outside, warnings⟩ := s
  · simp [listed, push, openListed, preorderAll_append, preorderAll]
  · simp [listed, push, openListed_cons, preorderAll_append, preorderAll]

theorem preorderAll_spilled (e : OpenElement) (carried : Forest) :
    preorderAll (e.spilled carried) =
      .element e.tag e.position :: (preorderAll e.children.reverse ++ preorderAll carried) := by
  rw [OpenElement.spilled, OpenElement.content_eq, preorderAll, preorderAll_append]
  rfl

theorem listed_unwind {name : Text} {p : Position} {opened outer : List OpenElement}
    {carried content : Forest} {e : OpenElement}
    (h : unwind name p carried opened = .ok (e, content, outer)) :
    openListed outer ++ .element e.tag e.position :: preorderAll content =
      openListed opened ++ preorderAll carried := by
  induction opened generalizing carried with
  | nil => cases h
  | cons f opened ih =>
    rw [unwind] at h
    split at h
    · cases h
      rw [openListed_cons, OpenElement.content_eq, preorderAll_append]
      simp
    · split at h
      · rw [ih h, preorderAll_spilled, openListed_cons]
        simp
      · cases h

theorem listed_settle {opened : List OpenElement} {carried f : Forest}
    (h : settle carried opened = .ok f) :
    preorderAll f = openListed opened ++ preorderAll carried := by
  induction opened generalizing carried with
  | nil =>
    cases h
    rfl
  | cons e opened ih =>
    rw [settle] at h
    split at h
    · rw [ih h, preorderAll_spilled, openListed_cons]
      simp
    · cases h

theorem listed_finish {s : Nesting} {f : Forest} (h : s.finish = .ok f) :
    preorderAll f = s.listed := by
  rw [finish] at h
  cases hsettle : settle [] s.opened with
  | error fault =>
    rw [hsettle] at h
    cases h
  | ok inner =>
    rw [hsettle] at h
    cases h
    rw [List.reverseAux_eq, preorderAll_append, listed_settle hsettle, preorderAll, List.append_nil,
      listed]

theorem listed_step {s s' : Nesting} {tok : Token} (h : s.step tok = (s', none)) :
    s'.listed = s.listed ++ tok.entry?.toList := by
  cases tok with
  | text content =>
    cases h
    exact listed_push s _
  | unterminated name p => cases h
  | mark m p =>
    cases m with
    | opening tag =>
      rw [step] at h
      split at h
      · cases h
        exact listed_push s _
      · cases h
        simp [listed, openListed_cons, preorderAll, Token.entry?]
    | closing name =>
      rw [step] at h
      split at h
      · cases h
      · rename_i e content outer hunwind
        cases h
        have hlisted := listed_unwind hunwind
        rw [preorderAll, List.append_nil] at hlisted
        rw [listed_push, listed, listed, preorder, List.append_assoc, hlisted]
        exact (List.append_nil _).symm

/-! ## All tokens -/

theorem listed_feed {s s' : Nesting} {toks : List Token} (h : feed step s toks = (s', none)) :
    s'.listed = s.listed ++ toks.filterMap Token.entry? := by
  induction toks generalizing s with
  | nil =>
    cases h
    simp
  | cons tok toks ih =>
    obtain ⟨s₁, hstep, hrest⟩ := exists_of_feed_cons h
    rw [ih hrest, listed_step hstep, List.append_assoc]
    cases htok : tok.entry? <;> simp [htok]

theorem preorderAll_outcome {s : Nesting} {toks : List Token} {f : Forest}
    (h : s.outcome toks = some f) : preorderAll f = s.listed ++ toks.filterMap Token.entry? := by
  rw [outcome] at h
  split at h
  · rename_i s' hfeed
    rw [← listed_feed hfeed]
    cases hfinish : s'.finish with
    | error fault =>
      rw [hfinish] at h
      cases h
    | ok g =>
      rw [hfinish] at h
      cases h
      exact listed_finish hfinish
  · cases h

end Nesting

/-! ## A text -/

def Span.listed (p : Position) : List Span → List (Entry Position)
  | [] => []
  | .run content :: xs => .text content :: listed (p.after content) xs
  | .tag inner :: xs =>
    match Mark.ofInner inner with
    | .opening t => .element t p :: listed (p.after ('<' :: inner ++ ['>'])) xs
    | .closing _ => listed (p.after ('<' :: inner ++ ['>'])) xs

theorem entries_tokensAll (p : Position) (xs : List Span) :
    (Span.tokensAll p xs).filterMap Token.entry? = Span.listed p xs := by
  induction xs generalizing p with
  | nil => rfl
  | cons x xs ih =>
    cases x with
    | run content =>
      rw [Span.tokensAll, Span.listed, ← ih]
      rfl
    | tag inner =>
      rw [Span.tokensAll, Span.listed, ← ih, Span.token, Span.spell]
      cases Mark.ofInner inner <;> rfl

theorem preorderAll_read {p : Position} {t : Text} {f : Forest} {ws : List Warning}
    (h : Forest.read p t = .ok (f, ws)) :
    preorderAll f = (Token.ofText p t).filterMap Token.entry? :=
  Nesting.preorderAll_outcome (Forest.exists_read_iff.1 ⟨ws, h⟩)

/-- The elements of a forest that was read stand where their tags do. -/
theorem rising_preorder {p : Position} {t : Text} {f : Forest} {ws : List Warning}
    (h : Forest.read p t = .ok (f, ws)) :
    Rising p.offset (p.after t).offset ((preorderAll f).filterMap Entry.place?) := by
  have hsub : ∀ toks : List Token,
      ((toks.filterMap Token.entry?).filterMap Entry.place?).Sublist
        (toks.filterMap Token.position?) := by
    intro toks
    induction toks with
    | nil => exact .slnil
    | cons tok toks ih =>
      rcases tok with content | ⟨tag | name, q⟩ | ⟨name, q⟩
      · exact ih
      · exact ih.cons_cons q
      · exact ih.cons q
      · exact ih.cons q
  rw [preorderAll_read h]
  exact (rising_ofText p t).sublist (hsub _)

/-- A text that is read has no tag without an end. -/
theorem exists_markup_of_read {p : Position} {t : Text} {f : Forest} {ws : List Warning}
    (h : Forest.read p t = .ok (f, ws)) : ∃ xs, IsMarkup xs ∧ t = Span.spellAll xs := by
  obtain ⟨xs, hxs, rfl | ⟨u, rfl, hstart, hclose⟩⟩ := exists_markup t
  · exact ⟨xs, hxs, rfl⟩
  · have hsome := Option.isSome_of_mem (Forest.exists_read_iff.1 ⟨ws, h⟩)
    rw [ofText_markup hxs (.inr (.inl hstart)), Token.ofText_unterminated hstart hclose] at hsome
    have hall := ((Nesting.isSome_outcome_iff _ _).1 hsome).1
    exact absurd (hall _ (List.mem_append_right _ (List.mem_singleton_self _))) (by
      simp [Token.isTerminated])

/-- The forest of a text lists the runs of text and the opening tags that the text is made of, however
its elements were closed. A text that can be read is made of runs and tags in some way. -/
theorem preorder_read {p : Position} {t : Text} {f : Forest} {ws : List Warning}
    (h : Forest.read p t = .ok (f, ws)) :
    (∃ xs, IsMarkup xs ∧ t = Span.spellAll xs) ∧
      ∀ xs, IsMarkup xs → t = Span.spellAll xs → preorderAll f = Span.listed p xs := by
  refine ⟨exists_markup_of_read h, ?_⟩
  rintro xs hxs rfl
  rw [preorderAll_read h, ofText_spellAll hxs, entries_tokensAll]

/-- A void element with its own closing tag, two that a tag around them closes, one that closes itself
and one that is open at the end. -/
def voidSpans : List Span :=
  [.tag "p".toList, .run "a".toList, .tag "br".toList, .run "b".toList, .tag "IMG x='>'".toList,
    .run "c".toList, .tag "/p".toList, .tag "BR".toList, .run "d".toList, .tag "/br".toList,
    .tag "hr/".toList, .run " ".toList, .tag "wbr".toList]

theorem preorder_read_voidSpans :
    ∃ f ws, Forest.read .start (Span.spellAll voidSpans) = .ok (f, ws) ∧ f.length = 5 ∧
      preorderAll f = Span.listed .start voidSpans := by
  have hvalue : (Forest.read .start (Span.spellAll voidSpans)).toOption.map (·.1.length) =
      some 5 := by decide +kernel
  cases h : Forest.read .start (Span.spellAll voidSpans) with
  | error fault =>
    rw [h] at hvalue
    cases hvalue
  | ok result =>
    obtain ⟨f, ws⟩ := result
    rw [h] at hvalue
    exact ⟨f, ws, rfl, Option.some.inj hvalue, (preorder_read h).2 voidSpans (by decide +kernel) rfl⟩

end TemplLayout
