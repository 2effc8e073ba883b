import TemplLayout.Proofs.Markup.Traversal

/-!
# TemplLayout.Proofs.Markup.Front

What stands in front of a tag.

* `Mark.stem m`            — how a tag begins: up to the end of its name.
* `Fault.Faces At f`       — what stands where the fault `f` is and what `f` is about are the same, when
  `At q w` says that `w` stands at `q`.
* `Nesting.Reached p t q w` — in the text `t`, which stands at `p`, the tokens are fed without a fault up
  to `q`, and there `w` stands.

A text in front of one of its tokens has the tokens in front of it and no others (`exists_front`). So
every tag that is fed has been reached (`reached_mark`), and so has the place of the first fault, where
the tag begins that is at fault (`faces_feed`, `faces_finish`).
-/

namespace TemplLayout

open Text

namespace Mark

def stem : Mark → Text
  | .opening tag => '<' :: tag.name
  | .closing name => '<' :: '/' :: name

theorem stem_ofInner (inner : Text) : (ofInner inner).stem <+: '<' :: inner := by
  have hopening : ∀ t : Text, (Mark.opening (Tag.ofInner t)).stem <+: '<' :: t := by
    intro t
    have hname : (Tag.ofInner t).name = t.takeWhile isNameChar := by
      rw [Tag.ofInner]
      split <;> rfl
    rw [stem, hname]
    exact (List.prefix_cons_inj '<').2 (List.takeWhile_prefix isNameChar)
  rw [ofInner.eq_def]
  split
  · exact (List.prefix_cons_inj '<').2
      ((List.prefix_cons_inj '/').2 (List.takeWhile_prefix isNameChar))
  · exact hopening _

end Mark

/-! ## The tokens in front -/

namespace Token

/-- The text that begins with the token. -/
def Begins (rest : Text) : Token → Prop
  | .text content => content <+: rest
  | .mark m _ => m.stem <+: rest
  | .unterminated name _ => ∃ m : Mark, m.name = name ∧ m.stem <+: rest

/-- A run of text is one token or none. -/
theorem cut_run {s : Text} {tok : Token} {toks before after : List Token}
    (h : run s ++ toks = before ++ tok :: after) :
    (before = [] ∧ tok = .text s) ∨
      ∃ before', before = run s ++ before' ∧ toks = before' ++ tok :: after := by
  cases s with
  | nil => exact .inr ⟨before, rfl, h⟩
  | cons c s =>
    cases before with
    | nil =>
      cases h
      exact .inl ⟨rfl, rfl⟩
    | cons first before =>
      cases h
      exact .inr ⟨before, rfl, rfl⟩

theorem exists_front {p : Position} {t : Text} {tok : Token} {before after : List Token}
    (h : ofText p t = before ++ tok :: after) :
    ∃ front rest, t = front ++ rest ∧ ofText p front = before ∧
      (∀ q ∈ tok.position?, q = p.after front) ∧ tok.Begins rest := by
  induction t using markup_induction generalizing p before with
  | last s hs =>
    rw [ofText_last hs, ← List.append_nil (run s)] at h
    rcases cut_run h with ⟨rfl, rfl⟩ | ⟨before', -, htoks⟩
    · exact ⟨[], s, rfl, ofText_nil p, by simp [position?], List.prefix_refl s⟩
    · exact absurd htoks (by simp)
  | tag s inner rest hs hstart hi ih =>
    rw [ofText_run_mark hs hstart hi] at h
    rcases cut_run h with ⟨rfl, rfl⟩ | ⟨before', rfl, htoks⟩
    · exact ⟨[], _, rfl, ofText_nil p, by simp [position?], List.prefix_append s _⟩
    · rcases List.cons_eq_append_iff.1 htoks with ⟨rfl, heq⟩ | ⟨behind, rfl, hbehind⟩
      · cases heq
        refine ⟨s, _, rfl, ?_, by simp [position?], ?_⟩
        · rw [ofText_last hs, List.append_nil]
        · exact (Mark.stem_ofInner inner).trans ⟨'>' :: rest, by simp⟩
      · -- The token stands behind the tag.
        obtain ⟨front, rest', rfl, hfront, hplace, hbegins⟩ := ih hbehind
        refine ⟨s ++ '<' :: (inner ++ '>' :: front), rest', by simp, ?_, ?_, hbegins⟩
        · rw [ofText_run_mark hs hstart hi, hfront]
        · intro q hq
          rw [hplace q hq, ← Position.after_append, ← Position.after_append]
          simp
  | unterminated s u hs hstart hclose =>
    rw [ofText_run hs (.inr hstart), ofText_unterminated hstart hclose] at h
    rcases cut_run h with ⟨rfl, rfl⟩ | ⟨before', rfl, htoks⟩
    · exact ⟨[], _, rfl, ofText_nil p, by simp [position?], List.prefix_append s _⟩
    · rcases List.cons_eq_append_iff.1 htoks with ⟨rfl, heq⟩ | ⟨behind, rfl, hbehind⟩
      · cases heq
        refine ⟨s, _, rfl, ?_, by simp [position?], Mark.ofInner u, rfl, Mark.stem_ofInner u⟩
        rw [ofText_last hs, List.append_nil]
      · exact absurd hbehind (by simp)

end Token

/-! ## Faults in a block -/

namespace Fault

def Faces (At : Position → Text → Prop) : Fault → Prop
  | .unterminatedDirective p | .missingPackage p | .malformedDirective _ p
  | .unexpectedDirective _ p | .nestedTempl _ p | .unterminatedTempl _ p => At p ['{', '%']
  | .duplicatePackage p first => At p ['{', '%'] ∧ At first ['{', '%']
  | .mismatchedTag _ name p | .unexpectedClosingTag name p => At p (Mark.closing name).stem
  | .unclosedElement name p => At p ('<' :: name)
  | .unterminatedTag name p => ∃ m : Mark, m.name = name ∧ At p m.stem

variable {At At' : Position → Text → Prop} {fault : Fault}

theorem Faces.mono (hmono : ∀ p w, At p w → At' p w) (h : fault.Faces At) : fault.Faces At' := by
  cases fault with
  | duplicatePackage p first => exact ⟨hmono _ _ h.1, hmono _ _ h.2⟩
  | unterminatedTag name p =>
    obtain ⟨m, hm, hat⟩ := h
    exact ⟨m, hm, hmono _ _ hat⟩
  | _ => exact hmono _ _ h

theorem Faces.exists_at (h : fault.Faces At) : ∃ w, At fault.position w := by
  cases fault with
  | duplicatePackage p first => exact ⟨_, h.1⟩
  | unterminatedTag name p =>
    obtain ⟨m, -, hat⟩ := h
    exact ⟨_, hat⟩
  | _ => exact ⟨_, h⟩

end Fault

namespace Nesting

def Reached (p : Position) (t : Text) (q : Position) (w : Text) : Prop :=
  ∃ front rest s, t = front ++ (w ++ rest) ∧ q = p.after front ∧
    feed step .empty (Token.ofText p front) = (s, none)

variable {p q : Position} {t : Text} {s s' : Nesting} {tok : Token} {before after : List Token}
  {fault : Fault}

/-- What is fed next has been reached. -/
theorem reached_next (htoks : Token.ofText p t = before ++ tok :: after)
    (hfeed : feed step .empty before = (s, none)) {w : Text} (hq : tok.position? = some q)
    (hw : ∀ rest, tok.Begins rest → w <+: rest) : Reached p t q w := by
  obtain ⟨front, rest, rfl, rfl, hplace, hbegins⟩ := Token.exists_front htoks
  obtain ⟨rest', rfl⟩ := hw rest hbegins
  exact ⟨front, rest', s, rfl, hplace q hq, hfeed⟩

theorem reached_mark {m : Mark} (hfeed : feed step .empty (Token.ofText p t) = (s, none))
    (hm : .mark m q ∈ Token.ofText p t) : Reached p t q m.stem := by
  obtain ⟨before, after, htoks⟩ := List.append_of_mem hm
  rw [htoks] at hfeed
  obtain ⟨s₁, hbefore, -⟩ := exists_of_feed_append hfeed
  exact reached_next htoks hbefore rfl fun _ h => h

theorem reached_element {tag : Tag} (hfeed : feed step .empty (Token.ofText p t) = (s, none))
    (hmem : .element tag q ∈ s.listed) : Reached p t q ('<' :: tag.name) := by
  rw [listed_feed hfeed] at hmem
  obtain ⟨tok, htok, hentry⟩ := List.mem_filterMap.1 hmem
  rcases tok with content | ⟨tag' | name, q'⟩ | ⟨name, q'⟩
  · cases hentry
  · cases hentry
    exact reached_mark hfeed htok
  · cases hentry
  · cases hentry

theorem faces_unwind {name : Text} {opened : List OpenElement} {carried : Forest}
    {At : Position → Text → Prop} (h : unwind name p carried opened = .error fault)
    (hat : At p (Mark.closing name).stem) : fault.Faces At := by
  induction opened generalizing carried with
  | nil =>
    cases h
    exact hat
  | cons e opened ih =>
    rw [unwind] at h
    split at h
    · cases h
    · split at h
      · exact ih h
      · cases h
        exact hat

/-- The token at fault is reached. -/
theorem faces_step (htoks : Token.ofText p t = before ++ tok :: after)
    (hfeed : feed step .empty before = (s, none)) (h : s.step tok = (s', some fault)) :
    fault.Faces (Reached p t) := by
  cases tok with
  | text content => cases h
  | mark m q =>
    cases m with
    | opening tag =>
      rw [step] at h
      split at h <;> cases h
    | closing name =>
      have hat : Reached p t q (Mark.closing name).stem :=
        reached_next htoks hfeed rfl fun _ h => h
      rw [step] at h
      split at h
      · rename_i hunwind
        cases h
        exact faces_unwind hunwind hat
      · cases h
  | unterminated name q =>
    cases h
    obtain ⟨front, rest, rfl, rfl, hplace, m, hm, rest', rfl⟩ := Token.exists_front htoks
    exact ⟨m, hm, front, rest', s, rfl, hplace q rfl, hfeed⟩

theorem faces_feed (h : feed step .empty (Token.ofText p t) = (s, some fault)) :
    fault.Faces (Reached p t) := by
  obtain ⟨before, tok, after, s₁, htoks, hbefore, hstep⟩ := exists_of_feed_refused h
  exact faces_step htoks hbefore hstep

theorem exists_of_settle {opened : List OpenElement} {carried : Forest}
    (h : settle carried opened = .error fault) :
    ∃ e ∈ opened, fault = .unclosedElement e.tag.name e.position := by
  induction opened generalizing carried with
  | nil => cases h
  | cons e opened ih =>
    rw [settle] at h
    split at h
    · obtain ⟨e', he', rfl⟩ := ih h
      exact ⟨e', List.mem_cons_of_mem e he', rfl⟩
    · cases h
      exact ⟨e, List.mem_cons_self, rfl⟩

theorem mem_openListed {e : OpenElement} {opened : List OpenElement} (he : e ∈ opened) :
    .element e.tag e.position ∈ openListed opened :=
  List.mem_flatMap.2 ⟨e, List.mem_reverse.2 he, List.mem_cons_self⟩

theorem faces_finish (hfeed : feed step .empty (Token.ofText p t) = (s, none))
    (h : s.finish = .error fault) : fault.Faces (Reached p t) := by
  have hsettle : settle [] s.opened = .error fault := by
    rw [finish] at h
    cases hs : settle [] s.opened with
    | ok inner =>
      rw [hs] at h
      cases h
    | error found =>
      rw [hs] at h
      cases h
      rfl
  obtain ⟨e, he, rfl⟩ := exists_of_settle hsettle
  exact reached_element hfeed (List.mem_append_right _ (mem_openListed he))

end Nesting

/-- The elements of a forest stand where its text was reached. -/
theorem reached_of_read {p q : Position} {t : Text} {f : Forest} {ws : List Warning}
    (h : Forest.read p t = .ok (f, ws)) {tag : Tag} (hmem : .element tag q ∈ Node.preorderAll f) :
    Nesting.Reached p t q ('<' :: tag.name) := by
  obtain ⟨s, hfeed, hfinish, -⟩ := Forest.read_eq_ok_iff.1 h
  rw [Nesting.listed_finish hfinish] at hmem
  exact Nesting.reached_element hfeed hmem

end TemplLayout
