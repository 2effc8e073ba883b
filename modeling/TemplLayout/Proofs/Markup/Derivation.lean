import TemplLayout.Proofs.Markup.Outcome

/-!
# TemplLayout.Proofs.Markup.Derivation

The markup that can be read, as a grammar of tags.

* `Derives ms`        — the tags `ms` make up a forest. A void element may have a closing tag or none,
  so one row of tags can have several derivations.
* `Reads st ms`       — the tags `ms` are read while the tags `st` are open, innermost first, each
  closing tag going to the innermost open tag of its name.
* `Padded st st'`     — `st'` is `st` with open void tags put in.
* `Completes st ms`   — the tags `ms` make up what is missing when the tags `st` are open.

Open void tags put in do not hinder reading (`reads_of_padded`), so whatever some derivation takes for
an element without a closing tag, reading can take for an open one. Hence a text is read exactly when
its tags have a derivation (`read_ok_iff_derives`).
-/

namespace TemplLayout

namespace Token

def mark? : Token → Option Mark
  | .mark m _ => some m
  | _ => none

def isTerminated : Token → Bool
  | .unterminated _ _ => false
  | _ => true

end Token

/-- The tags among the tokens, in order. -/
def marks (toks : List Token) : List Mark :=
  toks.filterMap Token.mark?

/-! ## The grammar -/

mutual

inductive Derives : List Mark → Prop
  | nil : Derives []
  | concat {ms item : List Mark} : Derives ms → DerivesItem item → Derives (ms ++ item)

inductive DerivesItem : List Mark → Prop
  | leaf {tag : Tag} : tag.selfClosed = true → DerivesItem [.opening tag]
  | element {tag : Tag} {ms : List Mark} {name : Text} : tag.selfClosed = false → Derives ms →
      sameName tag.name name = true → DerivesItem (.opening tag :: (ms ++ [.closing name]))
  | void {tag : Tag} : tag.selfClosed = false → isVoid tag.name = true →
      DerivesItem [.opening tag]

end

/-- The last item of a forest is one of three, and the content of an element is a forest. -/
@[elab_as_elim]
theorem derives_induction {motive : ∀ ms, Derives ms → Prop} (nil : motive [] .nil)
    (leaf : ∀ ms tag (hms : Derives ms) (hself : tag.selfClosed = true), motive ms hms →
      motive (ms ++ [.opening tag]) (.concat hms (.leaf hself)))
    (element : ∀ ms inner tag name (hms : Derives ms) (hinner : Derives inner)
      (hself : tag.selfClosed = false) (hname : sameName tag.name name = true), motive ms hms →
      motive inner hinner →
      motive (ms ++ .opening tag :: (inner ++ [.closing name]))
        (.concat hms (.element hself hinner hname)))
    (void : ∀ ms tag (hms : Derives ms) (hself : tag.selfClosed = false)
      (hvoid : isVoid tag.name = true), motive ms hms →
      motive (ms ++ [.opening tag]) (.concat hms (.void hself hvoid)))
    {ms : List Mark} (h : Derives ms) : motive ms h :=
  @Derives.rec motive
    (fun item hitem => ∀ ms (hms : Derives ms), motive ms hms →
      motive (ms ++ item) (.concat hms hitem))
    nil (fun hms _ ih ihitem => ihitem _ hms ih)
    (fun hself ms hms ih => leaf ms _ hms hself ih)
    (fun hself hinner hname ihinner ms hms ih =>
      element ms _ _ _ hms hinner hself hname ih ihinner)
    (fun hself hvoid ms hms ih => void ms _ hms hself hvoid ih) ms h

theorem DerivesItem.derives {item : List Mark} (h : DerivesItem item) : Derives item :=
  .concat .nil h

theorem Derives.append {ms ns : List Mark} (hm : Derives ms) (hn : Derives ns) :
    Derives (ms ++ ns) := by
  induction hn using derives_induction with
  | nil => rwa [List.append_nil]
  | leaf ns tag _ hself ih =>
    rw [← List.append_assoc]
    exact .concat ih (.leaf hself)
  | element ns inner tag name _ hinner hself hname ih _ =>
    rw [← List.append_assoc]
    exact .concat ih (.element hself hinner hname)
  | void ns tag _ hself hvoid ih =>
    rw [← List.append_assoc]
    exact .concat ih (.void hself hvoid)

/-! ## Reading -/

theorem isVoid_congr {a b : Text} (h : sameName a b = true) : isVoid a = isVoid b := by
  rw [sameName, beq_iff_eq] at h
  rw [isVoid, isVoid, h]

/-- The tags that are open when the innermost one of the name `name` has been closed. -/
def unwound (name : Text) : List Tag → Option (List Tag)
  | [] => none
  | tag :: outer =>
    if sameName tag.name name then some outer
    else if isVoid tag.name then unwound name outer
    else none

def Reads : List Tag → List Mark → Prop
  | st, [] => ∀ tag ∈ st, isVoid tag.name = true
  | st, .opening tag :: ms => if tag.selfClosed then Reads st ms else Reads (tag :: st) ms
  | st, .closing name :: ms => ∃ outer, unwound name st = some outer ∧ Reads outer ms

inductive Padded : List Tag → List Tag → Prop
  | nil : Padded [] []
  | keep {tag : Tag} {st st' : List Tag} : Padded st st' → Padded (tag :: st) (tag :: st')
  | extra {tag : Tag} {st st' : List Tag} : isVoid tag.name = true → Padded st st' →
      Padded st (tag :: st')

theorem Padded.refl (st : List Tag) : Padded st st := by
  induction st with
  | nil => exact .nil
  | cons tag st ih => exact .keep ih

variable {st st' outer : List Tag} {ms : List Mark} {name : Text}

theorem Padded.forall_isVoid (h : Padded st st') (hst : ∀ tag ∈ st, isVoid tag.name = true) :
    ∀ tag ∈ st', isVoid tag.name = true := by
  induction h with
  | nil => exact hst
  | keep _ ih =>
    rw [List.forall_mem_cons] at hst ⊢
    exact ⟨hst.1, ih hst.2⟩
  | extra hvoid _ ih => exact List.forall_mem_cons.2 ⟨hvoid, ih hst⟩

/-- All that the closing tag of a void element closes is void, and may as well stay open. -/
theorem Padded.of_unwound (h : Padded st st') (hname : isVoid name = true)
    (hst : unwound name st = some outer) : Padded outer st' := by
  induction h with
  | nil => cases hst
  | @keep tag _ _ hpad ih =>
    rw [unwound] at hst
    split at hst
    · rename_i hsame
      cases hst
      exact .extra ((isVoid_congr hsame).trans hname) hpad
    · split at hst
      · rename_i hvoid
        exact .extra hvoid (ih hst)
      · cases hst
  | extra hvoid _ ih => exact .extra hvoid (ih hst)

/-- The closing tag may find an open void tag that was put in, and then what it was meant for is void
as well. -/
theorem Padded.unwound (h : Padded st st') (hst : unwound name st = some outer) :
    ∃ outer', TemplLayout.unwound name st' = some outer' ∧ Padded outer outer' := by
  induction h with
  | nil => cases hst
  | @keep tag s s' hpad ih =>
    rw [TemplLayout.unwound] at hst ⊢
    split at hst
    · rename_i hsame
      cases hst
      exact ⟨s', if_pos hsame, hpad⟩
    · rename_i hsame
      split at hst
      · rename_i hvoid
        obtain ⟨outer', hunwound, houter⟩ := ih hst
        exact ⟨outer', by rw [if_neg hsame, if_pos hvoid, hunwound], houter⟩
      · cases hst
  | @extra tag s s' hvoid hpad ih =>
    rw [TemplLayout.unwound]
    by_cases hsame : sameName tag.name name = true
    · exact ⟨s', if_pos hsame, hpad.of_unwound ((isVoid_congr hsame).symm.trans hvoid) hst⟩
    · obtain ⟨outer', hunwound, houter⟩ := ih hst
      exact ⟨outer', by rw [if_neg hsame, if_pos hvoid, hunwound], houter⟩

theorem reads_of_padded (h : Padded st st') (hreads : Reads st ms) : Reads st' ms := by
  induction ms generalizing st st' with
  | nil => exact h.forall_isVoid hreads
  | cons m ms ih =>
    cases m with
    | opening tag =>
      rw [Reads] at hreads ⊢
      split
      · exact ih h (by simpa [*] using hreads)
      · exact ih h.keep (by simpa [*] using hreads)
    | closing name =>
      obtain ⟨outer, hunwound, hrest⟩ := hreads
      obtain ⟨outer', hunwound', houter⟩ := h.unwound hunwound
      exact ⟨outer', hunwound', ih houter hrest⟩

/-! ## Whatever is derived is read -/

theorem reads_append {f : List Mark} (h : Derives f) (hreads : Reads st ms) :
    Reads st (f ++ ms) := by
  induction h using derives_induction generalizing st ms with
  | nil => exact hreads
  | leaf f tag _ hself ih =>
    rw [List.append_assoc]
    exact ih (by rwa [List.singleton_append, Reads, if_pos hself])
  | element f inner tag name _ _ hself hname ih ihinner =>
    have hclose : Reads (tag :: st) (.closing name :: ms) := ⟨st, if_pos hname, hreads⟩
    have hinner := ihinner hclose
    rw [List.append_assoc]
    refine ih ?_
    rw [List.cons_append, List.append_assoc, Reads, if_neg (by simp [hself])]
    exact hinner
  | void f tag _ hself hvoid ih =>
    have hopen : Reads (tag :: st) ms := reads_of_padded (.extra hvoid (.refl st)) hreads
    rw [List.append_assoc]
    exact ih (by rwa [List.singleton_append, Reads, if_neg (by simp [hself])])

/-! ## Whatever is read is derived -/

def Completes : List Tag → List Mark → Prop
  | [], ms => Derives ms
  | tag :: st, ms =>
    (∃ inner name rest, ms = inner ++ .closing name :: rest ∧ Derives inner ∧
      sameName tag.name name = true ∧ Completes st rest) ∨
    (isVoid tag.name = true ∧ Completes st ms)

theorem completes_append {f : List Mark} (hf : Derives f) (h : Completes st ms) :
    Completes st (f ++ ms) := by
  induction st with
  | nil => exact hf.append h
  | cons tag st ih =>
    rcases h with ⟨inner, name, rest, rfl, hinner, hname, hrest⟩ | ⟨hvoid, hrest⟩
    · exact .inl ⟨f ++ inner, name, rest, by rw [List.append_assoc], hf.append hinner, hname, hrest⟩
    · exact .inr ⟨hvoid, ih hrest⟩

theorem completes_nil (h : ∀ tag ∈ st, isVoid tag.name = true) : Completes st [] := by
  induction st with
  | nil => exact .nil
  | cons tag st ih =>
    rw [List.forall_mem_cons] at h
    exact .inr ⟨h.1, ih h.2⟩

theorem completes_opening {tag : Tag} (hself : tag.selfClosed = false)
    (h : Completes (tag :: st) ms) : Completes st (.opening tag :: ms) := by
  rcases h with ⟨inner, name, rest, rfl, hinner, hname, hrest⟩ | ⟨hvoid, hrest⟩
  · have helement := completes_append (DerivesItem.element hself hinner hname).derives hrest
    rwa [List.cons_append, List.append_assoc] at helement
  · exact completes_append (DerivesItem.void hself hvoid).derives hrest

theorem completes_closing (hunwound : unwound name st = some outer) (h : Completes outer ms) :
    Completes st (.closing name :: ms) := by
  induction st with
  | nil => cases hunwound
  | cons tag st ih =>
    rw [unwound] at hunwound
    split at hunwound
    · rename_i hsame
      cases hunwound
      exact .inl ⟨[], name, ms, rfl, .nil, hsame, h⟩
    · split at hunwound
      · rename_i hvoid
        exact .inr ⟨hvoid, ih hunwound⟩
      · cases hunwound

theorem completes_of_reads (h : Reads st ms) : Completes st ms := by
  induction ms generalizing st with
  | nil => exact completes_nil h
  | cons m ms ih =>
    cases m with
    | opening tag =>
      rw [Reads] at h
      split at h
      · rename_i hself
        exact completes_append (DerivesItem.leaf hself).derives (ih h)
      · rename_i hself
        exact completes_opening (by simpa using hself) (ih h)
    | closing name =>
      obtain ⟨outer, hunwound, hrest⟩ := h
      exact completes_closing hunwound (ih hrest)

theorem reads_iff_derives : Reads [] ms ↔ Derives ms := by
  constructor
  · exact completes_of_reads
  · intro h
    have hend : Reads [] [] := by simp [Reads]
    have hreads := reads_append h hend
    rwa [List.append_nil] at hreads

/-! ## The tokens of a text -/

namespace Nesting

def openTags (s : Nesting) : List Tag :=
  s.opened.map (·.tag)

@[simp] theorem openTags_push (s : Nesting) (n : Node Position) :
    (s.push n).openTags = s.openTags := by
  obtain ⟨_ | ⟨e, outer⟩, outside, warnings⟩ := s <;> rfl

theorem unwind_toOption (name : Text) (p : Position) (carried : Forest)
    (opened : List OpenElement) :
    (unwind name p carried opened).toOption.map (fun found => found.2.2.map (·.tag)) =
      unwound name (opened.map (·.tag)) := by
  induction opened generalizing carried with
  | nil => rfl
  | cons e outer ih =>
    rw [unwind, List.map_cons, unwound]
    split
    · rfl
    · split
      · exact ih _
      · rfl

theorem isSome_settle_iff (carried : Forest) (opened : List OpenElement) :
    (settle carried opened).toOption.isSome = true ↔
      ∀ tag ∈ opened.map (·.tag), isVoid tag.name = true := by
  induction opened generalizing carried with
  | nil => simp [settle, Except.toOption]
  | cons e outer ih =>
    rw [settle, List.map_cons, List.forall_mem_cons]
    split
    · rename_i hvoid
      rw [ih, and_iff_right hvoid]
    · rename_i hvoid
      simp [hvoid, Except.toOption]

theorem isSome_outcome_nil (s : Nesting) :
    (s.outcome []).isSome = true ↔ Reads s.openTags [] := by
  rw [Reads, openTags, ← isSome_settle_iff [], outcome_nil, finish]
  cases settle [] s.opened <;> rfl

/-- What is read does not depend on the nodes read so far. -/
theorem isSome_outcome_iff (s : Nesting) (toks : List Token) :
    (s.outcome toks).isSome = true ↔
      (∀ tok ∈ toks, tok.isTerminated = true) ∧ Reads s.openTags (marks toks) := by
  induction toks generalizing s with
  | nil =>
    rw [isSome_outcome_nil, and_iff_right (by simp)]
    rfl
  | cons tok toks ih =>
    rw [List.forall_mem_cons]
    cases tok with
    | text content =>
      have hend : (Token.text content).isTerminated = true := rfl
      rw [outcome_text, ih, openTags_push, and_iff_right hend]
      rfl
    | unterminated name p => simp [outcome_unterminated, Token.isTerminated]
    | mark m p =>
      have hmarks : marks (.mark m p :: toks) = m :: marks toks := rfl
      have hend : (Token.mark m p).isTerminated = true := rfl
      rw [hmarks, and_iff_right hend]
      cases m with
      | opening tag =>
        rw [outcome_opening, Reads]
        split
        · rw [ih, openTags_push]
        · rw [ih]
          rfl
      | closing name =>
        have hunwound := unwind_toOption name p [] s.opened
        rw [outcome_closing, Reads, openTags, ← hunwound]
        cases unwind name p [] s.opened with
        | error fault => simp [Except.toOption]
        | ok found =>
          obtain ⟨e, content, outer⟩ := found
          have hpush := ih (push ⟨outer, s.outside, s.warnings ++ warningsOf e content⟩
            (.element e.tag e.position content))
          rw [openTags_push] at hpush
          simpa [Except.toOption, openTags] using hpush

end Nesting

/-- A text is read exactly when all of its tags have an end and there is some way to derive them. -/
theorem read_ok_iff_derives (p : Position) (t : Text) :
    (∃ f ws, Forest.read p t = .ok (f, ws)) ↔
      (∀ tok ∈ Token.ofText p t, tok.isTerminated = true) ∧
        Derives (marks (Token.ofText p t)) := by
  simp only [Forest.exists_read_iff]
  rw [← Option.isSome_iff_exists, Nesting.isSome_outcome_iff, ← reads_iff_derives]
  rfl

/-- Reading gives the closing tag to `BR`, and the derivation below to the first `br`. -/
def crossed : Text :=
  "<p><br>a<img><BR></br></p>".toList

theorem read_ok_iff_derives_crossed : ∃ f ws, Forest.read .start crossed = .ok (f, ws) := by
  have hmarks : marks (Token.ofText .start crossed) =
      [.opening ⟨"p".toList, [], false⟩, .opening ⟨"br".toList, [], false⟩,
        .opening ⟨"img".toList, [], false⟩, .opening ⟨"BR".toList, [], false⟩,
        .closing "br".toList, .closing "p".toList] := by
    decide +kernel
  have hbr : Derives [.opening ⟨"br".toList, [], false⟩, .opening ⟨"img".toList, [], false⟩,
      .opening ⟨"BR".toList, [], false⟩, .closing "br".toList] :=
    (DerivesItem.element rfl (.concat (.concat .nil (.void rfl (by decide)))
      (.void rfl (by decide))) (by decide)).derives
  refine (read_ok_iff_derives .start crossed).2 ⟨by decide +kernel, ?_⟩
  rw [hmarks]
  exact (DerivesItem.element rfl hbr (by decide)).derives

end TemplLayout
