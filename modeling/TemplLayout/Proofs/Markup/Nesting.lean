import TemplLayout.Markup.Nesting
import TemplLayout.Proofs.Markup.Forest

/-!
# TemplLayout.Proofs.Markup.Nesting

What holds while a forest is read off its tokens.

* `Forest.warnings f`      — the warnings that a forest gives rise to.
* `Nesting.Sound Q s`      — what stands outside, and the children of every open element so far, are
  well-formed forests, and the warnings so far are theirs.

A step keeps a nesting sound (`step_sound`), unless two runs of text come one after the other, which
they never do among the tokens of a text. So a forest that is read is well-formed, and its warnings
are the ones that it gives rise to (`read_sound`).
-/

namespace TemplLayout

open Text Node

variable {Q : Text → Prop}

def Forest.warnings (f : Forest) : List Warning :=
  (loadedAll f).map fun x => ⟨x.1.name, x.2⟩

@[simp] theorem Forest.warnings_nil : Forest.warnings [] = [] := rfl

theorem Forest.warnings_append (f g : Forest) :
    Forest.warnings (f ++ g) = Forest.warnings f ++ Forest.warnings g := by
  rw [Forest.warnings, loadedAll_append, List.map_append]
  rfl

theorem Forest.warnings_eq_nil_iff {f : Forest} :
    Forest.warnings f = [] ↔ loadedAll (unplacedAll f) = [] := by
  rw [Forest.warnings, loadedAll_unplacedAll, List.map_eq_nil_iff, List.map_eq_nil_iff]

/-- An element warns of what its content warns of, and then of itself. -/
theorem Forest.warnings_element (e : OpenElement) (content : Forest) :
    Forest.warnings [.element e.tag e.position content] =
      Forest.warnings content ++ Nesting.warningsOf e content := by
  rw [Forest.warnings, loadedAll_cons, loadedAll_nil, List.append_nil, loaded, List.map_append,
    Nesting.warningsOf, Forest.warnings]
  split <;> rfl

/-- No text stands in front. -/
def Leads (ns : Forest) : Prop :=
  ∀ n ∈ ns.head?, n.isElement = true

namespace OpenElement

structure WellFormed (Q : Text → Prop) (e : OpenElement) : Prop where
  tag : e.tag.WellFormed
  attrs : Q e.tag.attrs
  open_tag : e.tag.selfClosed = false
  children : WellFormedAll Q e.children.reverse

theorem content_eq (e : OpenElement) (carried : Forest) :
    e.content carried = e.children.reverse ++ carried :=
  List.reverseAux_eq

variable {e : OpenElement} {carried : Forest}

theorem WellFormed.content (he : e.WellFormed Q) (hc : WellFormedAll Q carried)
    (hlead : Leads carried) : WellFormedAll Q (e.content carried) := by
  rw [content_eq]
  exact he.children.append hc fun _ _ n hn => .inr (hlead n hn)

theorem WellFormed.element (he : e.WellFormed Q) {content : Forest}
    (hc : WellFormedAll Q content) :
    (Node.element e.tag e.position content).WellFormed Q := by
  refine wellFormed_element_iff.2 ⟨he.tag, he.attrs, ?_, hc⟩
  intro hclosed
  rw [he.open_tag] at hclosed
  cases hclosed

theorem WellFormed.spilled (he : e.WellFormed Q) (hc : WellFormedAll Q carried)
    (hlead : Leads carried) : WellFormedAll Q (e.spilled carried) :=
  wellFormedAll_cons.2 ⟨he.element wellFormedAll_nil, fun _ _ => .inl rfl, he.content hc hlead⟩

theorem leads_spilled (e : OpenElement) (carried : Forest) : Leads (e.spilled carried) := by
  intro n hn
  cases hn
  rfl

/-- An element that is left empty warns of nothing. -/
theorem warnings_spilled (e : OpenElement) (carried : Forest) :
    Forest.warnings (e.spilled carried) =
      Forest.warnings e.children.reverse ++ Forest.warnings carried := by
  have hempty : Nesting.warningsOf e [] = [] := by simp [Nesting.warningsOf]
  rw [spilled, content_eq, ← List.singleton_append, Forest.warnings_append,
    Forest.warnings_element, hempty, Forest.warnings_append]
  rfl

end OpenElement

namespace Nesting

/-- The warnings of the children so far, outermost element first. -/
def pending (opened : List OpenElement) : List Warning :=
  opened.reverse.flatMap fun e => Forest.warnings e.children.reverse

theorem pending_cons (e : OpenElement) (outer : List OpenElement) :
    pending (e :: outer) = pending outer ++ Forest.warnings e.children.reverse := by
  simp [pending]

structure Sound (Q : Text → Prop) (s : Nesting) : Prop where
  opened : ∀ e ∈ s.opened, e.WellFormed Q
  outside : WellFormedAll Q s.outside.reverse
  warnings : s.warnings = Forest.warnings s.outside.reverse ++ pending s.opened

theorem sound_empty : Sound Q empty :=
  ⟨by simp [empty], wellFormedAll_nil, rfl⟩

/-- The siblings that reading has come to, latest first. -/
def siblings (s : Nesting) : Forest :=
  match s.opened with
  | [] => s.outside
  | e :: _ => e.children

/-! ## One token -/

theorem push_sound {s : Nesting} {n : Node Position} (hopened : ∀ e ∈ s.opened, e.WellFormed Q)
    (houtside : WellFormedAll Q s.outside.reverse)
    (hw : s.warnings =
      Forest.warnings s.outside.reverse ++ (pending s.opened ++ Forest.warnings [n]))
    (hn : n.WellFormed Q) (hapart : n.isElement = true ∨ Leads s.siblings) :
    (s.push n).Sound Q := by
  have hpush : ∀ ns : Forest, WellFormedAll Q ns.reverse → (n.isElement = true ∨ Leads ns) →
      WellFormedAll Q (n :: ns).reverse := by
    intro ns hns hap
    rw [List.reverse_cons]
    refine hns.append (wellFormedAll_singleton.2 hn) fun m hm k hk => ?_
    rw [List.getLast?_reverse] at hm
    cases hk
    rcases hap with hap | hap
    · exact .inr hap
    · exact .inl (hap m hm)
  obtain ⟨opened, outside, warnings⟩ := s
  cases opened with
  | nil =>
    refine ⟨hopened, hpush outside houtside hapart, ?_⟩
    rw [push, hw, List.reverse_cons, Forest.warnings_append]
    simp [pending]
  | cons e outer =>
    rw [List.forall_mem_cons] at hopened
    obtain ⟨⟨htag, hattrs, hopen, hchildren⟩, houter⟩ := hopened
    refine ⟨?_, houtside, ?_⟩
    · exact List.forall_mem_cons.2 ⟨⟨htag, hattrs, hopen, hpush _ hchildren hapart⟩, houter⟩
    · rw [push, hw, pending_cons, pending_cons, List.reverse_cons, Forest.warnings_append]
      simp

theorem unwind_sound {name : Text} {position : Position} {opened outer : List OpenElement}
    {carried content : Forest} {e : OpenElement} (hopened : ∀ e ∈ opened, e.WellFormed Q)
    (hcarried : WellFormedAll Q carried) (hlead : Leads carried)
    (h : unwind name position carried opened = .ok (e, content, outer)) :
    e.WellFormed Q ∧ WellFormedAll Q content ∧ (∀ e ∈ outer, e.WellFormed Q) ∧
      pending outer ++ Forest.warnings content = pending opened ++ Forest.warnings carried := by
  induction opened generalizing carried with
  | nil => cases h
  | cons f opened ih =>
    rw [List.forall_mem_cons] at hopened
    rw [unwind] at h
    split at h
    · cases h
      refine ⟨hopened.1, hopened.1.content hcarried hlead, hopened.2, ?_⟩
      rw [pending_cons, OpenElement.content_eq, Forest.warnings_append, List.append_assoc]
    · split at h
      · obtain ⟨he, hcontent, houter, hw⟩ := ih hopened.2 (hopened.1.spilled hcarried hlead)
          (OpenElement.leads_spilled f carried) h
        refine ⟨he, hcontent, houter, ?_⟩
        rw [hw, OpenElement.warnings_spilled, pending_cons, List.append_assoc]
      · cases h

theorem leads_siblings_push (s : Nesting) {n : Node Position} (hn : n.isElement = true) :
    Leads (s.push n).siblings := by
  obtain ⟨_ | ⟨e, outer⟩, outside, warnings⟩ := s
  · intro m hm
    cases hm
    exact hn
  · intro m hm
    cases hm
    exact hn

theorem text_sound {s : Nesting} {content : Text} (hs : s.Sound Q)
    (hn : (Node.text (π := Position) content).WellFormed Q) (hready : Leads s.siblings) :
    (s.push (.text content)).Sound Q := by
  refine push_sound hs.opened hs.outside ?_ hn (.inr hready)
  rw [hs.warnings]
  simp [Forest.warnings, loadedAll, loaded]

theorem opening_sound {s s' : Nesting} {tag : Tag} {p : Position} (hs : s.Sound Q)
    (htag : tag.WellFormed) (hattrs : Q tag.attrs)
    (h : s.step (.mark (.opening tag) p) = (s', none)) : s'.Sound Q ∧ Leads s'.siblings := by
  rw [step] at h
  split at h
  · cases h
    have hn : (Node.element tag p []).WellFormed Q :=
      wellFormed_element_iff.2 ⟨htag, hattrs, fun _ => rfl, wellFormedAll_nil⟩
    refine ⟨push_sound hs.opened hs.outside ?_ hn (.inl rfl), leads_siblings_push s rfl⟩
    rw [hs.warnings]
    simp [Forest.warnings, loadedAll, loaded]
  · rename_i hopen
    cases h
    have he : OpenElement.WellFormed Q ⟨tag, p, []⟩ :=
      ⟨htag, hattrs, by simpa using hopen, wellFormedAll_nil⟩
    refine ⟨⟨List.forall_mem_cons.2 ⟨he, hs.opened⟩, hs.outside, ?_⟩, fun n hn => by cases hn⟩
    rw [hs.warnings, pending_cons]
    simp

theorem closing_sound {s s' : Nesting} {name : Text} {p : Position} (hs : s.Sound Q)
    (h : s.step (.mark (.closing name) p) = (s', none)) : s'.Sound Q ∧ Leads s'.siblings := by
  rw [step] at h
  split at h
  · cases h
  · rename_i e content outer hunwind
    cases h
    obtain ⟨he, hcontent, houter, hw⟩ :=
      unwind_sound hs.opened wellFormedAll_nil (fun n hn => by cases hn) hunwind
    rw [Forest.warnings_nil, List.append_nil] at hw
    refine ⟨push_sound houter hs.outside ?_ (he.element hcontent) (.inl rfl),
      leads_siblings_push _ rfl⟩
    rw [hs.warnings, Forest.warnings_element, ← List.append_assoc (pending outer), hw]
    simp

theorem step_sound {s s' : Nesting} {tok : Token} (hs : s.Sound Q) (htok : tok.WellFormed)
    (hq : tok.Carries Q) (hready : tok.isText = true → Leads s.siblings)
    (h : s.step tok = (s', none)) :
    s'.Sound Q ∧ (tok.isText = false → Leads s'.siblings) := by
  cases tok with
  | text content =>
    cases h
    refine ⟨text_sound hs (.text htok.1 htok.2 hq) (hready rfl), ?_⟩
    simp [Token.isText]
  | mark m position =>
    cases m with
    | opening tag =>
      obtain ⟨hs', hlead⟩ := opening_sound hs htok hq h
      exact ⟨hs', fun _ => hlead⟩
    | closing name =>
      obtain ⟨hs', hlead⟩ := closing_sound hs h
      exact ⟨hs', fun _ => hlead⟩
  | unterminated name position => cases h

/-! ## All tokens -/

theorem feed_sound {toks : List Token} {s s' : Nesting} (hs : s.Sound Q)
    (htoks : ∀ tok ∈ toks, tok.WellFormed) (hq : ∀ tok ∈ toks, tok.Carries Q)
    (hchain : toks.IsChain fun a b => a.isText = false ∨ b.isText = false)
    (hready : ∀ tok ∈ toks.head?, tok.isText = true → Leads s.siblings)
    (h : feed step s toks = (s', none)) : s'.Sound Q := by
  induction toks generalizing s with
  | nil =>
    cases h
    exact hs
  | cons tok toks ih =>
    rw [List.forall_mem_cons] at htoks hq
    rw [List.isChain_cons] at hchain
    obtain ⟨s₁, hstep, hrest⟩ := exists_of_feed_cons h
    obtain ⟨hs₁, hlead⟩ := step_sound hs htoks.1 hq.1 (hready tok rfl) hstep
    refine ih hs₁ htoks.2 hq.2 hchain.2 (fun b hb hbt => ?_) hrest
    rcases hchain.1 b hb with ha | hb'
    · exact hlead ha
    · rw [hbt] at hb'
      cases hb'

theorem settle_sound {opened : List OpenElement} {carried f : Forest}
    (hopened : ∀ e ∈ opened, e.WellFormed Q) (hcarried : WellFormedAll Q carried)
    (hlead : Leads carried) (h : settle carried opened = .ok f) :
    WellFormedAll Q f ∧ Leads f ∧
      Forest.warnings f = pending opened ++ Forest.warnings carried := by
  induction opened generalizing carried with
  | nil =>
    cases h
    exact ⟨hcarried, hlead, rfl⟩
  | cons e outer ih =>
    rw [List.forall_mem_cons] at hopened
    rw [settle] at h
    split at h
    · obtain ⟨hf, hleadf, hw⟩ := ih hopened.2 (hopened.1.spilled hcarried hlead)
        (OpenElement.leads_spilled e carried) h
      refine ⟨hf, hleadf, ?_⟩
      rw [hw, OpenElement.warnings_spilled, pending_cons, List.append_assoc]
    · cases h

theorem finish_sound {s : Nesting} {f : Forest} (hs : s.Sound Q) (h : s.finish = .ok f) :
    WellFormedAll Q f ∧ s.warnings = Forest.warnings f := by
  rw [finish] at h
  cases hsettle : settle [] s.opened with
  | error fault => rw [hsettle] at h; cases h
  | ok g =>
    rw [hsettle] at h
    cases h
    obtain ⟨hg, hlead, hw⟩ :=
      settle_sound hs.opened wellFormedAll_nil (fun n hn => by cases hn) hsettle
    rw [List.reverseAux_eq, Forest.warnings_append, hw, hs.warnings, Forest.warnings_nil,
      List.append_nil]
    exact ⟨hs.outside.append hg fun _ _ n hn => .inr (hlead n hn), rfl⟩

end Nesting

theorem Forest.read_sound {W : Text → Prop} {q : Text → Bool} (hq : Pattern W q) {p : Position}
    {t : Text} {f : Forest} {ws : List Warning} (ht : Lacks q t)
    (h : Forest.read p t = .ok (f, ws)) :
    WellFormedAll (Lacks q) f ∧ ws = Forest.warnings f := by
  rw [Forest.read] at h
  split at h
  · cases h
  · rename_i s hfeed
    cases hfinish : s.finish with
    | error fault => rw [hfinish] at h; cases h
    | ok g =>
      rw [hfinish] at h
      cases h
      refine Nesting.finish_sound (Nesting.feed_sound Nesting.sound_empty ?_ ?_ ?_ ?_ hfeed) hfinish
      · exact Token.wellFormed_ofText p t
      · exact Token.carries_ofText hq p ht
      · exact Token.isChain_ofText p t
      · intro tok _ _ n hn
        cases hn

end TemplLayout
