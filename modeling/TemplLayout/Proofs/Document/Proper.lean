import Mathlib.Data.List.ReduceOption
import TemplLayout.Proofs.Document.Comments

/-!
# TemplLayout.Proofs.Document.Proper

What every document that was read satisfies, in terms of the characters that it holds.

* `Balanced t`             — quotes and plain characters one after another: every quote is shut again, and
  no `>` stands outside of quotes.
* `Node.familiesAll ns`    — the lists of children in a forest, at every depth.
* `Node.ProperSiblings ns` — texts that are not empty, lack `{%` and the starts of tags, and are merged
  with their neighbours; tags with a name and trimmed, balanced attributes; nothing in an element that
  closes itself.
* `Document.Proper d`      — the same of all siblings in all blocks; names are single words, and what else
  stands outside of the blocks is trimmed.

Well-formedness says the same by what the reader looks for (`Lacks`, `Shut`, `IsName`). Here it is said
without the reader; the balanced texts are the ones that are shut (`balanced_iff_shut`).
-/

namespace TemplLayout

open Text

/-! ## Quotes -/

inductive Balanced : Text → Prop
  | nil : Balanced []
  | plain {c : Char} {t : Text} : Plain c → Balanced t → Balanced (c :: t)
  | quoted {q : Char} {s t : Text} : q = '\x22' ∨ q = '\x27' → q ∉ s → Balanced t →
      Balanced (q :: (s ++ q :: t))

/-- A quote that is open is shut at its next occurrence, whatever stands before that. -/
theorem shut_some_iff {q : Char} {t : Text} :
    Shut (some q) t ↔ ∃ s u, t = s ++ q :: u ∧ q ∉ s ∧ Shut none u := by
  induction t with
  | nil => simp [Shut]
  | cons c t ih =>
    have hcons : Shut (some q) (c :: t) ↔ Shut (quoteAfter (some q) c) t := by simp [Shut]
    rw [hcons, quoteAfter]
    split
    · rename_i hc
      subst hc
      constructor
      · exact fun h => ⟨[], t, rfl, List.not_mem_nil, h⟩
      · rintro ⟨s, u, heq, hs, hu⟩
        cases s with
        | nil =>
          cases heq
          exact hu
        | cons d s =>
          cases heq
          exact absurd (List.mem_cons_self ..) hs
    · rename_i hc
      rw [ih]
      constructor
      · rintro ⟨s, u, rfl, hs, hu⟩
        exact ⟨c :: s, u, rfl, List.not_mem_cons_of_ne_of_not_mem (Ne.symm hc) hs, hu⟩
      · rintro ⟨s, u, heq, hs, hu⟩
        cases s with
        | nil =>
          cases heq
          exact absurd rfl hc
        | cons d s =>
          cases heq
          exact ⟨s, u, rfl, fun hmem => hs (List.mem_cons_of_mem _ hmem), hu⟩

theorem shut_quote_cons {q : Char} (hq : q = '\x22' ∨ q = '\x27') {t : Text} :
    Shut none (q :: t) ↔ Shut (some q) t := by
  have hafter : quoteAfter none q = some q := if_pos hq
  rw [Shut, hafter]
  refine and_iff_right fun h => ?_
  rcases hq with rfl | rfl <;> cases h.2

theorem Balanced.shut {t : Text} (h : Balanced t) : Shut none t := by
  induction h with
  | nil => rfl
  | @plain c t hc _ ih => exact (shut_plain_append (s := [c]) (by simpa using hc)).2 ih
  | @quoted q s t hq hs _ ih => exact (shut_quote_cons hq).2 (shut_some_iff.2 ⟨s, t, rfl, hs, ih⟩)

/-- A text that ends in no quote falls into plain characters and quotes, the first of them first. -/
theorem balanced_of_shut {t : Text} (h : Shut none t) : Balanced t := by
  match t with
  | [] => exact .nil
  | c :: t =>
    by_cases hq : c = '\x22' ∨ c = '\x27'
    · obtain ⟨s, u, rfl, hs, hu⟩ := shut_some_iff.1 ((shut_quote_cons hq).1 h)
      exact .quoted hq hs (balanced_of_shut hu)
    · have hc : Plain c :=
        ⟨fun hc => hq (.inl hc), fun hc => hq (.inr hc), fun hc => h.1 ⟨rfl, hc⟩⟩
      exact .plain hc (balanced_of_shut ((shut_plain_append (s := [c]) (by simpa using hc)).1 h))
  termination_by t.length

theorem balanced_iff_shut {t : Text} : Balanced t ↔ Shut none t :=
  ⟨Balanced.shut, balanced_of_shut⟩

/-! ## Siblings -/

/-- The text can stand in the markup of a block: no directive and no tag begins in it. -/
structure ProperText (t : Text) : Prop where
  ne_nil : t ≠ []
  directive : ¬ ['{', '%'] <:+: t
  opening : ∀ c : Char, c.isAlpha = true → ¬ ['<', c] <:+: t
  closing : ∀ c : Char, c.isAlpha = true → ¬ ['<', '/', c] <:+: t

structure Tag.Proper (tag : Tag) : Prop where
  name : ∃ c rest, tag.name = c :: rest ∧ c.isAlpha = true ∧
    ∀ x ∈ rest, x.isAlphanum = true ∨ x ∈ ['-', '_', ':', '.']
  trimmed : tag.attrs.trim = tag.attrs
  balanced : Balanced tag.attrs
  directive : ¬ ['{', '%'] <:+: tag.attrs
  slash : ['/'] <:+ tag.attrs → tag.selfClosed = true

theorem IsName.exists_eq_cons {t : Text} (h : IsName t) : ∃ c rest, t = c :: rest ∧
    c.isAlpha = true ∧ ∀ x ∈ rest, x.isAlphanum = true ∨ x ∈ ['-', '_', ':', '.'] := by
  obtain ⟨c, hc, halpha⟩ := h.head
  cases t with
  | nil => cases hc
  | cons d rest =>
    cases hc
    refine ⟨c, rest, rfl, halpha, fun x hx => ?_⟩
    have hx := h.chars x (List.mem_cons_of_mem _ hx)
    simpa [isNameChar, or_assoc] using hx

theorem not_isInfix_of_lacks {t : Text} (h : Lacks opensDirective t) : ¬ ['{', '%'] <:+: t :=
  pattern_opensDirective.lacks_iff.1 h _ rfl

theorem Tag.WellFormed.proper {tag : Tag} (h : tag.WellFormed)
    (hlacks : Lacks opensDirective tag.attrs) : tag.Proper where
  name := h.name.exists_eq_cons
  trimmed := h.attrs_trimmed.trim_eq
  balanced := balanced_iff_shut.2 h.attrs_shut
  directive := not_isInfix_of_lacks hlacks
  slash := by
    rintro ⟨front, hfront⟩
    exact h.slash (by rw [← hfront, List.getLast?_concat])

namespace Node

variable {π : Type} {ns : List (Node π)}

mutual

def families : Node π → List (List (Node π))
  | .text _ => []
  | .element _ _ children => children :: familiesAll children

def familiesAll : List (Node π) → List (List (Node π))
  | [] => []
  | n :: ns => n.families ++ familiesAll ns

end

structure ProperSiblings (ns : List (Node π)) : Prop where
  text : ∀ content, .text content ∈ ns → ProperText content
  merged : ∀ s t, ¬ [.text s, .text t] <:+: ns
  tag : ∀ tag place children, .element tag place children ∈ ns → tag.Proper
  closed : ∀ tag place children, .element tag place children ∈ ns → tag.selfClosed = true →
    children = []

/-- What holds of a forest holds of the children of each of its elements. -/
theorem WellFormedAll.familiesAll {Q : Text → Prop} (h : WellFormedAll Q ns) :
    ∀ ms ∈ familiesAll ns, WellFormedAll Q ms := by
  induction ns using forest_induction with
  | nil => simp [Node.familiesAll]
  | text content ns ih => exact ih (wellFormedAll_cons.1 h).2.2
  | element tag place children ns ihc ihs =>
    obtain ⟨hn, -, hns⟩ := wellFormedAll_cons.1 h
    obtain ⟨-, -, -, hchildren⟩ := wellFormed_element_iff.1 hn
    intro ms hms
    rw [Node.familiesAll, families, List.mem_append, List.mem_cons] at hms
    rcases hms with (rfl | hms) | hms
    · exact hchildren
    · exact ihc hchildren ms hms
    · exact ihs hns ms hms

theorem WellFormed.properText {content : Text}
    (h : (Node.text (π := π) content).WellFormed (Lacks opensDirective)) : ProperText content := by
  cases h with
  | text hne htag hdirective =>
    have hstarts := pattern_startsTag.lacks_iff.1 htag
    exact ⟨hne, not_isInfix_of_lacks hdirective, fun c hc => hstarts _ ⟨c, hc, .inl rfl⟩,
      fun c hc => hstarts _ ⟨c, hc, .inr rfl⟩⟩

theorem WellFormedAll.proper (h : WellFormedAll (Lacks opensDirective) ns) :
    ProperSiblings ns where
  text content hmem := (h.each _ hmem).properText
  merged s t hst := by
    have hapart := h.apart.infix hst
    simp [Apart, isElement] at hapart
  tag tag place children hmem := by
    obtain ⟨htag, hlacks, -⟩ := wellFormed_element_iff.1 (h.each _ hmem)
    exact htag.proper hlacks
  closed tag place children hmem := by
    obtain ⟨-, -, hclosed, -⟩ := wellFormed_element_iff.1 (h.each _ hmem)
    exact hclosed

end Node

/-! ## Documents -/

structure ProperName (t : Text) : Prop where
  trimmed : t.trim = t
  ne_nil : t ≠ []
  no_blank : ∀ c ∈ t, isBlankChar c = false

/-- A comment, or the text behind the last directive. -/
structure ProperComment (t : Text) : Prop where
  trimmed : t.trim = t
  ne_nil : t ≠ []
  directive : ¬ ['{', '%'] <:+: t

theorem properName_of_isWord {t : Text} (h : t.isWord = true) : ProperName t where
  trimmed := (trimmed_of_isWord h).trim_eq
  ne_nil := ne_nil_of_isWord h
  no_blank := by
    simpa [hasBlank] using (Bool.and_eq_true_iff.1 h).2

theorem IsComment.proper {t : Text} (h : IsComment t) : ProperComment t :=
  ⟨h.trimmed.trim_eq, h.ne_nil, not_isInfix_of_lacks h.lacks⟩

namespace Document

variable {d : Document}

structure Proper (d : Document) : Prop where
  package : ProperName d.package.name
  path : ∀ i ∈ d.imports, i.path.trim = i.path
  name : ∀ t ∈ d.templates, ProperName t.signature.name
  params : ∀ t ∈ d.templates, t.signature.params.trim = t.signature.params
  comment : ∀ c ∈ d.freeTexts, ProperComment c
  body : ∀ t ∈ d.templates, ∀ ns ∈ t.body :: Node.familiesAll t.body, Node.ProperSiblings ns

theorem WellFormed.isComment (h : d.WellFormed) : ∀ c ∈ d.freeTexts, IsComment c := by
  intro c hc
  rw [freeTexts, List.reduceOption_mem_iff, List.mem_append, List.mem_singleton] at hc
  rcases hc with hc | hc
  · rw [nodes, List.map_cons, List.map_map, List.mem_cons] at hc
    rcases hc with hc | hc
    · exact h.package.gap c hc.symm
    · obtain ⟨x, hx, hxc⟩ := List.mem_map.1 hc
      cases x with
      | importPath i => exact (h.declarations _ hx).gap c hxc
      | templ t => exact (h.declarations _ hx).gap c hxc
  · exact h.trailing c hc.symm

theorem WellFormed.proper (h : d.WellFormed) : d.Proper where
  package := properName_of_isWord h.package.name
  path i hi := by
    have hi : i.WellFormed := h.declarations _ (mem_imports hi)
    exact hi.trimmed.trim_eq
  name t ht := by
    have ht : t.WellFormed := h.declarations _ (mem_templates ht)
    exact properName_of_isWord ht.signature.name
  params t ht := by
    have ht : t.WellFormed := h.declarations _ (mem_templates ht)
    exact ht.signature.params.trim_eq
  comment c hc := (h.isComment c hc).proper
  body t ht ns hns := by
    have ht : t.WellFormed := h.declarations _ (mem_templates ht)
    rcases List.mem_cons.1 hns with rfl | hns
    · exact ht.body.proper
    · exact (ht.body.familiesAll ns hns).proper

end Document

theorem proper_parse {source : Text} {d : Document} (h : parse source = .ok d) : d.Proper :=
  (wellFormed_parse h).proper

/-- Void elements that are left open, an element that closes itself behind a blank, quotes with `>` and
with a slash at the end, and a `<` that starts no tag. -/
def tangled : Text :=
  "// x < y\n".toList ++ Directive.spell " package p ".toList ++
    Directive.spell "import  'q' ".toList ++ Directive.spell "templ  t ( s string )".toList ++
    "<BR>a < b<p class='x/' id=\">\" ><img / ><hr>c<i:j.k x/ /></p>d<wbr>".toList ++
    Directive.spell "endtempl".toList ++ " end ".toList

theorem proper_parse_tangled :
    ∃ d, parse tangled = .ok d ∧ d.freeTexts = ["// x < y".toList, "end".toList] ∧
      d.templates.map (fun t => (Node.familiesAll t.body).length) = [6] ∧ d.Proper := by
  have hvalue : (parse tangled).toOption.map (fun d =>
      (d.freeTexts, d.templates.map fun t => (Node.familiesAll t.body).length)) =
      some (["// x < y".toList, "end".toList], [6]) := by
    decide +kernel
  obtain ⟨d, h, hd⟩ := exists_of_map_toOption hvalue
  obtain ⟨hfree, hfamilies⟩ := Prod.mk.inj hd
  exact ⟨d, h, hfree, hfamilies, proper_parse h⟩

end TemplLayout
