import TemplLayout.Proofs.Markup.Token

/-!
# TemplLayout.Proofs.Markup.TagRoundTrip

An opening tag that was read is read again from its spelling, whatever stands behind it.

* `Mark.read? t`   — the mark whose `<` begins `t`, and what stands behind its `>`; none if there is no
  such `>`. This is how the tokens of a text are read (`Token.ofText_of_read?`).
* `Tag.closed tag` — the tag with `/>` for its end.

What trimming and the slash take off a tag stands outside of its quotes, so the attributes are shut by
themselves (`Tag.legible_ofInner`) and the tag is legible with either end.
-/

namespace TemplLayout

open Text

/-! ## Reading a mark -/

def Mark.read? : Text → Option (Mark × Text)
  | '<' :: t => (closeTag? t).map fun cut => (Mark.ofInner cut.1, cut.2)
  | _ => none

theorem Mark.read?_eq_some_iff {t rest : Text} {m : Mark} :
    Mark.read? t = some (m, rest) ↔
      ∃ inner, t = '<' :: (inner ++ '>' :: rest) ∧ Shut none inner ∧ Mark.ofInner inner = m := by
  constructor
  · intro h
    unfold Mark.read? at h
    split at h
    · obtain ⟨⟨inner, rest'⟩, hclose, hcut⟩ := Option.map_eq_some_iff.1 h
      cases hcut
      exact ⟨inner, by rw [append_of_closeTag? hclose], shut_of_closeTag? hclose, rfl⟩
    · cases h
  · rintro ⟨inner, rfl, hshut, rfl⟩
    rw [Mark.read?, closeTag?_append hshut, Option.map_some]

/-- Where a tag starts, the first token is the mark that is read there. -/
theorem Token.ofText_of_read? {t rest : Text} {m : Mark} (hstart : startsTag t = true)
    (h : Mark.read? t = some (m, rest)) (p : Position) :
    ∃ written, t = written ++ rest ∧ ofText p t = .mark m p :: ofText (p.after written) rest := by
  obtain ⟨inner, rfl, hshut, rfl⟩ := Mark.read?_eq_some_iff.1 h
  exact ⟨'<' :: inner ++ ['>'], by simp, ofText_mark hstart hshut p⟩

theorem Mark.eq_of_ofInner_opening {inner : Text} {tag : Tag}
    (h : Mark.ofInner inner = .opening tag) : tag = Tag.ofInner inner := by
  unfold Mark.ofInner at h
  split at h
  · cases h
  · exact (Mark.opening.inj h).symm

theorem Mark.legible_of_read? {t rest : Text} {tag : Tag}
    (h : Mark.read? t = some (.opening tag, rest)) : tag.Legible := by
  obtain ⟨inner, -, hshut, hmark⟩ := Mark.read?_eq_some_iff.1 h
  rw [Mark.eq_of_ofInner_opening hmark]
  exact Tag.legible_ofInner hshut

/-- Where a tag starts, it has a name. -/
theorem Mark.name_ne_nil_of_read? {t rest : Text} {tag : Tag} (hstart : startsTag t = true)
    (h : Mark.read? t = some (.opening tag, rest)) : tag.name ≠ [] := by
  obtain ⟨inner, rfl, hshut, hmark⟩ := Mark.read?_eq_some_iff.1 h
  have hwell := Mark.wellFormed_ofInner hstart hshut
  rw [hmark] at hwell
  obtain ⟨c, hc, -⟩ := hwell.name.head
  intro hnil
  rw [hnil] at hc
  cases hc

/-! ## Writing it again -/

def Tag.closed (tag : Tag) : Tag :=
  { tag with selfClosed := true }

theorem Tag.Legible.closed {tag : Tag} (h : tag.Legible) : tag.closed.Legible :=
  ⟨h.chars, h.attrs_trimmed, h.attrs_shut, fun _ => rfl⟩

theorem Tag.Legible.read?_spell {tag : Tag} (h : tag.Legible)
    (hne : tag.name ≠ [] ∨ tag.attrs ≠ []) (u : Text) :
    Mark.read? (tag.spell ++ u) = some (.opening tag, u) := by
  refine Mark.read?_eq_some_iff.2 ⟨tag.inner, ?_, h.shut_inner, ?_⟩
  · rw [Tag.spell_eq]
    simp
  · rw [Mark.ofInner_of_head? (h.head?_inner hne), h.ofInner_inner]

/-- The tag is read again from its spelling, up to what stands behind it, and so it is with `/>` for
its end. A text is read for a mark only where `startsTag` holds (`Token.ofText_of_read?`), so that
`htag` excludes nothing that is read. It is there for the other places, where `< />` would be read as a
tag with neither a name nor attributes, and spelled as the closing tag `</>`. -/
theorem reread_spell {t rest : Text} {tag : Tag}
    (hread : Mark.read? t = some (.opening tag, rest))
    (htag : startsTag t = true ∨ tag.name ≠ [] ∨ tag.attrs ≠ []) (u : Text) :
    Mark.read? (tag.spell ++ u) = some (.opening tag, u) ∧
      Mark.read? (tag.lead ++ ('/' :: '>' :: u)) = some (.opening tag.closed, u) := by
  have hlegible := Mark.legible_of_read? hread
  have hne : tag.name ≠ [] ∨ tag.attrs ≠ [] := by
    rcases htag with hstart | hne
    · exact .inl (Mark.name_ne_nil_of_read? hstart hread)
    · exact hne
  refine ⟨hlegible.read?_spell hne u, ?_⟩
  have hclosed := hlegible.closed.read?_spell hne u
  have hspell : tag.closed.spell ++ u = tag.lead ++ ('/' :: '>' :: u) := by
    simp [Tag.closed, Tag.spell, Tag.lead]
  rwa [hspell] at hclosed

/-- Quotes in quotes, what would end a tag inside of them, and slashes in a row; then a void element,
whose tag gets the slash. -/
theorem reread_spell_slashes :
    let t := "<a\n title=\"it's > b/\"  x='</b>' y=< // / >c".toList
    let tag : Tag := ⟨"a".toList, "title=\"it's > b/\"  x='</b>' y=< //".toList, true⟩
    let t' := "<BR\tx='/>'>".toList
    let tag' : Tag := ⟨"BR".toList, "x='/>'".toList, false⟩
    startsTag t = true ∧ Mark.read? t = some (.opening tag, "c".toList) ∧
    startsTag t' = true ∧ Mark.read? t' = some (.opening tag', []) ∧
    ∀ u : Text,
      Mark.read? ("<a title=\"it's > b/\"  x='</b>' y=< ///>".toList ++ u) =
        some (.opening tag, u) ∧
      Mark.read? ("<BR x='/>'>".toList ++ u) = some (.opening tag', u) ∧
      Mark.read? ("<BR x='/>'/>".toList ++ u) = some (.opening tag'.closed, u) := by
  intro t tag t' tag'
  have hread : Mark.read? t = some (.opening tag, "c".toList) := by decide +kernel
  have hread' : Mark.read? t' = some (.opening tag', []) := by decide +kernel
  refine ⟨by decide, hread, by decide, hread', fun u => ?_⟩
  have hvoid := reread_spell hread' (.inl (by decide)) u
  exact ⟨(reread_spell hread (.inl (by decide)) u).1, hvoid.1, hvoid.2⟩

end TemplLayout
