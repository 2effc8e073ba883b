import TemplLayout.Proofs.Markup.ReadBack

/-!
# TemplLayout.Proofs.Markup.RoundTrip

Every well-formed forest can be written, and however it is written it is read back
(`read_returns_written`). A void element with both of its tags is no exception, also when there are
void elements of the same name inside it: reading gives a closing tag to the innermost open element
of its name, and writing has closed those inside before.
-/

namespace TemplLayout

open Text Node

/-- The forest comes back whole, and its warnings are those that it gives rise to. Nothing is asked of
its texts and attributes beyond what makes them texts and attributes. -/
theorem read_returns_written {ns : List (Node Unit)} (h : WellFormedAll (fun _ => True) ns) :
    Written ns (spellAll ns) ∧
      ∀ t, Written ns t → ∀ p, ∃ f : Forest,
        Forest.read p t = .ok (f, Forest.warnings f) ∧ unplacedAll f = ns := by
  refine ⟨written_spellAll h, fun t ht p => ?_⟩
  obtain ⟨f, hf, hread⟩ := read_written ht h p
  exact ⟨f, hread, hf.trans (unplacedAll_unit ns)⟩

/-! One `br` in another, a `<` in front of a tag, and quotes around what would end a tag. -/

def innerTag : Tag := ⟨"BR".toList, "x='>/'".toList, false⟩

def innerBreak : Node Unit := .element innerTag () [.text "b".toList]

def outerTag : Tag := ⟨"br".toList, [], false⟩

def outerBreak : Node Unit := .element outerTag () [.text "a<".toList, innerBreak]

def imageTag : Tag := ⟨"img".toList, "src=/".toList, true⟩

def slashedImage : Node Unit := .element imageTag () []

theorem wellFormedAll_entangled : WellFormedAll (fun _ => True) [outerBreak, slashedImage] := by
  have hb : Lacks startsTag "b".toList := lacks_cons.2 ⟨rfl, pattern_startsTag.lacks_nil⟩
  have ha : Lacks startsTag "a<".toList :=
    lacks_cons.2 ⟨rfl, lacks_cons.2 ⟨rfl, pattern_startsTag.lacks_nil⟩⟩
  have hinnerTag : innerTag.WellFormed :=
    ⟨⟨⟨'B', rfl, rfl⟩, List.all_eq_true.1 rfl⟩, ⟨rfl, rfl⟩, by simp [innerTag, Shut, quoteAfter],
      by decide⟩
  have houterTag : outerTag.WellFormed :=
    ⟨⟨⟨'b', rfl, rfl⟩, List.all_eq_true.1 rfl⟩, ⟨rfl, rfl⟩, rfl, by decide⟩
  have himageTag : imageTag.WellFormed :=
    ⟨⟨⟨'i', rfl, rfl⟩, List.all_eq_true.1 rfl⟩, ⟨rfl, rfl⟩, by simp [imageTag, Shut, quoteAfter],
      fun _ => rfl⟩
  have hinner : innerBreak.WellFormed (fun _ => True) :=
    wellFormed_element_iff.2 ⟨hinnerTag, trivial, by decide,
      wellFormedAll_singleton.2 (.text (by decide) hb trivial)⟩
  have hchildren : WellFormedAll (fun _ => True) [.text "a<".toList, innerBreak] :=
    wellFormedAll_cons.2 ⟨.text (by decide) ha trivial, fun n hn => by cases hn; exact .inr rfl,
      wellFormedAll_singleton.2 hinner⟩
  have houter : outerBreak.WellFormed (fun _ => True) :=
    wellFormed_element_iff.2 ⟨houterTag, trivial, by decide, hchildren⟩
  have himage : slashedImage.WellFormed (fun _ => True) :=
    wellFormed_element_iff.2 ⟨himageTag, trivial, fun _ => rfl, wellFormedAll_nil⟩
  exact wellFormedAll_cons.2 ⟨houter, fun _ _ => .inl rfl, wellFormedAll_singleton.2 himage⟩

theorem written_entangled :
    Written [outerBreak, slashedImage] "<br>a<<BR x='>/'>b</br></bR><img src=//>".toList := by
  have hinner : Written [innerBreak]
      (innerTag.spell ++ ("b".toList ++ [] ++ (closingTag "br".toList ++ []))) :=
    .element rfl (.text .nil) (by decide) .nil
  have himage : Written [slashedImage] "<img src=//>".toList := .leaf rfl .nil
  have houter : Written [outerBreak, slashedImage]
      (outerTag.spell ++ ("a<".toList ++ "<BR x='>/'>b</br>".toList ++
        (closingTag "bR".toList ++ "<img src=//>".toList))) :=
    .element rfl (.text hinner) (by decide) himage
  exact houter

theorem read_returns_written_entangled :
    WellFormedAll (fun _ => True) [outerBreak, slashedImage] ∧
      ∃ f : Forest,
        Forest.read .start "<br>a<<BR x='>/'>b</br></bR><img src=//>".toList =
          .ok (f, Forest.warnings f) ∧
        unplacedAll f = [outerBreak, slashedImage] :=
  ⟨wellFormedAll_entangled,
    (read_returns_written wellFormedAll_entangled).2 _ written_entangled .start⟩

end TemplLayout
