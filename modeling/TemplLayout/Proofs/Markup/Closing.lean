import TemplLayout.Proofs.Markup.Traversal

/-!
# TemplLayout.Proofs.Markup.Closing

Which elements get a closing tag of their own, and which of them are warned of.

* `Nesting.closes s tok`  — the position of the element that the token closes by its closing tag.
* `closedTags p t`        — the positions of all elements closed that way while `t`, which stands at
  `p`, is read. A void element whose position is not among them was left open: it is closed by a
  closing tag of another name, or by the end of the block.
* `Node.warning? n`       — the warning about an element with its final content.

Warnings are given while elements are still moved about. They are nevertheless those about the
elements of the finished forest, in postorder (`warnings_eq_postorder`), each about an element of its
own (`nodup_warnings`), and none about an element that was left open (`closed_of_mem_warnings`).
-/

namespace TemplLayout

open Text Node

namespace Nesting

def closes (s : Nesting) : Token → Option Position
  | .mark (.closing name) p => (unwind name p [] s.opened).toOption.map (·.1.position)
  | _ => none

/-- The positions that tokens close one after the other, up to the first that is refused. -/
def closedBy (s : Nesting) : List Token → List Position
  | [] => []
  | tok :: toks =>
    match s.step tok with
    | (s', none) => (s.closes tok).toList ++ s'.closedBy toks
    | (_, some _) => []

theorem closedBy_cons {s s' : Nesting} {tok : Token} (toks : List Token)
    (h : s.step tok = (s', none)) :
    s.closedBy (tok :: toks) = (s.closes tok).toList ++ s'.closedBy toks := by
  rw [closedBy, h]

/-- Only an element that gets its closing tag is warned of. -/
theorem closes_of_mem_warnings {s s' : Nesting} {tok : Token} (h : s.step tok = (s', none))
    {w : Warning} (hw : w ∈ s'.warnings) : w ∈ s.warnings ∨ s.closes tok = some w.position := by
  have hpush : ∀ (s : Nesting) (n : Node Position), (s.push n).warnings = s.warnings := by
    rintro ⟨_ | ⟨e, outer⟩, outside, warnings⟩ n <;> rfl
  rcases tok with content | ⟨tag | name, p⟩ | ⟨name, p⟩
  · cases h
    rw [hpush] at hw
    exact .inl hw
  · rw [step] at h
    split at h
    · cases h
      rw [hpush] at hw
      exact .inl hw
    · cases h
      exact .inl hw
  · rw [step] at h
    split at h
    · cases h
    · rename_i e content outer hunwind
      cases h
      rw [hpush] at hw
      rcases List.mem_append.1 hw with hw | hw
      · exact .inl hw
      · right
        rw [warningsOf] at hw
        split at hw
        · rw [List.mem_singleton.1 hw, closes, hunwind]
          rfl
        · cases hw
  · cases h

theorem closedBy_of_mem_warnings {s s' : Nesting} {toks : List Token}
    (h : feed step s toks = (s', none)) {w : Warning} (hw : w ∈ s'.warnings) :
    w ∈ s.warnings ∨ w.position ∈ s.closedBy toks := by
  induction toks generalizing s with
  | nil =>
    cases h
    exact .inl hw
  | cons tok toks ih =>
    obtain ⟨s₁, hstep, hrest⟩ := exists_of_feed_cons h
    rw [closedBy_cons toks hstep, List.mem_append]
    rcases ih hrest with hs₁ | hclosed
    · rcases closes_of_mem_warnings hstep hs₁ with hs | hcloses
      · exact .inl hs
      · exact .inr (.inl (by simp [hcloses]))
    · exact .inr (.inr hclosed)

end Nesting

def closedTags (p : Position) (t : Text) : List Position :=
  Nesting.empty.closedBy (Token.ofText p t)

theorem closedTags_nil (p : Position) : closedTags p [] = [] := by
  rw [closedTags, Token.ofText_nil]
  rfl

def Node.warning? : Node Position → Option Warning
  | .text _ => none
  | .element tag p children =>
    if isVoid tag.name && children.any (!·.isBlank) then some ⟨tag.name, p⟩ else none

theorem Forest.warnings_eq_postorder (f : Forest) :
    Forest.warnings f = (postorderAll f).filterMap Node.warning? := by
  induction f using forest_induction with
  | nil => rfl
  | text content f ih => exact ih
  | element tag p children f ihc ihs =>
    rw [Forest.warnings] at ihc ihs ⊢
    rw [loadedAll_cons, loaded, postorderAll, postorder, List.map_append, List.map_append, ihc, ihs,
      List.filterMap_append, List.filterMap_append]
    congr 2
    rw [List.filterMap_cons, Node.warning?]
    split <;> rfl

section

variable {p : Position} {t : Text} {f : Forest} {ws : List Warning}

theorem Forest.warnings_of_read (h : Forest.read p t = .ok (f, ws)) : ws = Forest.warnings f := by
  have hnone : Lacks (fun _ => false) t := fun _ _ => rfl
  have hpattern : Pattern (fun _ => False) fun _ => false := ⟨by simp, by simp, by simp⟩
  exact (Forest.read_sound hpattern hnone h).2

theorem closed_of_mem_warnings (h : Forest.read p t = .ok (f, ws)) :
    ∀ w ∈ ws, w.position ∈ closedTags p t := by
  obtain ⟨s, hfeed, -, rfl⟩ := Forest.read_eq_ok_iff.1 h
  intro w hw
  rcases Nesting.closedBy_of_mem_warnings hfeed hw with hempty | hclosed
  · cases hempty
  · exact hclosed

/-- An element is warned of where it stands. -/
theorem warnings_sublist (f : Forest) :
    ((Forest.warnings f).map (·.position)).Sublist
      ((postorderAll f).filterMap Node.place?) := by
  rw [Forest.warnings_eq_postorder]
  induction postorderAll f with
  | nil => exact .slnil
  | cons n ns ih =>
    rcases n with content | ⟨tag, q, children⟩
    · exact ih
    · rw [List.filterMap_cons, Node.warning?]
      split
      · rename_i hwarn
        split at hwarn
        · cases hwarn
        · exact ih.cons q
      · rename_i w hwarn
        split at hwarn
        · cases hwarn
          exact ih.cons_cons q
        · cases hwarn

theorem nodup_warnings (h : Forest.read p t = .ok (f, ws)) :
    (ws.map (·.position.offset)).Nodup := by
  obtain rfl := Forest.warnings_of_read h
  have hplaces := (places_postorder_perm f).map (·.offset)
  have hnodup := hplaces.nodup_iff.2 (rising_preorder h).nodup
  have hsub := (warnings_sublist f).map (·.offset)
  rw [List.map_map] at hsub
  exact hnodup.sublist hsub

theorem bounds_of_mem_warnings (h : Forest.read p t = .ok (f, ws)) :
    ∀ w ∈ ws, p.offset ≤ w.position.offset ∧ w.position.offset < (p.after t).offset := by
  obtain rfl := Forest.warnings_of_read h
  intro w hw
  have hmem := (warnings_sublist f).subset (List.mem_map_of_mem hw)
  exact (rising_preorder h).bounds _ ((places_postorder_perm f).mem_iff.1 hmem)

end

end TemplLayout
