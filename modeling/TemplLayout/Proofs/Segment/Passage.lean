import TemplLayout.Proofs.Text.Cut
import TemplLayout.Segment.Reader

/-!
# TemplLayout.Proofs.Segment.Passage

A source as a row of passages, each of them a directive with the text that stands before it.

* `Passage`              — a directive and the text before it, which may be empty.
* `Passage.WellFormed q` — no directive opens in the text before it, and its body closes none.
* `scanFrom p t`         — the segments of `t`, which stands at `p`.

Every text is a row of well-formed passages and either a last text in which no directive opens, or a
directive that is never closed (`passage_cases`). What a passage gives when it is scanned does not
depend on what follows it (`scanFrom_passage`).
-/

namespace TemplLayout

open Text

structure Passage where
  before : Text
  body : Text
deriving DecidableEq, Repr

namespace Passage

def spell (q : Passage) : Text :=
  q.before ++ (Piece.directive q.body).spell

structure WellFormed (q : Passage) : Prop where
  before : Lacks opensDirective q.before
  body : Lacks closesDirective q.body

end Passage

def scanFrom (p : Position) (t : Text) : List (Except Fault Segment) :=
  (Reader.mk t p false).rest

/-- The segments of a text without directives; an empty text has none. -/
def literalItems (p : Position) (t : Text) : List (Except Fault Segment) :=
  if t.isEmpty then [] else [.ok (.literal t p)]

theorem scan_eq_scanFrom (source : Text) : scan source = scanFrom .start source := rfl

theorem scanFrom_nil (p : Position) : scanFrom p [] = [] := by
  rw [scanFrom, Reader.rest_eq]
  rfl

/-! ## One piece -/

theorem closeDirective?_append {body : Text} (h : Lacks closesDirective body) (rest : Text) :
    Piece.closeDirective? (body ++ '%' :: '}' :: rest) = some (body, rest) := by
  have hseam : Seam (· = ['%', '}']) body ('%' :: '}' :: rest) := seam_pair (.inl (by simp))
  rw [Piece.closeDirective?, breakAt_seam (pattern_closesDirective.seam h hseam) (.inr rfl)]
  rfl

theorem closeDirective?_of_lacks {t : Text} (h : Lacks closesDirective t) :
    Piece.closeDirective? t = none := by
  rw [Piece.closeDirective?, breakAt_of_lacks h]

theorem cut?_directive (t : Text) :
    Piece.cut? ('{' :: '%' :: t) =
      (Piece.closeDirective? t).map fun (body, rest) => (.directive body, rest) := rfl

theorem cut?_literal {t : Text} (hne : t ≠ []) (h : opensDirective t = false) :
    Piece.cut? t = some (.literal (t.breakAt opensDirective).1, (t.breakAt opensDirective).2) := by
  unfold Piece.cut?
  split
  · exact absurd rfl hne
  · cases h
  · rfl

/-- A text without directives is cut off whole, up to the directive that opens behind it. -/
theorem cut?_literal_append {s t : Text} (hs : Lacks opensDirective s) (hne : s ≠ [])
    (ht : t = [] ∨ opensDirective t = true) : Piece.cut? (s ++ t) = some (.literal s, t) := by
  have hseam : Seam (· = ['{', '%']) s t := by
    rcases ht with rfl | ht
    · exact seam_pair (.inl (by simp))
    · obtain ⟨_, rfl, u, rfl⟩ := (pattern_opensDirective.found_iff t).1 ht
      exact seam_pair (.inl (by simp))
  have hfront := pattern_opensDirective.seam hs hseam
  rw [cut?_literal (by simp [hne]) (hfront s (List.suffix_refl s) hne), breakAt_seam hfront ht]

theorem cut?_directive_append {body : Text} (h : Lacks closesDirective body) (t : Text) :
    Piece.cut? ((Piece.directive body).spell ++ t) = some (.directive body, t) := by
  rw [Piece.spell, List.cons_append, List.cons_append, List.append_assoc, cut?_directive]
  rw [List.cons_append, List.cons_append, List.nil_append, closeDirective?_append h]
  rfl

/-- A directive that is never closed. -/
theorem cut?_unterminated {t : Text} (h : Lacks closesDirective t) :
    Piece.cut? ('{' :: '%' :: t) = none := by
  rw [cut?_directive, closeDirective?_of_lacks h]
  rfl

theorem scanFrom_cut {p : Position} {t rest : Text} {piece : Piece}
    (h : Piece.cut? t = some (piece, rest)) :
    scanFrom p t = .ok (piece.placed p) :: scanFrom (p.after piece.spell) rest := by
  have hne : t ≠ [] := by
    rintro rfl
    cases h
  rw [scanFrom, Reader.rest_eq, Reader.next]
  simp [hne, h, scanFrom]

theorem scanFrom_fault {p : Position} {t : Text} (hne : t ≠ []) (h : Piece.cut? t = none) :
    scanFrom p t = [.error (.unterminatedDirective p)] := by
  rw [scanFrom, Reader.rest_eq, Reader.next]
  simp [hne, h]

/-! ## A text, and what opens behind it -/

/-- A text without directives makes one segment, up to the directive that opens behind it. -/
theorem scanFrom_literal {s t : Text} (hs : Lacks opensDirective s)
    (ht : t = [] ∨ opensDirective t = true) (p : Position) :
    scanFrom p (s ++ t) = literalItems p s ++ scanFrom (p.after s) t := by
  cases s with
  | nil => rfl
  | cons c s =>
    rw [scanFrom_cut (cut?_literal_append hs (List.cons_ne_nil c s) ht)]
    rfl

theorem scanFrom_last {t : Text} (h : Lacks opensDirective t) (p : Position) :
    scanFrom p t = literalItems p t := by
  have := scanFrom_literal h (.inl rfl) p
  rwa [List.append_nil, scanFrom_nil, List.append_nil] at this

theorem scanFrom_passage {q : Passage} (hq : q.WellFormed) (u : Text) (p : Position) :
    scanFrom p (q.spell ++ u) =
      literalItems p q.before ++ .ok (.directive q.body.trim (p.after q.before)) ::
        scanFrom (p.after q.spell) u := by
  rw [Passage.spell, List.append_assoc, scanFrom_literal hq.before (.inr rfl),
    scanFrom_cut (cut?_directive_append hq.body u), ← Position.after_append]
  rfl

theorem scanFrom_unterminated {s t : Text} (hs : Lacks opensDirective s)
    (ht : Lacks closesDirective t) (p : Position) :
    scanFrom p (s ++ '{' :: '%' :: t) =
      literalItems p s ++ [.error (.unterminatedDirective (p.after s))] := by
  rw [scanFrom_literal hs (.inr rfl), scanFrom_fault (List.cons_ne_nil _ _) (cut?_unterminated ht)]

/-! ## Every text is a row of passages -/

theorem closeDirective?_cases (t : Text) :
    Lacks closesDirective t ∨
      ∃ body rest, Lacks closesDirective body ∧ t = body ++ '%' :: '}' :: rest := by
  have happ := breakAt_append closesDirective t
  have hlacks := pattern_closesDirective.lacks_breakAt_fst t
  rcases breakAt_snd closesDirective t with hnil | hfound
  · rw [hnil, List.append_nil] at happ
    exact .inl (happ ▸ hlacks)
  · obtain ⟨_, rfl, rest, hrest⟩ := (pattern_closesDirective.found_iff _).1 hfound
    exact .inr ⟨_, rest, hlacks, happ.symm.trans (by rw [← hrest]; rfl)⟩

theorem passage_cases (t : Text) :
    Lacks opensDirective t ∨
      (∃ q : Passage, ∃ rest, q.WellFormed ∧ t = q.spell ++ rest) ∨
      ∃ before body, Lacks opensDirective before ∧ Lacks closesDirective body ∧
        t = before ++ '{' :: '%' :: body := by
  have happ := breakAt_append opensDirective t
  have hlacks := pattern_opensDirective.lacks_breakAt_fst t
  rcases breakAt_snd opensDirective t with hnil | hfound
  · rw [hnil, List.append_nil] at happ
    exact .inl (happ ▸ hlacks)
  · obtain ⟨_, rfl, u, hu⟩ := (pattern_opensDirective.found_iff _).1 hfound
    rw [← hu] at happ
    rcases closeDirective?_cases u with hopen | ⟨body, rest, hbody, rfl⟩
    · exact .inr (.inr ⟨_, u, hlacks, hopen, happ.symm⟩)
    · refine .inr (.inl ⟨⟨_, body⟩, rest, ⟨hlacks, hbody⟩, happ.symm.trans ?_⟩)
      simp [Passage.spell, Piece.spell]

@[elab_as_elim]
theorem passage_induction {motive : Text → Prop} (last : ∀ t, Lacks opensDirective t → motive t)
    (passage : ∀ (q : Passage) rest, q.WellFormed → motive rest → motive (q.spell ++ rest))
    (unterminated : ∀ before body, Lacks opensDirective before → Lacks closesDirective body →
      motive (before ++ '{' :: '%' :: body))
    (t : Text) : motive t := by
  induction hn : t.length using Nat.strongRecOn generalizing t with
  | _ n ih =>
    rcases passage_cases t with h | ⟨q, rest, hq, rfl⟩ | ⟨before, body, hb, hbody, rfl⟩
    · exact last t h
    · refine passage q rest hq (ih _ ?_ rest rfl)
      rw [← hn, Passage.spell, Piece.spell]
      simp only [List.length_append, List.length_cons]
      omega
    · exact unterminated before body hb hbody

theorem exists_passages (t : Text) :
    ∃ qs : List Passage, ∃ u, (∀ q ∈ qs, q.WellFormed) ∧ t = qs.flatMap Passage.spell ++ u ∧
      (Lacks opensDirective u ∨
        ∃ before body, Lacks opensDirective before ∧ Lacks closesDirective body ∧
          u = before ++ '{' :: '%' :: body) := by
  induction t using passage_induction with
  | last t ht => exact ⟨[], t, by simp, rfl, .inl ht⟩
  | passage q rest hq ih =>
    obtain ⟨qs, u, hqs, rfl, hu⟩ := ih
    refine ⟨q :: qs, u, List.forall_mem_cons.2 ⟨hq, hqs⟩, ?_, hu⟩
    rw [List.flatMap_cons, List.append_assoc]
  | unterminated before body hb hbody =>
    exact ⟨[], _, by simp, rfl, .inr ⟨before, body, hb, hbody, rfl⟩⟩

end TemplLayout
