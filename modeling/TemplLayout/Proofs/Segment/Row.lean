import Mathlib.Data.List.Chain
import TemplLayout.Proofs.Segment.Passage

/-!
# TemplLayout.Proofs.Segment.Row

A source as a row of pieces, and what its reader gives for it.

* `IsRow ps`            — the pieces can be told apart again: no literal is empty or stands beside
  another, and no piece holds the delimiter that would end it.
* `Piece.spellAll ps`   — the row as it is written.
* `Piece.placedAll p ps` — the segments of the row, which stands at `p`.
* `PlacedInOrder ps ss` — the segments `ss` are the pieces `ps`, each at the byte offset of what stands
  before it.
* `Reader.asked r n`    — the reader `r` when it has been asked for its next segment `n` times.

Every text is a row, or a row with a directive behind it that is never closed (`exists_row`), and the
reader gives back the row that was written (`scan_decodes`).
-/

namespace TemplLayout

open Text

namespace Piece

def isLiteral : Piece → Bool
  | .literal _ => true
  | .directive _ => false

def WellFormed : Piece → Prop
  | .literal text => text ≠ [] ∧ ¬ ['{', '%'] <:+: text
  | .directive body => ¬ ['%', '}'] <:+: body

instance : (x : Piece) → Decidable x.WellFormed
  | .literal text => inferInstanceAs (Decidable (text ≠ [] ∧ ¬ ['{', '%'] <:+: text))
  | .directive body => inferInstanceAs (Decidable (¬ ['%', '}'] <:+: body))

def spellAll (ps : List Piece) : Text :=
  ps.flatMap spell

def placedAll (p : Position) : List Piece → List Segment
  | [] => []
  | x :: ps => x.placed p :: placedAll (p.after x.spell) ps

end Piece

structure IsRow (ps : List Piece) : Prop where
  each : ∀ x ∈ ps, x.WellFormed
  apart : ps.IsChain fun x y => x.isLiteral = false ∨ y.isLiteral = false

open Piece

structure PlacedInOrder (ps : List Piece) (segments : List Segment) : Prop where
  length : segments.length = ps.length
  placed : ∀ n x, ps[n]? = some x → ∃ p : Position,
    p.offset = (spellAll (ps.take n)).utf8.length ∧ segments[n]? = some (x.placed p)

theorem lacks_opensDirective_iff {t : Text} : Lacks opensDirective t ↔ ¬ ['{', '%'] <:+: t := by
  rw [pattern_opensDirective.lacks_iff, forall_eq]

theorem lacks_closesDirective_iff {t : Text} : Lacks closesDirective t ↔ ¬ ['%', '}'] <:+: t := by
  rw [pattern_closesDirective.lacks_iff, forall_eq]

/-! ## Rows -/

theorem isRow_nil : IsRow [] := ⟨by simp, .nil⟩

theorem isRow_cons {x : Piece} {ps : List Piece} :
    IsRow (x :: ps) ↔
      x.WellFormed ∧ (∀ y ∈ ps.head?, x.isLiteral = false ∨ y.isLiteral = false) ∧ IsRow ps := by
  constructor
  · rintro ⟨heach, hapart⟩
    rw [List.forall_mem_cons] at heach
    rw [List.isChain_cons] at hapart
    exact ⟨heach.1, hapart.1, heach.2, hapart.2⟩
  · rintro ⟨hx, hhead, heach, hapart⟩
    exact ⟨List.forall_mem_cons.2 ⟨hx, heach⟩, List.isChain_cons.2 ⟨hhead, hapart⟩⟩

/-- A text in front of a row that begins with a directive, unless there is no text. -/
theorem isRow_literal_append {s : Text} {ps : List Piece} (hs : Lacks opensDirective s)
    (hps : IsRow ps) (hhead : ∀ y ∈ ps.head?, y.isLiteral = false) :
    ∃ qs, IsRow qs ∧ spellAll qs = s ++ spellAll ps := by
  cases s with
  | nil => exact ⟨ps, hps, rfl⟩
  | cons c s =>
    refine ⟨.literal (c :: s) :: ps, isRow_cons.2 ⟨⟨List.cons_ne_nil c s, ?_⟩, ?_, hps⟩, rfl⟩
    · exact lacks_opensDirective_iff.1 hs
    · exact fun y hy => .inr (hhead y hy)

theorem exists_row (t : Text) :
    (∃ ps, IsRow ps ∧ t = spellAll ps) ∨
      ∃ ps body, IsRow ps ∧ ¬ ['%', '}'] <:+: body ∧ t = spellAll ps ++ '{' :: '%' :: body := by
  induction t using passage_induction with
  | last t ht =>
    obtain ⟨qs, hqs, hspell⟩ := isRow_literal_append ht isRow_nil (by simp)
    exact .inl ⟨qs, hqs, by rw [hspell]; simp [spellAll]⟩
  | passage q rest hq ih =>
    have hrow : ∀ ps, IsRow ps → ∃ qs, IsRow qs ∧ spellAll qs = q.spell ++ spellAll ps := by
      intro ps hps
      have hdirective : IsRow (.directive q.body :: ps) :=
        isRow_cons.2 ⟨lacks_closesDirective_iff.1 hq.body, fun _ _ => .inl rfl, hps⟩
      obtain ⟨qs, hqs, hspell⟩ := isRow_literal_append hq.before hdirective (by simp [isLiteral])
      refine ⟨qs, hqs, hspell.trans ?_⟩
      rw [Passage.spell, List.append_assoc]
      rfl
    rcases ih with ⟨ps, hps, rfl⟩ | ⟨ps, body, hps, hbody, rfl⟩
    · obtain ⟨qs, hqs, hspell⟩ := hrow ps hps
      exact .inl ⟨qs, hqs, hspell.symm⟩
    · obtain ⟨qs, hqs, hspell⟩ := hrow ps hps
      exact .inr ⟨qs, body, hqs, hbody, by rw [hspell, List.append_assoc]⟩
  | unterminated before body hb hbody =>
    obtain ⟨qs, hqs, hspell⟩ := isRow_literal_append hb isRow_nil (by simp)
    refine .inr ⟨qs, body, hqs, lacks_closesDirective_iff.1 hbody, ?_⟩
    rw [hspell]
    simp [spellAll]

/-! ## Scanning a row -/

/-- The first piece of a row is cut off as it was written, whatever directive opens behind the
row. -/
theorem cut?_row {x : Piece} {ps : List Piece} {t : Text} (h : IsRow (x :: ps))
    (ht : t = [] ∨ opensDirective t = true) :
    cut? (spellAll (x :: ps) ++ t) = some (x, spellAll ps ++ t) := by
  obtain ⟨hx, hhead, -⟩ := isRow_cons.1 h
  rw [spellAll, List.flatMap_cons, List.append_assoc]
  cases x with
  | directive body => exact cut?_directive_append (lacks_closesDirective_iff.2 hx) _
  | literal text =>
    refine cut?_literal_append (lacks_opensDirective_iff.2 hx.2) hx.1 ?_
    cases ps with
    | nil => exact ht
    | cons y ps =>
      cases y with
      | literal s => simp [isLiteral] at hhead
      | directive body => exact .inr rfl

theorem scanFrom_row {ps : List Piece} {t : Text} (h : IsRow ps)
    (ht : t = [] ∨ opensDirective t = true) (p : Position) :
    scanFrom p (spellAll ps ++ t) =
      (placedAll p ps).map .ok ++ scanFrom (p.after (spellAll ps)) t := by
  induction ps generalizing p with
  | nil => rfl
  | cons x ps ih =>
    rw [scanFrom_cut (cut?_row h ht), ih (isRow_cons.1 h).2.2, ← Position.after_append]
    rfl

theorem scan_row {ps : List Piece} (h : IsRow ps) :
    scan (spellAll ps) = (placedAll .start ps).map .ok := by
  have hscan := scanFrom_row h (.inl rfl) .start
  rwa [scanFrom_nil, List.append_nil, List.append_nil] at hscan

theorem scan_row_unterminated {ps : List Piece} {body : Text} (h : IsRow ps)
    (hbody : Lacks closesDirective body) :
    scan (spellAll ps ++ '{' :: '%' :: body) =
      (placedAll .start ps).map .ok ++
        [.error (.unterminatedDirective (Position.start.after (spellAll ps)))] := by
  rw [scan_eq_scanFrom, scanFrom_row h (.inr rfl),
    scanFrom_fault (List.cons_ne_nil _ _) (cut?_unterminated hbody)]

/-- Each segment stands where the pieces before it end. -/
theorem getElem?_placedAll {ps : List Piece} {n : Nat} {x : Piece} (h : ps[n]? = some x)
    (p : Position) : (placedAll p ps)[n]? = some (x.placed (p.after (spellAll (ps.take n)))) := by
  induction ps generalizing n p with
  | nil => simp at h
  | cons y ps ih =>
    cases n with
    | zero =>
      cases h
      rfl
    | succ n =>
      have hn := ih (by simpa using h) (p.after y.spell)
      rw [← Position.after_append] at hn
      exact hn

theorem length_placedAll (p : Position) (ps : List Piece) :
    (placedAll p ps).length = ps.length := by
  induction ps generalizing p with
  | nil => rfl
  | cons x ps ih => rw [placedAll, List.length_cons, List.length_cons, ih]

theorem placedInOrder_placedAll (ps : List Piece) : PlacedInOrder ps (placedAll .start ps) := by
  refine ⟨length_placedAll .start ps, fun n x h => ⟨_, ?_, getElem?_placedAll h .start⟩⟩
  rw [Position.offset_after]
  exact Nat.zero_add _

/-! ## One segment at a time -/

namespace Reader

def asked (r : Reader) : Nat → Reader
  | 0 => r
  | n + 1 => r.next.2.asked n

/-- A reader that has nothing more to give stays where it is. -/
theorem next_of_none {r r' : Reader} (h : r.next = (none, r')) : r' = r := by
  rw [next] at h
  split at h
  · cases h
    rfl
  · split at h <;> cases h

theorem next_of_failed {r : Reader} (h : r.failed = true) : r.next = (none, r) := by
  rw [next, h]
  rfl

theorem failed_of_error {r r' : Reader} {fault : Fault} (h : r.next = (some (.error fault), r')) :
    r'.failed = true ∧ r'.position = r.position := by
  rw [next] at h
  split at h
  · cases h
  · split at h
    · cases h
    · cases h
      exact ⟨rfl, rfl⟩

theorem asked_add (r : Reader) (m n : Nat) : r.asked (m + n) = (r.asked m).asked n := by
  induction m generalizing r with
  | zero => rw [Nat.zero_add, asked]
  | succ m ih => rw [Nat.add_right_comm, asked, asked, ih]

theorem asked_of_none {r : Reader} (h : r.next = (none, r)) (n : Nat) : r.asked n = r := by
  induction n with
  | zero => rfl
  | succ n ih => rw [asked, h, ih]

/-- Asking again and again gives what is still to come, and nothing once that is used up. -/
theorem next_asked (r : Reader) (n : Nat) : (r.asked n).next.1 = r.rest[n]? := by
  induction n generalizing r with
  | zero =>
    rw [asked, rest_eq]
    split <;> simp_all
  | succ n ih =>
    rw [asked, ih, rest_eq r]
    split
    · rename_i r' h
      have hstay := next_of_none h
      subst hstay
      rw [h, rest_eq, h]
      simp
    · rename_i fault r' h
      rw [h, rest_eq, next_of_failed (failed_of_error h).1]
      simp
    · rename_i segment r' h
      rw [h, List.getElem?_cons_succ]

/-- Behind the last segment of a row the reader stands at the end of the row. -/
theorem asked_row {ps : List Piece} {t : Text} (h : IsRow ps)
    (ht : t = [] ∨ opensDirective t = true) (p : Position) :
    (Reader.mk (spellAll ps ++ t) p false).asked ps.length =
      ⟨t, p.after (spellAll ps), false⟩ := by
  induction ps generalizing p with
  | nil => rfl
  | cons x ps ih =>
    have hne : spellAll (x :: ps) ++ t ≠ [] := by
      intro hnil
      have hcut := cut?_row h ht
      rw [hnil] at hcut
      cases hcut
    have hnext : (Reader.mk (spellAll (x :: ps) ++ t) p false).next =
        (some (.ok (x.placed p)), ⟨spellAll ps ++ t, p.after x.spell, false⟩) := by
      rw [next]
      simp [hne, cut?_row h ht]
    rw [List.length_cons, asked, hnext, ih (isRow_cons.1 h).2.2, ← Position.after_append]
    rfl

/-- At a directive that is never closed the reader stays. -/
theorem position_asked_unterminated {body : Text} (h : Lacks closesDirective body) (p : Position)
    (n : Nat) : ((Reader.mk ('{' :: '%' :: body) p false).asked n).position = p := by
  cases n with
  | zero => rfl
  | succ n =>
    have hnext : (Reader.mk ('{' :: '%' :: body) p false).next =
        (some (.error (.unterminatedDirective p)), ⟨'{' :: '%' :: body, p, true⟩) := by
      rw [next]
      simp [cut?_unterminated h]
    rw [asked, hnext, asked_of_none (next_of_failed rfl)]

end Reader

/-! ## Exactness -/

/-- A source that is a row is scanned as that row, and every source that is scanned without a fault is
one. Otherwise it is a row and a directive that is never closed: that fault comes last, and the
reader stays in front of it. -/
theorem scan_decodes (source : Text) :
    (∀ n, ((Reader.ofSource source).asked n).next.1 = (scan source)[n]?) ∧
    (∀ ps, IsRow ps → source = spellAll ps →
      ∃ segments, PlacedInOrder ps segments ∧ scan source = segments.map .ok) ∧
    ((∀ fault, .error fault ∉ scan source) → ∃ ps, IsRow ps ∧ source = spellAll ps) ∧
    ((∃ fault, .error fault ∈ scan source) ↔
      ∃ ps body, IsRow ps ∧ ¬ ['%', '}'] <:+: body ∧
        source = spellAll ps ++ '{' :: '%' :: body) ∧
    (∀ ps body, IsRow ps → ¬ ['%', '}'] <:+: body → source = spellAll ps ++ '{' :: '%' :: body →
      ∃ (segments : List Segment) (p : Position), PlacedInOrder ps segments ∧
        p.offset = (spellAll ps).utf8.length ∧
        scan source = segments.map .ok ++ [.error (.unterminatedDirective p)] ∧
        ∀ n, ps.length ≤ n → ((Reader.ofSource source).asked n).position = p) := by
  refine ⟨fun n => Reader.next_asked _ n, ?_, ?_, ⟨?_, ?_⟩, ?_⟩
  · rintro ps hps rfl
    exact ⟨_, placedInOrder_placedAll ps, scan_row hps⟩
  · intro hok
    rcases exists_row source with hrow | ⟨ps, body, hps, hbody, rfl⟩
    · exact hrow
    · refine absurd ?_ (hok (.unterminatedDirective (Position.start.after (spellAll ps))))
      rw [scan_row_unterminated hps (lacks_closesDirective_iff.2 hbody)]
      simp
  · rintro ⟨fault, hfault⟩
    rcases exists_row source with ⟨ps, hps, rfl⟩ | hopen
    · rw [scan_row hps] at hfault
      simp at hfault
    · exact hopen
  · rintro ⟨ps, body, hps, hbody, rfl⟩
    refine ⟨.unterminatedDirective (Position.start.after (spellAll ps)), ?_⟩
    rw [scan_row_unterminated hps (lacks_closesDirective_iff.2 hbody)]
    simp
  · rintro ps body hps hbody rfl
    have hlacks := lacks_closesDirective_iff.2 hbody
    refine ⟨_, Position.start.after (spellAll ps), placedInOrder_placedAll ps, ?_,
      scan_row_unterminated hps hlacks, fun n hn => ?_⟩
    · rw [Position.offset_after]
      exact Nat.zero_add _
    · rw [← Nat.add_sub_cancel' hn, Reader.asked_add, Reader.ofSource,
        Reader.asked_row hps (.inr rfl), Reader.position_asked_unterminated hlacks]

/-- Delimiters that touch others of their kind, and a last directive that is never closed. -/
def crowded : List Piece :=
  [.literal ['{'], .directive " é%".toList, .literal ['%', '\x7d'], .directive ['\x7d', '%'],
    .directive []]

theorem scan_decodes_crowded :
    IsRow crowded ∧
      ∃ (segments : List Segment) (p : Position), PlacedInOrder crowded segments ∧ p.offset = 21 ∧
        scan (spellAll crowded ++ "\x7b% \x7d".toList) =
          segments.map .ok ++ [.error (.unterminatedDirective p)] ∧
        ∀ n, 5 ≤ n →
          ((Reader.ofSource (spellAll crowded ++ "\x7b% \x7d".toList)).asked n).position = p := by
  have hrow : IsRow crowded := ⟨by decide, by decide⟩
  obtain ⟨-, -, -, -, hopen⟩ := scan_decodes (spellAll crowded ++ "\x7b% \x7d".toList)
  exact ⟨hrow, hopen crowded " \x7d".toList hrow (by decide) rfl⟩

end TemplLayout
