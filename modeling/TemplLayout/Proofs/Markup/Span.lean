import Mathlib.Data.List.Chain
import TemplLayout.Proofs.Markup.Token

/-!
# TemplLayout.Proofs.Markup.Span

The text of a block as a row of spans.

* `Span`                — a run of text, or a tag by what stands between its `<` and its `>`.
* `IsMarkup xs`         — the spans can be told apart again: no run is empty, holds a tag or stands
  beside another run, and no `>` in a tag ends it.
* `Span.spellAll xs`    — the spans as they are written.
* `Span.tokensAll p xs` — their tokens, when they stand at `p`.
* `Rising a b ps`       — the offsets of the positions rise from `a` on, and stay below `b`.

Every text is a row of spans, or a row with a tag behind it that never ends (`exists_markup`), and a
row has the tokens of its spans (`ofText_markup`). The tags of a text stand at rising positions
(`rising_ofText`), so the position tells them apart.
-/

namespace TemplLayout

open Text

inductive Span where
  | run (content : Text)
  | tag (inner : Text)
deriving DecidableEq, Repr

namespace Span

def spell : Span → Text
  | .run content => content
  | .tag inner => '<' :: inner ++ ['>']

def isTag : Span → Bool
  | .run _ => false
  | .tag _ => true

def WellFormed : Span → Prop
  | .run content => content ≠ [] ∧ Lacks startsTag content
  | .tag inner => startsTag ('<' :: inner) = true ∧ Shut none inner

instance (x : Span) : Decidable x.WellFormed :=
  match x with
  | .run content => inferInstanceAs (Decidable (content ≠ [] ∧ Lacks startsTag content))
  | .tag inner => inferInstanceAs (Decidable (startsTag ('<' :: inner) = true ∧ Shut none inner))

def token (p : Position) : Span → Token
  | .run content => .text content
  | .tag inner => .mark (Mark.ofInner inner) p

def spellAll (xs : List Span) : Text :=
  xs.flatMap spell

def tokensAll (p : Position) : List Span → List Token
  | [] => []
  | x :: xs => x.token p :: tokensAll (p.after x.spell) xs

theorem spellAll_cons (x : Span) (xs : List Span) : spellAll (x :: xs) = x.spell ++ spellAll xs :=
  List.flatMap_cons

end Span

structure IsMarkup (xs : List Span) : Prop where
  each : ∀ x ∈ xs, x.WellFormed
  apart : xs.IsChain fun x y => x.isTag = true ∨ y.isTag = true

open TemplLayout.Span

theorem isMarkup_nil : IsMarkup [] := ⟨by simp, .nil⟩

theorem isMarkup_cons {x : Span} {xs : List Span} :
    IsMarkup (x :: xs) ↔
      x.WellFormed ∧ (∀ y ∈ xs.head?, x.isTag = true ∨ y.isTag = true) ∧ IsMarkup xs := by
  constructor
  · rintro ⟨heach, hapart⟩
    rw [List.forall_mem_cons] at heach
    rw [List.isChain_cons] at hapart
    exact ⟨heach.1, hapart.1, heach.2, hapart.2⟩
  · rintro ⟨hx, hhead, heach, hapart⟩
    exact ⟨List.forall_mem_cons.2 ⟨hx, heach⟩, List.isChain_cons.2 ⟨hhead, hapart⟩⟩

def decIsMarkup : (xs : List Span) → Decidable (IsMarkup xs)
  | [] => isTrue isMarkup_nil
  | _ :: xs =>
    have := decIsMarkup xs
    decidable_of_iff _ isMarkup_cons.symm

instance (xs : List Span) : Decidable (IsMarkup xs) := decIsMarkup xs

theorem isMarkup_tag_cons {inner : Text} {xs : List Span} (h : (Span.tag inner).WellFormed)
    (hxs : IsMarkup xs) : IsMarkup (.tag inner :: xs) :=
  isMarkup_cons.2 ⟨h, fun _ _ => .inl rfl, hxs⟩

/-- A `>` neither starts a tag nor helps to start one. -/
theorem startsTag_inner_iff {inner rest : Text} :
    startsTag ('<' :: (inner ++ '>' :: rest)) = true ↔ startsTag ('<' :: inner) = true := by
  constructor
  · intro h
    obtain ⟨c, u, hc, rfl | rfl⟩ := inner_of_startsTag h
    · exact (pattern_startsTag.found_iff _).2 ⟨['<', c], ⟨c, hc, .inl rfl⟩, u, rfl⟩
    · exact hc
  · exact fun h => pattern_startsTag.found_append ('>' :: rest) h

/-- A run of text and a tag, whatever follows them. -/
theorem Token.ofText_run_mark {s inner rest : Text} (hs : Lacks startsTag s)
    (hstart : startsTag ('<' :: (inner ++ '>' :: rest)) = true) (hi : Shut none inner)
    (p : Position) (u : Text) :
    Token.ofText p (s ++ '<' :: (inner ++ '>' :: u)) =
      Token.run s ++ .mark (Mark.ofInner inner) (p.after s) ::
        Token.ofText ((p.after s).after ('<' :: inner ++ ['>'])) u := by
  have hstart' : startsTag ('<' :: (inner ++ '>' :: u)) = true :=
    startsTag_inner_iff.2 (startsTag_inner_iff.1 hstart)
  rw [Token.ofText_run hs (.inr hstart'), Token.ofText_mark hstart' hi]

/-- A tag stands in front of a row that begins with it. -/
theorem startsTag_spellAll {x : Span} {xs : List Span} (hx : x.WellFormed) (htag : x.isTag = true)
    (t : Text) : startsTag (spellAll (x :: xs) ++ t) = true := by
  cases x with
  | run content => cases htag
  | tag inner =>
    rw [spellAll_cons, spell, List.append_assoc, List.append_assoc]
    exact startsTag_inner_iff.2 hx.1

/-! ## Every text is a row of spans -/

/-- A run of text in front of a row that begins with a tag, unless the run is empty. -/
theorem exists_markup_run {s : Text} {xs : List Span} (hs : Lacks startsTag s) (hxs : IsMarkup xs)
    (hhead : ∀ x ∈ xs.head?, x.isTag = true) :
    ∃ ys, IsMarkup ys ∧ spellAll ys = s ++ spellAll xs := by
  cases s with
  | nil => exact ⟨xs, hxs, rfl⟩
  | cons c s =>
    refine ⟨.run (c :: s) :: xs, isMarkup_cons.2 ⟨⟨List.cons_ne_nil c s, hs⟩, ?_, hxs⟩, rfl⟩
    exact fun y hy => .inr (hhead y hy)

theorem exists_markup (t : Text) :
    ∃ xs, IsMarkup xs ∧ (t = spellAll xs ∨ ∃ u, t = spellAll xs ++ '<' :: u ∧
      startsTag ('<' :: u) = true ∧ closeTag? u = none) := by
  induction t using markup_induction with
  | last s hs =>
    obtain ⟨ys, hys, hspell⟩ := exists_markup_run hs isMarkup_nil (by simp)
    exact ⟨ys, hys, .inl (by rw [hspell]; simp [spellAll])⟩
  | tag s inner rest hs hstart hi ih =>
    obtain ⟨xs, hxs, ht⟩ := ih
    have htag : IsMarkup (.tag inner :: xs) :=
      isMarkup_tag_cons ⟨startsTag_inner_iff.1 hstart, hi⟩ hxs
    obtain ⟨ys, hys, hspell⟩ := exists_markup_run hs htag (by simp [isTag])
    refine ⟨ys, hys, ?_⟩
    rw [hspell, spellAll_cons, spell]
    rcases ht with rfl | ⟨u, rfl, hu⟩
    · exact .inl (by simp)
    · exact .inr ⟨u, by simp, hu⟩
  | unterminated s u hs hstart hclose =>
    obtain ⟨ys, hys, hspell⟩ := exists_markup_run hs isMarkup_nil (by simp)
    exact ⟨ys, hys, .inr ⟨u, by rw [hspell]; simp [spellAll], hstart, hclose⟩⟩

/-- The tokens of a row, and of what stands behind it: nothing, a tag, or anything at all when the row
ends with a tag. -/
theorem ofText_markup {xs : List Span} {t : Text} (h : IsMarkup xs)
    (ht : t = [] ∨ startsTag t = true ∨ ∀ x ∈ xs.getLast?, x.isTag = true) (p : Position) :
    Token.ofText p (spellAll xs ++ t) =
      tokensAll p xs ++ Token.ofText (p.after (spellAll xs)) t := by
  induction xs generalizing p with
  | nil => rfl
  | cons x xs ih =>
    obtain ⟨hx, hhead, hxs⟩ := isMarkup_cons.1 h
    have hrest := ih hxs (ht.imp_right <| .imp_right fun hlast y hy => hlast y (by
      rw [List.getLast?_cons, hy]; rfl)) (p.after x.spell)
    cases x with
    | tag inner =>
      have hspell : spellAll (.tag inner :: xs) ++ t = '<' :: (inner ++ '>' :: (spellAll xs ++ t)) := by
        simp [spellAll_cons, spell]
      rw [hspell, Token.ofText_mark (startsTag_inner_iff.2 hx.1) hx.2, spellAll_cons,
        Position.after_append p (Span.tag inner).spell]
      exact congrArg _ hrest
    | run content =>
      have hnext : spellAll xs ++ t = [] ∨ startsTag (spellAll xs ++ t) = true := by
        cases xs with
        | nil =>
          rcases ht with rfl | ht | ht
          · exact .inl rfl
          · exact .inr ht
          · exact absurd (ht _ rfl) (by simp [isTag])
        | cons y ys =>
          have htag := (hhead y rfl).resolve_left (by simp [isTag])
          exact .inr (startsTag_spellAll (isMarkup_cons.1 hxs).1 htag t)
      have hrun : Token.run content = [.text content] := by simp [Token.run, hx.1]
      rw [spellAll_cons, List.append_assoc, spell, Token.ofText_run hx.2 hnext, hrun,
        Position.after_append]
      exact congrArg _ hrest

/-- A row has the tokens of its spans and no others. -/
theorem ofText_spellAll {xs : List Span} (h : IsMarkup xs) (p : Position) :
    Token.ofText p (spellAll xs) = tokensAll p xs := by
  have htoks := ofText_markup h (.inl rfl) p
  rwa [Token.ofText_nil, List.append_nil, List.append_nil] at htoks

/-- A tag behind a row, and anything behind the tag. -/
theorem ofText_tag_append {xs : List Span} {inner : Text} (hxs : IsMarkup xs)
    (hinner : (Span.tag inner).WellFormed) (p : Position) (rest : Text) :
    Token.ofText p (spellAll xs ++ '<' :: (inner ++ '>' :: rest)) =
      tokensAll p xs ++ .mark (Mark.ofInner inner) (p.after (spellAll xs)) ::
        Token.ofText ((p.after (spellAll xs)).after ('<' :: inner ++ ['>'])) rest := by
  have hstart : startsTag ('<' :: (inner ++ '>' :: rest)) = true := startsTag_inner_iff.2 hinner.1
  rw [ofText_markup hxs (.inr (.inl hstart)), Token.ofText_mark hstart hinner.2]

/-- Each tag of a text stands behind a row. -/
theorem exists_of_mem_ofText {p q : Position} {t : Text} {m : Mark}
    (h : .mark m q ∈ Token.ofText p t) :
    ∃ xs inner rest, IsMarkup xs ∧ (Span.tag inner).WellFormed ∧
      t = spellAll xs ++ '<' :: (inner ++ '>' :: rest) ∧ q = p.after (spellAll xs) ∧
      m = Mark.ofInner inner := by
  have hrun : ∀ s : Text, .mark m q ∉ Token.run s := by
    intro s
    cases s <;> simp [Token.run]
  induction t using markup_induction generalizing p with
  | last s hs =>
    rw [Token.ofText_last hs] at h
    exact absurd h (hrun s)
  | tag s inner rest hs hstart hi ih =>
    have hinner : (Span.tag inner).WellFormed := ⟨startsTag_inner_iff.1 hstart, hi⟩
    rw [Token.ofText_run hs (.inr hstart), Token.ofText_mark hstart hi] at h
    rcases List.mem_cons.1 ((List.mem_append.1 h).resolve_left (hrun s)) with heq | hmem
    · cases heq
      obtain ⟨ys, hys, hspell⟩ := exists_markup_run hs isMarkup_nil (by simp)
      have hys' : spellAll ys = s := by simpa [spellAll] using hspell
      exact ⟨ys, inner, rest, hys, hinner, by rw [hys'], by rw [hys'], rfl⟩
    · obtain ⟨xs, inner', rest', hxs, hinner', rfl, rfl, rfl⟩ := ih hmem
      obtain ⟨ys, hys, hspell⟩ :=
        exists_markup_run hs (isMarkup_tag_cons hinner hxs) (by simp [isTag])
      refine ⟨ys, inner', rest', hys, hinner', ?_, ?_, rfl⟩
      · simp [hspell, spellAll_cons, spell]
      · simp only [hspell, spellAll_cons, spell, Position.after_append]
  | unterminated s u hs hstart hclose =>
    rw [Token.ofText_run hs (.inr hstart), Token.ofText_unterminated hstart hclose] at h
    simpa using (List.mem_append.1 h).resolve_left (hrun s)

/-! ## Positions -/

def Rising (a b : Nat) : List Position → Prop
  | [] => a ≤ b
  | q :: ps => a ≤ q.offset ∧ Rising (q.offset + 1) b ps

variable {a b c : Nat} {ps qs : List Position}

theorem Rising.le (h : Rising a b ps) : a ≤ b := by
  induction ps generalizing a with
  | nil => exact h
  | cons q ps ih =>
    have := ih h.2
    have := h.1
    omega

theorem Rising.mono {a' : Nat} (ha : a' ≤ a) (h : Rising a b ps) : Rising a' b ps := by
  cases ps with
  | nil => exact Nat.le_trans ha h
  | cons q ps => exact ⟨Nat.le_trans ha h.1, h.2⟩

theorem Rising.append (h : Rising a b ps) (h' : Rising b c qs) : Rising a c (ps ++ qs) := by
  induction ps generalizing a with
  | nil => exact h'.mono h
  | cons q ps ih => exact ⟨h.1, ih h.2⟩

theorem Rising.bounds (h : Rising a b ps) : ∀ q ∈ ps, a ≤ q.offset ∧ q.offset < b := by
  induction ps generalizing a with
  | nil => simp
  | cons q ps ih =>
    refine List.forall_mem_cons.2 ⟨⟨h.1, h.2.le⟩, fun r hr => ?_⟩
    have := ih h.2 r hr
    have := h.1
    omega

/-- No two of the positions have the same offset. -/
theorem Rising.nodup (h : Rising a b ps) : (ps.map (·.offset)).Nodup := by
  induction ps generalizing a with
  | nil => exact .nil
  | cons q ps ih =>
    refine List.nodup_cons.2 ⟨fun hmem => ?_, ih h.2⟩
    obtain ⟨r, hr, hoffset⟩ := List.mem_map.1 hmem
    have hbounds := h.2.bounds r hr
    rw [hoffset] at hbounds
    exact Nat.lt_irrefl _ hbounds.1

theorem Rising.sublist (h : Rising a b ps) (hsub : qs.Sublist ps) : Rising a b qs := by
  induction hsub generalizing a with
  | slnil => exact h
  | cons q _ ih => exact (ih h.2).mono (Nat.le_succ_of_le h.1)
  | cons_cons q _ ih => exact ⟨h.1, ih h.2⟩

namespace Token

/-- Where a tag stands. -/
def position? : Token → Option Position
  | .text _ => none
  | .mark _ p | .unterminated _ p => some p

theorem positions_run (s : Text) : (run s).filterMap position? = [] := by
  cases s <;> rfl

end Token

theorem offset_le_after (p : Position) (t : Text) : p.offset ≤ (p.after t).offset := by
  rw [Position.offset_after]
  exact Nat.le_add_right _ _

/-- A tag takes at least one byte. -/
theorem offset_lt_after (p : Position) (c : Char) (t : Text) :
    p.offset < (p.after (c :: t)).offset := by
  have hc := Char.utf8Size_pos c
  rw [Position.offset_after, Text.utf8, List.flatMap_cons, List.length_append,
    String.length_utf8EncodeChar]
  omega

theorem rising_ofText (p : Position) (t : Text) :
    Rising p.offset (p.after t).offset ((Token.ofText p t).filterMap Token.position?) := by
  induction t using markup_induction generalizing p with
  | last s hs =>
    rw [Token.ofText_last hs, Token.positions_run]
    exact offset_le_after p s
  | tag s inner rest hs hstart hi ih =>
    have htag : ∀ q : Position, Rising (q.offset + 1) (q.after ('<' :: inner ++ ['>'])).offset [] :=
      fun q => offset_lt_after q '<' (inner ++ ['>'])
    have happ : s ++ '<' :: (inner ++ '>' :: rest) = s ++ ('<' :: inner ++ ['>']) ++ rest := by simp
    rw [Token.ofText_run hs (.inr hstart), Token.ofText_mark hstart hi, List.filterMap_append,
      Token.positions_run, happ, Position.after_append, Position.after_append]
    exact ⟨offset_le_after p s, (htag _).append (ih _)⟩
  | unterminated s u hs hstart hclose =>
    rw [Token.ofText_run hs (.inr hstart), Token.ofText_unterminated hstart hclose,
      List.filterMap_append, Token.positions_run, Position.after_append]
    exact ⟨offset_le_after p s, offset_lt_after _ '<' u⟩

end TemplLayout
