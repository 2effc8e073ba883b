import TemplLayout.Markup.Tag
import TemplLayout.Proofs.Text.Trim
import TemplLayout.Segment.Basic

/-!
# TemplLayout.Proofs.Text.Cut

Where a text is cut.

* `Text.Lacks p t`   — `p` holds nowhere in `t`, so `t` is not cut.
* `Text.Pattern W p` — `p` looks for one of the words `W` at the front of a text. No word is empty or
  has a blank character in it, so what is blank parts what stands around it.
* `Text.Seam W s t`  — no word of `W` begins in `s` and ends in `t`.

A text is cut at a seam when the part in front lacks the pattern (`breakAt_seam`). The delimiters of
directives and the starts of tags are patterns.
-/

namespace TemplLayout

namespace Text

def Lacks (p : Text → Bool) (t : Text) : Prop :=
  ∀ s, s <:+ t → p s = false

structure Pattern (W : Text → Prop) (p : Text → Bool) : Prop where
  ne_nil : ∀ w, W w → w ≠ []
  not_blank : ∀ w, W w → ∀ c ∈ w, isBlankChar c = false
  found_iff : ∀ t, p t = true ↔ ∃ w, W w ∧ w <+: t

/-- A word over the seam would have the first character of `t` behind its own first, and the last
character of `s` before its own last. -/
def Seam (W : Text → Prop) (s t : Text) : Prop :=
  ∀ w, W w → (∀ c ∈ t.head?, c ∉ w.tail) ∨ (∀ c ∈ s.getLast?, c ∉ w.dropLast)

variable {W : Text → Prop} {p : Text → Bool} {s t u : Text} {c : Char}

theorem lacks_cons : Lacks p (c :: t) ↔ p (c :: t) = false ∧ Lacks p t := by
  constructor
  · intro h
    exact ⟨h _ (List.suffix_refl _), fun s hs => h s (hs.trans (List.suffix_cons c t))⟩
  · rintro ⟨h, ht⟩ s hs
    rcases List.suffix_cons_iff.1 hs with rfl | hs
    · exact h
    · exact ht s hs

def decLacks (p : Text → Bool) : (t : Text) → Decidable (Lacks p t)
  | [] => decidable_of_iff (p [] = false) (by simp [Lacks])
  | c :: t =>
    have := decLacks p t
    decidable_of_iff _ lacks_cons.symm

instance (p : Text → Bool) (t : Text) : Decidable (Lacks p t) := decLacks p t

/-- Nothing is found in the back part, nor from a place in front of the seam. -/
theorem Lacks.append (ht : Lacks p t) (hs : ∀ v, v <:+ s → v ≠ [] → p (v ++ t) = false) :
    Lacks p (s ++ t) := by
  induction s with
  | nil => exact ht
  | cons c s ih =>
    refine lacks_cons.2 ⟨hs (c :: s) (List.suffix_refl _) (List.cons_ne_nil _ _), ih ?_⟩
    exact fun v hv hne => hs v (hv.trans (List.suffix_cons c s)) hne

namespace Pattern

theorem eq_false (hp : Pattern W p) (h : ∀ w, W w → ¬ w <+: t) : p t = false := by
  rw [Bool.eq_false_iff]
  intro ht
  obtain ⟨w, hw, hpre⟩ := (hp.found_iff t).1 ht
  exact h w hw hpre

theorem lacks_nil (hp : Pattern W p) : Lacks p [] := by
  intro s hs
  rw [List.suffix_nil.1 hs]
  exact hp.eq_false fun w hw hpre => hp.ne_nil w hw (List.prefix_nil.1 hpre)

/-- What is found stays found when the text goes on. -/
theorem found_append (hp : Pattern W p) (u : Text) (h : p s = true) : p (s ++ u) = true := by
  obtain ⟨w, hw, hpre⟩ := (hp.found_iff s).1 h
  exact (hp.found_iff _).2 ⟨w, hw, hpre.trans (List.prefix_append s u)⟩

theorem lacks_of_isInfix (hp : Pattern W p) (h : Lacks p t) (hs : s <:+: t) : Lacks p s := by
  obtain ⟨a, b, rfl⟩ := hs
  rintro v ⟨w, rfl⟩
  rw [Bool.eq_false_iff]
  intro hv
  have hb := h (v ++ b) ⟨a ++ w, by simp⟩
  rw [hp.found_append b hv] at hb
  cases hb

/-- Nothing is found from a place in front of a seam. -/
theorem seam (hp : Pattern W p) (hs : Lacks p s) (h : Seam W s t) :
    ∀ v, v <:+ s → v ≠ [] → p (v ++ t) = false := by
  intro v hv hne
  refine hp.eq_false fun w hw hpre => ?_
  rcases List.prefix_or_prefix_of_prefix hpre (List.prefix_append v t) with hwv | ⟨x, rfl⟩
  · have := (hp.found_iff v).2 ⟨w, hw, hwv⟩
    rw [hs v hv] at this
    cases this
  · cases x with
    | nil =>
      have := (hp.found_iff v).2 ⟨v, by simpa using hw, List.prefix_refl v⟩
      rw [hs v hv] at this
      cases this
    | cons d x =>
      rcases h _ hw with ht | hs
      · have hd : t.head? = some d := by
          obtain ⟨y, hy⟩ := (List.prefix_append_right_inj v).1 hpre
          rw [← hy]
          rfl
        refine ht d hd ?_
        cases v with
        | nil => exact absurd rfl hne
        | cons a v => simp
      · obtain ⟨y, rfl⟩ := hv
        have hlast : v.getLast hne ∈ (y ++ v).getLast? := by
          simp [List.getLast?_append, List.getLast?_eq_some_getLast hne]
        refine hs (v.getLast hne) hlast ?_
        rw [List.dropLast_append_of_ne_nil (List.cons_ne_nil d x)]
        exact List.mem_append_left _ (List.getLast_mem hne)

theorem lacks_append (hp : Pattern W p) (hs : Lacks p s) (ht : Lacks p t) (h : Seam W s t) :
    Lacks p (s ++ t) :=
  ht.append (hp.seam hs h)

theorem lacks_iff (hp : Pattern W p) : Lacks p t ↔ ∀ w, W w → ¬ w <:+: t := by
  constructor
  · rintro h w hw ⟨u, v, rfl⟩
    have hfound := (hp.found_iff (w ++ v)).2 ⟨w, hw, List.prefix_append w v⟩
    rw [h (w ++ v) ⟨u, by simp⟩] at hfound
    cases hfound
  · intro h s hs
    exact hp.eq_false fun w hw hpre => h w hw (hpre.isInfix.trans hs.isInfix)

/-- A text without the first character of the only word. -/
theorem lacks_of_not_mem {w : Text} (hp : Pattern (· = c :: w) p) (h : c ∉ t) : Lacks p t := by
  rw [hp.lacks_iff]
  rintro _ rfl hw
  exact h (hw.subset (List.mem_cons_self ..))

theorem seam_of_blank_right (hp : Pattern W p) (hc : ∀ c ∈ t.head?, isBlankChar c = true) :
    Seam W s t := by
  refine fun w hw => .inl fun c hct hcw => ?_
  have := hp.not_blank w hw c (List.mem_of_mem_tail hcw)
  rw [hc c hct] at this
  cases this

theorem seam_of_blank_left (hp : Pattern W p) (hc : ∀ c ∈ s.getLast?, isBlankChar c = true) :
    Seam W s t := by
  refine fun w hw => .inr fun c hcs hcw => ?_
  have := hp.not_blank w hw c ((List.dropLast_prefix w).subset hcw)
  rw [hc c hcs] at this
  cases this

theorem lacks_of_isBlank (hp : Pattern W p) (hs : s.isBlank = true) : Lacks p s := by
  intro v hv
  refine hp.eq_false fun w hw hpre => ?_
  cases w with
  | nil => exact hp.ne_nil _ hw rfl
  | cons c w =>
    have hc := isBlank_iff.1 hs c (hv.subset (hpre.subset (List.mem_cons_self ..)))
    rw [hp.not_blank _ hw c (List.mem_cons_self ..)] at hc
    cases hc

/-- What a text lacks does not depend on its blank ends. -/
theorem loose (hp : Pattern W p) : Loose (Lacks p) where
  nil := hp.lacks_nil
  trim_iff t := by
    refine ⟨fun h => ?_, fun h => hp.lacks_of_isInfix h (trim_isInfix t)⟩
    have hlead := hp.lacks_of_isBlank (isBlank_leadingBlanks t)
    have htrail := hp.lacks_of_isBlank (isBlank_trailingBlanks t.trimStart)
    rw [← leadingBlanks_append_trim_append t]
    refine hp.lacks_append (hp.lacks_append hlead h ?_) htrail ?_
    · exact hp.seam_of_blank_left fun c hc =>
        isBlank_iff.1 (isBlank_leadingBlanks t) c (List.mem_of_getLast? hc)
    · exact hp.seam_of_blank_right fun c hc =>
        isBlank_iff.1 (isBlank_trailingBlanks _) c (List.mem_of_head? hc)

/-- Blank characters can be exchanged for others wherever they stand. -/
theorem lacks_exchange_blank (hp : Pattern W p) {x x' : Text} (hx : x.isBlank = true)
    (hx' : x'.isBlank = true) (h : x = [] ↔ x' = []) (hlacks : Lacks p (s ++ (x ++ t))) :
    Lacks p (s ++ (x' ++ t)) := by
  by_cases hnil : x = []
  · rwa [h.1 hnil, ← hnil]
  · have hs : Lacks p s := hp.lacks_of_isInfix hlacks ⟨[], x ++ t, rfl⟩
    have ht : Lacks p (x ++ t) := hp.lacks_of_isInfix hlacks ⟨s, [], List.append_nil _⟩
    refine hp.lacks_append hs ?_ (hp.seam_of_blank_right fun c hc => ?_)
    · exact (hp.loose.blank_append hx').2 ((hp.loose.blank_append hx).1 ht)
    · cases x' with
      | nil => exact absurd (h.2 rfl) hnil
      | cons d x' =>
        cases hc
        exact isBlank_iff.1 hx' c (List.mem_cons_self ..)

end Pattern

/-- A word of two characters begins with one and ends with the other. -/
theorem seam_pair {a b : Char} (h : (∀ c ∈ t.head?, c ≠ b) ∨ (∀ c ∈ s.getLast?, c ≠ a)) :
    Seam (· = [a, b]) s t := by
  rintro _ rfl
  simpa using h

/-! ## Cutting -/

theorem breakAt_seam (hs : ∀ v, v <:+ s → v ≠ [] → p (v ++ t) = false)
    (ht : t = [] ∨ p t = true) : breakAt p (s ++ t) = (s, t) := by
  induction s with
  | nil =>
    cases t with
    | nil => rfl
    | cons c t =>
      rw [List.nil_append, breakAt_cons, if_pos (ht.resolve_left (List.cons_ne_nil c t))]
  | cons c s ih =>
    have hc := hs (c :: s) (List.suffix_refl _) (List.cons_ne_nil _ _)
    rw [List.cons_append] at hc ⊢
    rw [breakAt_cons, if_neg (by simp [hc]),
      ih fun v hv hne => hs v (hv.trans (List.suffix_cons c s)) hne]

theorem breakAt_of_lacks (h : Lacks p t) : breakAt p t = (t, []) := by
  have := breakAt_seam (p := p) (s := t) (t := []) (fun v hv _ => by simpa using h v hv) (.inl rfl)
  simpa using this

theorem breakAt_snd (p : Text → Bool) (t : Text) :
    (breakAt p t).2 = [] ∨ p (breakAt p t).2 = true := by
  induction t with
  | nil => exact .inl rfl
  | cons c t ih =>
    rw [breakAt_cons]
    split
    · exact .inr ‹_›
    · exact ih

theorem Pattern.lacks_breakAt_fst (hp : Pattern W p) (t : Text) : Lacks p (breakAt p t).1 := by
  induction t with
  | nil => exact hp.lacks_nil
  | cons c t ih =>
    rw [breakAt_cons]
    split
    · exact hp.lacks_nil
    · rename_i hc
      refine lacks_cons.2 ⟨?_, ih⟩
      rw [Bool.eq_false_iff]
      intro h
      have := hp.found_append (breakAt p t).2 h
      rw [List.cons_append, breakAt_append] at this
      exact hc this

end Text

/-! ## The patterns of a source -/

open Text

/-- A word of two characters, neither of them blank. -/
theorem pattern_pair {a b : Char} {p : Text → Bool} (ha : isBlankChar a = false)
    (hb : isBlankChar b = false) (hp : ∀ t, p t = true ↔ [a, b] <+: t) : Pattern (· = [a, b]) p where
  ne_nil := by simp
  not_blank := by
    rintro _ rfl c hc
    simp only [List.mem_cons, List.not_mem_nil, or_false] at hc
    rcases hc with rfl | rfl
    · exact ha
    · exact hb
  found_iff t := by rw [hp, exists_eq_left]

theorem pattern_opensDirective : Pattern (· = ['{', '%']) opensDirective := by
  refine pattern_pair (by decide) (by decide) fun t => ?_
  unfold opensDirective
  split
  · simp
  · rename_i h
    simp only [Bool.false_eq_true, false_iff]
    rintro ⟨u, rfl⟩
    exact h u rfl

theorem pattern_closesDirective : Pattern (· = ['%', '}']) closesDirective := by
  refine pattern_pair (by decide) (by decide) fun t => ?_
  unfold closesDirective
  split
  · simp
  · rename_i h
    simp only [Bool.false_eq_true, false_iff]
    rintro ⟨u, rfl⟩
    exact h u rfl

/-- Name characters stand between `-` and `z`. -/
theorem toNat_of_isNameChar {c : Char} (h : isNameChar c = true) :
    0x2D ≤ c.toNat ∧ c.toNat ≤ 0x7A := by
  have hranges : ((decide (c.val ≥ 'A'.val ∧ c.val ≤ 'Z'.val) ||
      c.val ≥ 'a'.val && c.val ≤ 'z'.val) ||
      (c.val ≥ '0'.val && c.val ≤ '9'.val) || c == '-' || c == '_' || c == ':' || c == '.') = true :=
    h
  simp only [Bool.or_eq_true, Bool.and_eq_true, decide_eq_true_eq, beq_iff_eq, ge_iff_le,
    UInt32.le_iff_toNat_le] at hranges
  rcases hranges with ((((h | h) | rfl) | rfl) | rfl) | rfl
  · rcases h with ⟨h₁, h₂⟩ | ⟨h₁, h₂⟩
    · exact ⟨Nat.le_trans (by decide) h₁, Nat.le_trans h₂ (by decide)⟩
    · exact ⟨Nat.le_trans (by decide) h₁, Nat.le_trans h₂ (by decide)⟩
  · exact ⟨Nat.le_trans (by decide) h.1, Nat.le_trans h.2 (by decide)⟩
  all_goals decide

theorem isBlankChar_of_isNameChar {c : Char} (h : isNameChar c = true) :
    isBlankChar c = false := by
  have hn := toNat_of_isNameChar h
  simp only [isBlankChar, Bool.or_eq_false_iff, Bool.and_eq_false_iff, decide_eq_false_iff_not,
    beq_eq_false_iff_ne]
  omega

theorem isNameChar_of_isAlpha {c : Char} (h : c.isAlpha = true) : isNameChar c = true := by
  simp [isNameChar, Char.isAlphanum, h]

/-- The words that start a tag. -/
def TagStart (w : Text) : Prop :=
  ∃ c : Char, c.isAlpha = true ∧ (w = ['<', c] ∨ w = ['<', '/', c])

theorem pattern_startsTag : Pattern TagStart startsTag where
  ne_nil := by
    rintro w ⟨c, -, rfl | rfl⟩ <;> simp
  not_blank := by
    rintro w ⟨c, hc, rfl | rfl⟩ d hd
    all_goals
      simp only [List.mem_cons, List.not_mem_nil, or_false] at hd
      rcases hd with rfl | hd
      · decide
    · rw [hd]
      exact isBlankChar_of_isNameChar (isNameChar_of_isAlpha hc)
    · rcases hd with rfl | rfl
      · decide
      · exact isBlankChar_of_isNameChar (isNameChar_of_isAlpha hc)
  found_iff t := by
    unfold startsTag
    split
    · rename_i c u
      constructor
      · exact fun hc => ⟨_, ⟨c, hc, .inr rfl⟩, u, rfl⟩
      · rintro ⟨_, ⟨d, hd, rfl | rfl⟩, v, hv⟩
        · cases hv
          cases hd
        · cases hv
          exact hd
    · rename_i c u hne
      constructor
      · exact fun hc => ⟨_, ⟨c, hc, .inl rfl⟩, u, rfl⟩
      · rintro ⟨_, ⟨d, hd, rfl | rfl⟩, v, hv⟩
        · cases hv
          exact hd
        · cases hv
          exact absurd rfl (hne d v rfl)
    · rename_i hclose hopen
      simp only [Bool.false_eq_true, false_iff]
      rintro ⟨_, ⟨c, -, rfl | rfl⟩, u, rfl⟩
      · exact hopen c u rfl
      · exact hclose c u rfl

/-- No tag starts across the place where another one does, or at the end. -/
theorem seam_startsTag {s t : Text} (h : t = [] ∨ startsTag t = true) : Seam TagStart s t := by
  rintro w ⟨c, hc, hw⟩
  refine .inl fun d hd hdw => ?_
  rcases h with rfl | h
  · cases hd
  · obtain ⟨_, ⟨e, -, rfl | rfl⟩, u, rfl⟩ := (pattern_startsTag.found_iff t).1 h
    all_goals
      cases hd
      rcases hw with rfl | rfl
      all_goals
        simp only [List.tail_cons, List.mem_cons, List.not_mem_nil, or_false] at hdw
        first
          | (subst hdw; cases hc)
          | (rcases hdw with hdw | rfl
             · cases hdw
             · cases hc)

end TemplLayout
