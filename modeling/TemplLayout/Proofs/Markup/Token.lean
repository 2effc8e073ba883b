import Mathlib.Data.List.Chain
import TemplLayout.Markup.Token
import TemplLayout.Proofs.Markup.Tag

/-!
# TemplLayout.Proofs.Markup.Token

The tokens of a text.

* `markup_induction`     — every text is text without tags, followed by nothing, by a tag and a shorter
  text, or by a tag that never ends; `ofText_last`, `ofText_mark` and `ofText_unterminated` are the
  tokens in each case.
* `Token.Within t tok`   — the token stands in `t`, as each token of `t` does (`within_ofText`).
* `Token.WellFormed tok` — what every token of a text satisfies (`wellFormed_ofText`).
* `Token.Carries Q tok`  — `Q` holds of the text or the attributes that the token carries.

No two runs of text are neighbours (`isChain_ofText`).
-/

namespace TemplLayout

open Text

/-! ## Reading one token -/

namespace Token

theorem ofText_nil (p : Position) : ofText p [] = [] := by
  rw [ofText_eq]
  rfl

theorem ofText_of_startsTag {lead : Char} {t : Text} (h : startsTag (lead :: t) = true)
    (p : Position) :
    ofText p (lead :: t) =
      match closeTag? t with
      | none => [.unterminated (Mark.ofInner t).name p]
      | some (inner, rest) =>
        .mark (Mark.ofInner inner) p :: ofText (p.after (lead :: inner ++ ['>'])) rest := by
  rw [ofText_eq, breakAt_cons, if_pos h]
  rfl

theorem ofText_unterminated {t : Text} (h : startsTag ('<' :: t) = true) (ht : closeTag? t = none)
    (p : Position) : ofText p ('<' :: t) = [.unterminated (Mark.ofInner t).name p] := by
  rw [ofText_of_startsTag h, ht]

/-- A run of text ends at the next tag. -/
theorem ofText_run {s t : Text} (hs : Lacks startsTag s) (ht : t = [] ∨ startsTag t = true)
    (p : Position) : ofText p (s ++ t) = run s ++ ofText (p.after s) t := by
  have hseam := seam_startsTag (s := s) ht
  rw [ofText_eq, breakAt_seam (pattern_startsTag.seam hs hseam) ht]
  cases t with
  | nil => rw [ofText_nil, List.append_nil]
  | cons lead t =>
    rw [ofText_of_startsTag (ht.resolve_left (List.cons_ne_nil _ _))]
    dsimp only
    rcases closeTag? t with _ | ⟨inner, rest⟩ <;> rfl

theorem ofText_last {s : Text} (hs : Lacks startsTag s) (p : Position) : ofText p s = run s := by
  have := ofText_run hs (.inl rfl) p
  rwa [List.append_nil, ofText_nil, List.append_nil] at this

theorem ofText_mark {inner rest : Text} (h : startsTag ('<' :: (inner ++ '>' :: rest)) = true)
    (hi : Shut none inner) (p : Position) :
    ofText p ('<' :: (inner ++ '>' :: rest)) =
      .mark (Mark.ofInner inner) p :: ofText (p.after ('<' :: inner ++ ['>'])) rest := by
  rw [ofText_of_startsTag h, closeTag?_append hi]

end Token

theorem startsTag_spell {tag : Tag} (h : tag.WellFormed) (u : Text) :
    startsTag (tag.spell ++ u) = true := by
  obtain ⟨c, rest, heq, ha⟩ := h.head_inner
  refine (pattern_startsTag.found_iff _).2 ⟨['<', c], ⟨c, ha, .inl rfl⟩, ?_⟩
  rw [Tag.spell_eq, heq]
  exact ⟨_, rfl⟩

theorem Token.ofText_spell {tag : Tag} (h : tag.WellFormed) (u : Text) (p : Position) :
    ofText p (tag.spell ++ u) = .mark (.opening tag) p :: ofText (p.after tag.spell) u := by
  have hs := startsTag_spell h u
  rw [Tag.spell_eq, List.append_assoc] at hs ⊢
  rw [List.cons_append, List.singleton_append] at hs ⊢
  rw [ofText_mark hs h.legible.shut_inner, Mark.ofInner_inner h]

/-- The closing tag of a name. -/
def closingTag (name : Text) : Text :=
  '<' :: '/' :: name ++ ['>']

theorem Tag.spellClosing_eq (tag : Tag) : tag.spellClosing = closingTag tag.name := rfl

theorem startsTag_closingTag {name : Text} (h : IsName name) (u : Text) :
    startsTag (closingTag name ++ u) = true := by
  obtain ⟨c, hc, ha⟩ := h.head
  obtain ⟨rest, rfl⟩ := List.head?_eq_some_iff.1 hc
  exact ha

theorem Token.ofText_closingTag {name : Text} (h : IsName name) (u : Text) (p : Position) :
    ofText p (closingTag name ++ u) =
      .mark (.closing name) p :: ofText (p.after (closingTag name)) u := by
  have hshut : Shut none ('/' :: name) :=
    (shut_append_plain (s := []) (t := '/' :: name) (by
      intro c hc
      rcases List.mem_cons.1 hc with rfl | hc
      · exact plain_slash
      · exact plain_of_isNameChar (h.chars c hc))).2 rfl
  have hs := startsTag_closingTag h u
  rw [show closingTag name ++ u = '<' :: ('/' :: name ++ '>' :: u) by simp [closingTag]] at hs ⊢
  rw [ofText_mark hs hshut, Mark.ofInner_closing h]
  rfl

/-! ## All tokens of a text -/

/-- What stands between `<` and `>` of a tag begins with a letter, or with a slash and a letter. -/
theorem inner_of_startsTag {inner rest : Text}
    (h : startsTag ('<' :: (inner ++ '>' :: rest)) = true) :
    ∃ c u, c.isAlpha = true ∧ (inner = c :: u ∨ inner = '/' :: c :: u) := by
  obtain ⟨_, ⟨c, hc, rfl | rfl⟩, u, hu⟩ := (pattern_startsTag.found_iff _).1 h
  · cases inner with
    | nil => cases hu; cases hc
    | cons d inner => cases hu; exact ⟨c, inner, hc, .inl rfl⟩
  · rcases inner with _ | ⟨d, _ | ⟨e, inner⟩⟩
    · cases hu
    · cases hu; cases hc
    · cases hu; exact ⟨c, inner, hc, .inr rfl⟩

@[elab_as_elim]
theorem markup_induction {motive : Text → Prop}
    (last : ∀ s, Lacks startsTag s → motive s)
    (tag : ∀ s inner rest, Lacks startsTag s →
      startsTag ('<' :: (inner ++ '>' :: rest)) = true → Shut none inner → motive rest →
      motive (s ++ '<' :: (inner ++ '>' :: rest)))
    (unterminated : ∀ s u, Lacks startsTag s → startsTag ('<' :: u) = true →
      closeTag? u = none → motive (s ++ '<' :: u))
    (t : Text) : motive t := by
  induction hn : t.length using Nat.strong_induction_on generalizing t with
  | _ n ih =>
    have happ := breakAt_append startsTag t
    have hlacks := pattern_startsTag.lacks_breakAt_fst t
    rcases breakAt_snd startsTag t with hnil | hfound
    · rw [hnil, List.append_nil] at happ
      exact last t (happ ▸ hlacks)
    · generalize (t.breakAt startsTag).1 = s at happ hlacks
      generalize (t.breakAt startsTag).2 = v at happ hfound
      obtain ⟨u, rfl⟩ : ∃ u, v = '<' :: u := by
        obtain ⟨_, ⟨c, -, rfl | rfl⟩, u, rfl⟩ := (pattern_startsTag.found_iff _).1 hfound
        · exact ⟨_, rfl⟩
        · exact ⟨_, rfl⟩
      subst happ
      cases hclose : closeTag? u with
      | none => exact unterminated s u hlacks hfound hclose
      | some cut =>
        obtain ⟨inner, rest⟩ := cut
        have hu := append_of_closeTag? hclose
        subst hu
        refine tag s inner rest hlacks hfound (shut_of_closeTag? hclose) (ih _ ?_ rest rfl)
        rw [← hn]
        simp only [List.length_append, List.length_cons]
        omega

/-- A token stands in the text `t`. -/
inductive Token.Within (t : Text) : Token → Prop where
  | text {content : Text} : content ≠ [] → Lacks startsTag content → content <:+: t →
      Within t (.text content)
  | mark {inner rest : Text} {p : Position} : startsTag ('<' :: (inner ++ '>' :: rest)) = true →
      Shut none inner → inner <:+: t → Within t (.mark (Mark.ofInner inner) p)
  | unterminated {name : Text} {p : Position} : Within t (.unterminated name p)

namespace Token

theorem Within.mono {s t : Text} {tok : Token} (h : Within s tok) (hst : s <:+: t) :
    Within t tok := by
  cases h with
  | text hne hc hi => exact .text hne hc (hi.trans hst)
  | mark hs hi hin => exact .mark hs hi (hin.trans hst)
  | unterminated => exact .unterminated

theorem within_run {s t : Text} (hs : Lacks startsTag s) (hst : s <:+: t) :
    ∀ tok ∈ run s, Within t tok := by
  cases s with
  | nil => intro tok htok; cases htok
  | cons c s =>
    intro tok htok
    rw [List.mem_singleton.1 htok]
    exact .text (List.cons_ne_nil c s) hs hst

theorem within_ofText (p : Position) (t : Text) : ∀ tok ∈ ofText p t, Within t tok := by
  induction t using markup_induction generalizing p with
  | last s hs =>
    rw [ofText_last hs]
    exact within_run hs (List.infix_refl s)
  | tag s inner rest hs hstart hi ih =>
    rw [ofText_run hs (.inr hstart), ofText_mark hstart hi]
    intro tok htok
    rcases List.mem_append.1 htok with htok | htok
    · exact within_run hs ⟨[], _, rfl⟩ tok htok
    · rcases List.mem_cons.1 htok with rfl | htok
      · exact .mark hstart hi ⟨s ++ ['<'], '>' :: rest, by simp⟩
      · exact (ih _ tok htok).mono ⟨s ++ '<' :: inner ++ ['>'], [], by simp⟩
  | unterminated s u hs hstart hclose =>
    rw [ofText_run hs (.inr hstart), ofText_unterminated hstart hclose]
    intro tok htok
    rcases List.mem_append.1 htok with htok | htok
    · exact within_run hs ⟨[], _, rfl⟩ tok htok
    · rw [List.mem_singleton.1 htok]
      exact .unterminated

def isText : Token → Bool
  | .text _ => true
  | _ => false

/-- Between two runs of text there is a tag. -/
theorem isChain_ofText (p : Position) (t : Text) :
    (ofText p t).IsChain fun a b => a.isText = false ∨ b.isText = false := by
  have hrun : ∀ (s : Text) (tok : Token) (toks : List Token), tok.isText = false →
      (tok :: toks).IsChain (fun a b => a.isText = false ∨ b.isText = false) →
      (run s ++ tok :: toks).IsChain fun a b => a.isText = false ∨ b.isText = false := by
    intro s tok toks htok h
    cases s with
    | nil => exact h
    | cons c s => exact .cons_cons (.inr htok) h
  induction t using markup_induction generalizing p with
  | last s hs =>
    rw [ofText_last hs]
    cases s with
    | nil => exact .nil
    | cons c s => exact .singleton _
  | tag s inner rest hs hstart hi ih =>
    rw [ofText_run hs (.inr hstart), ofText_mark hstart hi]
    exact hrun s _ _ rfl ((ih _).cons fun _ _ => .inl rfl)
  | unterminated s u hs hstart hclose =>
    rw [ofText_run hs (.inr hstart), ofText_unterminated hstart hclose]
    exact hrun s _ _ rfl (.singleton _)

end Token

/-! ## What tokens carry -/

def Mark.WellFormed : Mark → Prop
  | .opening tag => tag.WellFormed
  | .closing name => IsName name

theorem Mark.wellFormed_ofInner {inner rest : Text}
    (h : startsTag ('<' :: (inner ++ '>' :: rest)) = true) (hi : Shut none inner) :
    (Mark.ofInner inner).WellFormed := by
  obtain ⟨c, u, hc, rfl | rfl⟩ := inner_of_startsTag h
  · rw [Mark.ofInner_alpha hc]
    exact Tag.wellFormed_ofInner hc hi
  · refine ⟨⟨c, ?_, hc⟩, fun d hd => List.all_eq_true.1 List.all_takeWhile d hd⟩
    rw [List.takeWhile_cons_of_pos (isNameChar_of_isAlpha hc)]
    rfl

theorem Tag.attrs_isInfix (t : Text) : (Tag.ofInner t).attrs <:+: t := by
  have hbody : Text.trimEnd (t.dropWhile isNameChar) <:+: t :=
    (List.IsPrefix.isInfix ⟨_, trimEnd_append _⟩).trans (List.dropWhile_suffix _).isInfix
  rw [Tag.ofInner]
  split
  · exact (trim_isInfix _).trans ((List.dropLast_prefix _).isInfix.trans hbody)
  · exact (trim_isInfix _).trans hbody

namespace Token

def WellFormed : Token → Prop
  | .text content => content ≠ [] ∧ Lacks startsTag content
  | .mark m _ => m.WellFormed
  | .unterminated _ _ => True

/-- The text or the attributes that the token carries satisfy `Q`. -/
def Carries (Q : Text → Prop) : Token → Prop
  | .text content => Q content
  | .mark (.opening tag) _ => Q tag.attrs
  | _ => True

theorem wellFormed_ofText (p : Position) (t : Text) : ∀ tok ∈ ofText p t, tok.WellFormed := by
  intro tok htok
  cases within_ofText p t tok htok with
  | text hne hs _ => exact ⟨hne, hs⟩
  | mark hstart hi _ => exact Mark.wellFormed_ofInner hstart hi
  | unterminated => trivial

/-- What a text lacks, its tokens lack. -/
theorem carries_ofText {W : Text → Prop} {q : Text → Bool} (hq : Pattern W q) (p : Position)
    {t : Text} (h : Lacks q t) : ∀ tok ∈ ofText p t, tok.Carries (Lacks q) := by
  intro tok htok
  cases within_ofText p t tok htok with
  | text _ _ hin => exact hq.lacks_of_isInfix h hin
  | unterminated => trivial
  | @mark inner rest _ hstart _ hin =>
    obtain ⟨c, u, hc, rfl | rfl⟩ := inner_of_startsTag hstart
    · rw [Mark.ofInner_alpha hc]
      exact hq.lacks_of_isInfix h ((Tag.attrs_isInfix _).trans hin)
    · trivial

end Token

end TemplLayout
