import TemplLayout.Proofs.Markup.Edges

/-!
# TemplLayout.Proofs.Markup.Spacing

The blank ends of the texts in a block.

* `Respaced r r'`  — `r'` is `r` with other blank characters at its ends, and at none of its ends the
  first or the last of them.
* `InLines n ns`   — the `n`-th text of the forest is a child of the forest itself, or of a block that
  is alone on its line there, and so on inwards.
* `Chunk`          — a tag and the text that stands before it.
* `EdgeEdit b b'`  — one run of text in `b` is respaced, one that stands in lines.

Such an edit keeps the lines (`bodyLines_of_edgeEdit`): what becomes of a text in lines depends on its
ends being blank or not, and the text of a block that is alone on its line stands in these lines only.
-/

namespace TemplLayout

open Text Node

/-! ## Texts -/

/-- It makes no difference which blank characters stand at an end, if there are any. -/
theorem startsBlank_congr_append {x x' : Text} (hx : x.isBlank = true) (hx' : x'.isBlank = true)
    (h : x = [] ↔ x' = []) (t : Text) : Text.startsBlank (x ++ t) = Text.startsBlank (x' ++ t) := by
  by_cases hnil : x = []
  · rw [hnil, h.1 hnil]
  · have hnil' : x' ≠ [] := fun hx' => hnil (h.2 hx')
    rw [startsBlank_append hnil, startsBlank_append hnil', startsBlank_of_isBlank hx hnil,
      startsBlank_of_isBlank hx' hnil']

theorem endsBlank_append_congr {y y' : Text} (hy : y.isBlank = true) (hy' : y'.isBlank = true)
    (h : y = [] ↔ y' = []) (t : Text) : Text.endsBlank (t ++ y) = Text.endsBlank (t ++ y') := by
  by_cases hnil : y = []
  · rw [hnil, h.1 hnil]
  · have hnil' : y' ≠ [] := fun hy' => hnil (h.2 hy')
    rw [endsBlank_append hnil, endsBlank_append hnil', endsBlank_of_isBlank hy hnil,
      endsBlank_of_isBlank hy' hnil']

/-- At the other end they count only if nothing else is there. -/
theorem startsBlank_append_congr {y y' : Text} (hy : y.isBlank = true) (hy' : y'.isBlank = true)
    (h : y = [] ↔ y' = []) (t : Text) : Text.startsBlank (t ++ y) = Text.startsBlank (t ++ y') := by
  cases t with
  | nil =>
    have hends := startsBlank_congr_append hy hy' h []
    rwa [List.append_nil, List.append_nil] at hends
  | cons c t => rfl

theorem endsBlank_congr_append {x x' : Text} (hx : x.isBlank = true) (hx' : x'.isBlank = true)
    (h : x = [] ↔ x' = []) (t : Text) : Text.endsBlank (x ++ t) = Text.endsBlank (x' ++ t) := by
  by_cases hnil : t = []
  · rw [hnil, List.append_nil, List.append_nil]
    exact endsBlank_append_congr hx hx' h []
  · rw [endsBlank_append hnil, endsBlank_append hnil]

inductive Respaced : Text → Text → Prop
  | intro {c x y x' y' : Text} : x.isBlank = true → y.isBlank = true → x'.isBlank = true →
      y'.isBlank = true → (x = [] ↔ x' = []) → (y = [] ↔ y' = []) →
      Respaced (x ++ c ++ y) (x' ++ c ++ y')

namespace Respaced

variable {r r' : Text}

theorem isBlank_eq (h : Respaced r r') : r.isBlank = r'.isBlank := by
  obtain ⟨hx, hy, hx', hy', -, -⟩ := h
  simp [hx, hy, hx', hy']

theorem ne_nil (h : Respaced r r') (hr : r ≠ []) : r' ≠ [] := by
  obtain ⟨-, -, -, -, hx, hy⟩ := h
  simp only [ne_eq, List.append_eq_nil_iff, not_and] at hr ⊢
  rwa [← hx, ← hy]

theorem trim_eq (h : Respaced r r') : r.trim = r'.trim := by
  obtain ⟨hx, hy, hx', hy', -, -⟩ := h
  rw [trim_append_blank _ hy, trim_append_blank _ hy', trim_blank_append hx, trim_blank_append hx']

theorem startsBlank_eq (h : Respaced r r') : r.startsBlank = r'.startsBlank := by
  obtain ⟨hx, hy, hx', hy', hxx, hyy⟩ := h
  rw [startsBlank_append_congr hy hy' hyy, List.append_assoc, List.append_assoc,
    startsBlank_congr_append hx hx' hxx]

theorem endsBlank_eq (h : Respaced r r') : r.endsBlank = r'.endsBlank := by
  obtain ⟨hx, hy, hx', hy', hxx, hyy⟩ := h
  rw [endsBlank_append_congr hy hy' hyy, List.append_assoc, List.append_assoc,
    endsBlank_congr_append hx hx' hxx]

theorem lacks {W : Text → Prop} {q : Text → Bool} (hq : Pattern W q) {s t : Text}
    (h : Respaced r r') (hlacks : Lacks q (s ++ (r ++ t))) : Lacks q (s ++ (r' ++ t)) := by
  obtain @⟨c, x, y, x', y', hx, hy, hx', hy', hxx, hyy⟩ := h
  have hfront : Lacks q (s ++ (x' ++ (c ++ (y ++ t)))) :=
    hq.lacks_exchange_blank hx hx' hxx (by simpa using hlacks)
  have hback : Lacks q ((s ++ x' ++ c) ++ (y' ++ t)) :=
    hq.lacks_exchange_blank hy hy' hyy (by simpa using hfront)
  simpa using hback

theorem textItems_eq (h : Respaced r r') : textItems r = textItems r' := by
  rw [textItems, textItems, h.isBlank_eq, h.trim_eq, h.startsBlank_eq, h.endsBlank_eq]

end Respaced

/-! ## Lines -/

inductive InLines : Nat → List (Node Unit) → Prop
  | text {ms ns : List (Node Unit)} {content : Text} :
      InLines (textsAll ms).length (ms ++ .text content :: ns)
  | block {ms children ns : List (Node Unit)} {tag : Tag} {n : Nat} :
      (ms = [] ∨ blankAtEnd ms = true) → isBlock tag children = true → InLines n children →
      (ns = [] ∨ blankAtStart ns = true) →
      InLines ((textsAll ms).length + n) (ms ++ .element tag () children :: ns)

theorem InLines.lt {n : Nat} {ns : List (Node Unit)} (h : InLines n ns) :
    n < (textsAll ns).length := by
  induction h with
  | text => simp [textsAll_append, textsAll, Node.texts]
  | block _ _ _ _ ih =>
    simp only [textsAll_append, textsAll, Node.texts, List.length_append]
    omega

theorem blankAtStart_append_cons (ms ns : List (Node Unit)) {m m' : Node Unit}
    (h : blankAtStart [m] = blankAtStart [m']) :
    blankAtStart (ms ++ m :: ns) = blankAtStart (ms ++ m' :: ns) := by
  cases ms with
  | cons k ms => cases k <;> rfl
  | nil => cases m <;> cases m' <;> exact h

theorem blankAtEnd_append_cons (ms ns : List (Node Unit)) {m m' : Node Unit}
    (h : blankAtEnd [m] = blankAtEnd [m']) :
    blankAtEnd (ms ++ m :: ns) = blankAtEnd (ms ++ m' :: ns) := by
  cases ns with
  | cons k ns => simp [blankAtEnd]
  | nil => simpa [blankAtEnd] using h

theorem exists_itemsAll_of_blankAtEnd {ms : List (Node Unit)} (h : blankAtEnd ms = true) :
    ∃ xs, itemsAll ms = xs ++ [none] := by
  rw [blankAtEnd] at h
  cases hlast : ms.getLast? with
  | none => rw [hlast] at h; cases h
  | some m =>
    rw [hlast] at h
    obtain ⟨ms', rfl⟩ := List.getLast?_eq_some_iff.1 hlast
    cases m with
    | element tag place children => cases h
    | text content =>
      have hends : content.endsBlank = true := h
      have hitems : itemsAll [Node.text content] = (Node.text content).items := List.append_nil _
      rw [itemsAll_append, hitems]
      cases hblank : content.isBlank with
      | true => exact ⟨itemsAll ms', by rw [items_of_isBlank (n := .text content) hblank]⟩
      | false =>
        rw [items_text hblank, hends, if_pos rfl, List.append_cons, ← List.append_assoc]
        exact ⟨_, rfl⟩

theorem exists_itemsAll_of_blankAtStart {ns : List (Node Unit)} (h : blankAtStart ns = true) :
    ∃ xs, itemsAll ns = none :: xs := by
  rcases ns with _ | ⟨content | ⟨tag, place, children⟩, ns⟩
  · cases h
  · have hstart : content.startsBlank = true := h
    rw [itemsAll]
    cases hblank : content.isBlank with
    | true => exact ⟨itemsAll ns, by rw [items_of_isBlank (n := .text content) hblank]; rfl⟩
    | false =>
      rw [items_text hblank, hstart, if_pos rfl]
      exact ⟨_, rfl⟩
  · cases h

/-- An element that has a line to itself. -/
theorem layout_alone {ms ns : List (Node Unit)} (hms : ms = [] ∨ blankAtEnd ms = true)
    (hns : ns = [] ∨ blankAtStart ns = true) (tag : Tag) (children : List (Node Unit)) :
    layout (ms ++ .element tag () children :: ns) =
      layout ms ++ (Node.element tag () children).item.alone :: layout ns := by
  have hright : stretches (some (Node.element tag () children).item :: itemsAll ns) =
      [(Node.element tag () children).item] :: stretches (itemsAll ns) := by
    rcases hns with rfl | hns
    · rfl
    · obtain ⟨xs, hxs⟩ := exists_itemsAll_of_blankAtStart hns
      rw [hxs]
      rfl
  have hleft : ∀ xs, stretches (itemsAll ms ++ xs) = stretches (itemsAll ms) ++ stretches xs := by
    intro xs
    rcases hms with rfl | hms
    · rfl
    · obtain ⟨ys, hys⟩ := exists_itemsAll_of_blankAtEnd hms
      rw [hys, List.append_assoc, List.singleton_append, stretches_append_none,
        stretches_append_none]
      simp [stretches]
  rw [layout, itemsAll_append, itemsAll, items_element, List.singleton_append, hleft, hright,
    List.map_append, List.map_cons]
  rfl

theorem exists_within {α : Type} {xs before behind : List α} (ys zs : List α) {a : α}
    (h : xs ++ (ys ++ zs) = before ++ a :: behind) (hle : xs.length ≤ before.length)
    (hlt : before.length < xs.length + ys.length) :
    ∃ b e, before = xs ++ b ∧ ys = b ++ a :: e ∧ behind = e ++ zs := by
  obtain ⟨b, rfl⟩ : xs <+: before :=
    List.prefix_of_prefix_length_le ⟨_, h⟩ ⟨_, rfl⟩ hle
  rw [List.append_assoc, List.append_cancel_left_eq] at h
  rw [List.length_append] at hlt
  obtain ⟨e, rfl⟩ : b ++ [a] <+: ys := by
    refine List.prefix_of_prefix_length_le ⟨behind, ?_⟩ ⟨zs, h⟩ (by simp; omega)
    rw [List.append_assoc]
    rfl
  rw [List.append_assoc, List.append_assoc, List.append_cancel_left_eq] at h
  exact ⟨b, e, rfl, by simp, (List.cons.inj h).2.symm⟩

/-- A text is exchanged among the children of an element: what stands around it stays. -/
theorem exists_within_children {ms ms' children children' ns ns' : List (Node Unit)}
    {before behind : List Text} {r r' : Text} (hms : shapeAll ms = shapeAll ms')
    (hchildren : shapeAll children = shapeAll children') (hns : shapeAll ns = shapeAll ns')
    (h : textsAll ms ++ (textsAll children ++ textsAll ns) = before ++ r :: behind)
    (h' : textsAll ms' ++ (textsAll children' ++ textsAll ns') = before ++ r' :: behind)
    (hle : (textsAll ms).length ≤ before.length)
    (hlt : before.length < (textsAll ms).length + (textsAll children).length) :
    ms = ms' ∧ ns = ns' ∧ ∃ b e, before = textsAll ms ++ b ∧ textsAll children = b ++ r :: e ∧
      textsAll children' = b ++ r' :: e := by
  have hlength := length_textsAll_of_shape hms
  have hlengthChildren := length_textsAll_of_shape hchildren
  obtain ⟨b, e, hb, he, hbehind⟩ :=
    exists_within (textsAll children) (textsAll ns) h (by omega) (by omega)
  obtain ⟨b', e', hb', he', hbehind'⟩ :=
    exists_within (textsAll children') (textsAll ns') h' (by omega) (by omega)
  obtain ⟨hmsTexts, rfl⟩ := List.append_inj (hb.symm.trans hb') hlength
  obtain ⟨rfl, hnsTexts⟩ := List.append_inj' (hbehind.symm.trans hbehind')
    (length_textsAll_of_shape hns)
  exact ⟨eq_of_shape hms hmsTexts, eq_of_shape hns hnsTexts, b, e, hb, he, he'⟩

/-- A text is exchanged in a forest, and the other texts stay what they are. -/
theorem layout_of_inLines {n : Nat} {ks ks' : List (Node Unit)} {before behind : List Text}
    {r r' : Text} (h : InLines n ks) (hr : Respaced r r') (hshape : shapeAll ks = shapeAll ks')
    (htexts : textsAll ks = before ++ r :: behind)
    (htexts' : textsAll ks' = before ++ r' :: behind) (hn : before.length = n) :
    layout ks' = layout ks ∧ blankAtStart ks' = blankAtStart ks ∧
      blankAtEnd ks' = blankAtEnd ks := by
  induction h generalizing ks' before behind with
  | @text ms ns content =>
    obtain ⟨ms', m', ns', rfl, hms, hm, hns⟩ := exists_of_shape_append_cons hshape
    cases m' with
    | element tag place children => cases hm
    | text content' =>
      rw [textsAll_append] at htexts htexts'
      obtain ⟨hbefore, hrest⟩ := List.append_inj htexts hn.symm
      obtain ⟨hbefore', hrest'⟩ := List.append_inj htexts'
        ((length_textsAll_of_shape hms).symm.trans hn.symm)
      obtain ⟨rfl, hbehind⟩ := List.cons.inj hrest
      obtain ⟨rfl, hbehind'⟩ := List.cons.inj hrest'
      obtain rfl := eq_of_shape hms (hbefore.trans hbefore'.symm)
      obtain rfl := eq_of_shape hns (hbehind.trans hbehind'.symm)
      have hitems : (Node.text content).items = (Node.text content').items := hr.textItems_eq
      refine ⟨?_, ?_, ?_⟩
      · rw [layout, layout, itemsAll_append, itemsAll_append, itemsAll, itemsAll, hitems]
      · exact blankAtStart_append_cons ms ns hr.startsBlank_eq.symm
      · exact blankAtEnd_append_cons ms ns hr.endsBlank_eq.symm
  | @block ms children ns tag n hms₀ hblock hin hns₀ ih =>
    obtain ⟨ms', m', ns', rfl, hms, hm, hns⟩ := exists_of_shape_append_cons hshape
    cases m' with
    | text content' => cases hm
    | element tag' place' children' =>
      injection hm with htag _ hchildren
      subst htag
      rw [textsAll_append] at htexts htexts'
      have hlt := hin.lt
      obtain ⟨rfl, rfl, b, e, rfl, he, he'⟩ :=
        exists_within_children hms hchildren hns htexts htexts' (by omega) (by omega)
      have hbn : b.length = n := by
        rw [List.length_append] at hn
        omega
      -- Being a block depends on the ends of the children too, so these are carried along.
      obtain ⟨hlayout, hstart, hend⟩ := ih hchildren he he' hbn
      have hblock' : isBlock tag children' = isBlock tag children := by
        rw [isBlock, isBlock, hstart, hend, any_isElement_of_shape hchildren]
      refine ⟨?_, ?_, ?_⟩
      · rw [layout_alone hms₀ hns₀, layout_alone hms₀ hns₀, item, item, hblock', hblock, hlayout]
        rfl
      · exact blankAtStart_append_cons ms ns rfl
      · exact blankAtEnd_append_cons ms ns rfl

/-! ## The text of a block -/

structure Chunk where
  before : Text
  /-- What stands between `<` and `>`. -/
  inner : Text
deriving DecidableEq, Repr

namespace Chunk

def spell (c : Chunk) : Text :=
  c.before ++ '<' :: (c.inner ++ ['>'])

structure WellFormed (c : Chunk) : Prop where
  before : Lacks startsTag c.before
  opens : startsTag ('<' :: c.inner) = true
  shut : Shut none c.inner

/-- How many of the chunks have a text before their tag. -/
def textCount (cs : List Chunk) : Nat :=
  cs.countP (!·.before.isEmpty)

def tokens (p : Position) : List Chunk → List Token
  | [] => []
  | c :: cs =>
    Token.run c.before ++ .mark (Mark.ofInner c.inner) (p.after c.before) ::
      tokens ((p.after c.before).after ('<' :: c.inner ++ ['>'])) cs

theorem ofText_spell_append {cs : List Chunk} (hcs : ∀ c ∈ cs, c.WellFormed) (p : Position)
    (t : Text) :
    Token.ofText p (cs.flatMap spell ++ t) =
      tokens p cs ++ Token.ofText (p.after (cs.flatMap spell)) t := by
  induction cs generalizing p with
  | nil => rfl
  | cons c cs ih =>
    rw [List.forall_mem_cons] at hcs
    obtain ⟨⟨hbefore, hopens, hshut⟩, hcs⟩ := hcs
    have hstart := pattern_startsTag.found_append ('>' :: (cs.flatMap spell ++ t)) hopens
    rw [List.cons_append] at hstart
    have happ : (c :: cs).flatMap spell ++ t =
        c.before ++ '<' :: (c.inner ++ '>' :: (cs.flatMap spell ++ t)) := by
      simp [spell]
    have hafter : p.after ((c :: cs).flatMap spell) =
        ((p.after c.before).after ('<' :: c.inner ++ ['>'])).after (cs.flatMap spell) := by
      rw [List.flatMap_cons, Position.after_append, spell, Position.after_append]
      rfl
    rw [happ, Token.ofText_run hbefore (.inr hstart), Token.ofText_mark hstart hshut, ih hcs, hafter,
      tokens, List.append_assoc]
    rfl

/-- Behind the chunks a text, up to the next tag. -/
theorem ofText_spell_run {cs : List Chunk} {s v : Text} (hcs : ∀ c ∈ cs, c.WellFormed)
    (hs : Lacks startsTag s) (hne : s ≠ []) (hv : v = [] ∨ startsTag v = true) (p : Position) :
    ∃ q, Token.ofText p (cs.flatMap spell ++ (s ++ v)) =
      tokens p cs ++ .text s :: Token.ofText q v := by
  rw [ofText_spell_append hcs, Token.ofText_run hs hv, Token.run, if_neg (by simpa using hne)]
  exact ⟨_, rfl⟩

theorem length_texts_tokens (p : Position) (cs : List Chunk) :
    ((tokens p cs).filterMap Token.text?).length = textCount cs := by
  induction cs generalizing p with
  | nil => rfl
  | cons c cs ih =>
    have hmark : ∀ (m : Mark) (q : Position) (toks : List Token),
        (Token.mark m q :: toks).filterMap Token.text? = toks.filterMap Token.text? :=
      fun _ _ _ => rfl
    rw [tokens, List.filterMap_append, List.length_append, hmark, ih, textCount, textCount,
      List.countP_cons, Nat.add_comm]
    congr 1
    cases c.before <;> rfl

end Chunk

/-- The run stands behind the tags of `cs`. The texts of a forest stand there in the order in which they
are read, so its number is that of the texts in front of it. -/
inductive EdgeEdit : Text → Text → Prop
  | intro {cs : List Chunk} {r r' v : Text} {p : Position} {f : Forest} {ws : List Warning} :
      (∀ c ∈ cs, c.WellFormed) → Lacks startsTag r → r ≠ [] → (v = [] ∨ startsTag v = true) →
      Forest.read p (cs.flatMap Chunk.spell ++ (r ++ v)) = .ok (f, ws) →
      InLines (Chunk.textCount cs) (unplacedAll f) → Respaced r r' →
      EdgeEdit (cs.flatMap Chunk.spell ++ (r ++ v)) (cs.flatMap Chunk.spell ++ (r' ++ v))

theorem EdgeEdit.lacks {W : Text → Prop} {q : Text → Bool} (hq : Pattern W q) {b b' : Text}
    (h : EdgeEdit b b') (hb : Lacks q b) : Lacks q b' := by
  obtain ⟨-, -, -, -, -, -, hr⟩ := h
  exact hr.lacks hq hb

theorem filterMap_text?_position (p q : Position) (t : Text) :
    (Token.ofText p t).filterMap Token.text? = (Token.ofText q t).filterMap Token.text? := by
  have htexts : ∀ toks : List Token,
      (toks.map (Token.relabel id)).filterMap Token.text? = toks.filterMap Token.text? := by
    intro toks
    rw [List.filterMap_map]
    congr 1
    funext tok
    cases tok <;> rfl
  rw [← htexts, Token.relabel_ofText id p q, htexts]

theorem bodyLines_of_edgeEdit {b b' : Text} (h : EdgeEdit b b') : bodyLines b' = bodyLines b := by
  obtain @⟨cs, r, r', v, p, f, ws, hcs, hr, hne, hv, hread, hin, hrespaced⟩ := h
  have hr' : Lacks startsTag r' := by
    simpa using hrespaced.lacks pattern_startsTag (s := []) (t := []) (by simpa using hr)
  obtain ⟨q, htoks⟩ := Chunk.ofText_spell_run hcs hr hne hv p
  obtain ⟨q', htoks'⟩ := Chunk.ofText_spell_run hcs hr' (hrespaced.ne_nil hne) hv p
  have houtcome := Forest.exists_read_iff.1 ⟨ws, hread⟩
  rw [htoks] at houtcome
  have hlabels : (Chunk.tokens p cs ++ .text r :: Token.ofText q v).map
        (Token.relabel fun _ => []) =
      (Chunk.tokens p cs ++ .text r' :: Token.ofText q' v).map (Token.relabel fun _ => []) := by
    rw [List.map_append, List.map_append, List.map_cons, List.map_cons, Token.relabel_ofText _ q q']
    rfl
  obtain ⟨f', houtcome', hshape⟩ := Nesting.exists_outcome_of_shape houtcome hlabels
  have htexts : ∀ {s : Text} {o : Position} {k : Forest},
      Nesting.empty.outcome (Chunk.tokens p cs ++ .text s :: Token.ofText o v) = some k →
      textsAll (unplacedAll k) = (Chunk.tokens p cs).filterMap Token.text? ++
        s :: (Token.ofText q v).filterMap Token.text? := by
    intro s o k hk
    rw [textsAll_unplacedAll, Nesting.textsAll_outcome hk, List.filterMap_append,
      filterMap_text?_position q o]
    rfl
  have hshape' : shapeAll (unplacedAll f) = shapeAll (unplacedAll f') := by
    rw [shapeAll, shapeAll, relabelAll_unplacedAll, relabelAll_unplacedAll]
    exact hshape
  have hlines := layout_of_inLines hin hrespaced hshape' (htexts houtcome) (htexts houtcome')
    (Chunk.length_texts_tokens p cs)
  rw [bodyLines_eq p, bodyLines_eq p, htoks, htoks', houtcome, houtcome']
  exact congrArg some hlines.1

end TemplLayout
