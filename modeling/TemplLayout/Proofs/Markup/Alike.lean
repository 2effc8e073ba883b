import TemplLayout.Proofs.Markup.Traversal

/-!
# TemplLayout.Proofs.Markup.Alike

Two texts read side by side.

* `Node.relabelAll g ns`  — the forest without its positions, each text replaced by what `g` makes of
  it. With `id` this is the forest as such, with a constant it is its shape.
* `Nesting.Alike g s s'`  — two nestings with the same image.
* `Node.textsAll ns`      — the texts in a forest, in document order.

Reading looks neither at positions nor into texts: tokens with the same image have outcomes with the
same image (`outcome_congr`). It also keeps the texts in order (`textsAll_outcome`). As a forest is
known by its shape and its texts (`eq_of_shape`), the two together say what becomes of a forest when a
text among its tokens is changed.
-/

namespace TemplLayout

open Text

variable {π ρ : Type} {g : Text → Text}

namespace Node

mutual

def relabel (g : Text → Text) : Node π → Node Unit
  | .text content => .text (g content)
  | .element tag _ children => .element tag () (relabelAll g children)

def relabelAll (g : Text → Text) : List (Node π) → List (Node Unit)
  | [] => []
  | n :: ns => n.relabel g :: relabelAll g ns

end

theorem relabelAll_eq_map (g : Text → Text) (ns : List (Node π)) :
    relabelAll g ns = ns.map (relabel g) := by
  induction ns with
  | nil => rfl
  | cons n ns ih => rw [relabelAll, ih, List.map_cons]

theorem relabelAll_id (ns : List (Node π)) : relabelAll id ns = unplacedAll ns := by
  induction ns using forest_induction with
  | nil => rfl
  | text content ns ih => rw [relabelAll, unplacedAll, ih]; rfl
  | element tag place children ns ihc ihs =>
    rw [relabelAll, unplacedAll, ihs, relabel, unplaced, ihc]

theorem relabelAll_unplacedAll (g : Text → Text) (ns : List (Node π)) :
    relabelAll g (unplacedAll ns) = relabelAll g ns := by
  induction ns using forest_induction with
  | nil => rfl
  | text content ns ih => rw [unplacedAll, relabelAll, relabelAll, ih]; rfl
  | element tag place children ns ihc ihs =>
    rw [unplacedAll, relabelAll, relabelAll, ihs, unplaced, relabel, relabel, ihc]

mutual

def texts : Node π → List Text
  | .text content => [content]
  | .element _ _ children => textsAll children

def textsAll : List (Node π) → List Text
  | [] => []
  | n :: ns => n.texts ++ textsAll ns

end

theorem textsAll_append (ms ns : List (Node π)) :
    textsAll (ms ++ ns) = textsAll ms ++ textsAll ns := by
  induction ms with
  | nil => rfl
  | cons m ms ih => rw [List.cons_append, textsAll, textsAll, ih, List.append_assoc]

theorem textsAll_relabelAll (g : Text → Text) (ns : List (Node π)) :
    textsAll (relabelAll g ns) = (textsAll ns).map g := by
  induction ns using forest_induction with
  | nil => rfl
  | text content ns ih => rw [relabelAll, textsAll, textsAll, ih, List.map_append]; rfl
  | element tag place children ns ihc ihs =>
    rw [relabelAll, textsAll, textsAll, ihs, List.map_append, relabel, texts, texts, ihc]

theorem textsAll_unplacedAll (ns : List (Node π)) : textsAll (unplacedAll ns) = textsAll ns := by
  rw [← relabelAll_id, textsAll_relabelAll, List.map_id]

/-- The texts are those of the preorder. -/
theorem textsAll_eq_preorder (ns : List (Node π)) :
    textsAll ns = (preorderAll ns).filterMap Entry.text? := by
  induction ns using forest_induction with
  | nil => rfl
  | text content ns ih => rw [textsAll, ih]; rfl
  | element tag place children ns ihc ihs =>
    rw [textsAll, ihs, preorderAll, List.filterMap_append, texts, ihc]
    rfl

/-- A forest with nothing in its texts. -/
def shapeAll (ns : List (Node π)) : List (Node Unit) :=
  relabelAll (fun _ => []) ns

theorem shapeAll_eq_map (ns : List (Node π)) : shapeAll ns = ns.map (relabel fun _ => []) :=
  relabelAll_eq_map _ ns

/-- Forests of one shape come apart at the same places. -/
theorem exists_of_shape_append_cons {ms ns ks : List (Node Unit)} {m : Node Unit}
    (h : shapeAll (ms ++ m :: ns) = shapeAll ks) :
    ∃ ms' m' ns', ks = ms' ++ m' :: ns' ∧ shapeAll ms = shapeAll ms' ∧
      m.relabel (fun _ => []) = m'.relabel (fun _ => []) ∧ shapeAll ns = shapeAll ns' := by
  simp only [shapeAll_eq_map] at h ⊢
  rw [List.map_append, List.map_cons] at h
  obtain ⟨ms', ks', rfl, hms, hks⟩ := List.map_eq_append_iff.1 h.symm
  obtain ⟨m', ns', rfl, hm, hns⟩ := List.map_eq_cons_iff.1 hks
  exact ⟨ms', m', ns', rfl, hms.symm, hm.symm, hns.symm⟩

theorem any_isElement_of_shape {ms ns : List (Node Unit)} (h : shapeAll ms = shapeAll ns) :
    ms.any (·.isElement) = ns.any (·.isElement) := by
  have hany : ∀ ks : List (Node Unit), (shapeAll ks).any (·.isElement) = ks.any (·.isElement) := by
    intro ks
    rw [shapeAll_eq_map, List.any_map]
    refine List.any_congr rfl fun n => ?_
    cases n <;> rfl
  rw [← hany ms, h, hany]

theorem length_textsAll_of_shape {ms : List (Node π)} {ns : List (Node ρ)}
    (h : shapeAll ms = shapeAll ns) : (textsAll ms).length = (textsAll ns).length := by
  have htexts := congrArg textsAll h
  rw [shapeAll, shapeAll, textsAll_relabelAll, textsAll_relabelAll] at htexts
  simpa using congrArg List.length htexts

theorem eq_of_shape {ms ns : List (Node Unit)} (h : shapeAll ms = shapeAll ns)
    (htexts : textsAll ms = textsAll ns) : ms = ns := by
  induction ms using forest_induction generalizing ns with
  | nil =>
    cases ns with
    | nil => rfl
    | cons n ns => cases h
  | text content ms ih =>
    rcases ns with _ | ⟨content' | ⟨tag, place, children⟩, ns⟩
    · cases h
    · have hns := (List.cons.inj h).2
      obtain ⟨rfl, hrest⟩ := List.cons.inj htexts
      rw [ih hns hrest]
    · cases (List.cons.inj h).1
  | element tag place children ms ihc ihs =>
    rcases ns with _ | ⟨content' | ⟨tag', place', children'⟩, ns⟩
    · cases h
    · cases (List.cons.inj h).1
    · obtain ⟨hnode, hns⟩ := List.cons.inj h
      injection hnode with htag _ hchildren
      obtain ⟨hinner, hrest⟩ := List.append_inj htexts (length_textsAll_of_shape hchildren)
      rw [htag, ihc hchildren hinner, ihs hns hrest]

end Node

open Node

namespace Token

/-- The token at the start of a source, its text replaced by what `g` makes of it. -/
def relabel (g : Text → Text) : Token → Token
  | .text content => .text (g content)
  | .mark m _ => .mark m .start
  | .unterminated name _ => .unterminated name .start

def text? : Token → Option Text
  | .text content => some content
  | _ => none

end Token

namespace Nesting

/-! ## Images -/

def image (g : Text → Text) (e : OpenElement) : Tag × List (Node Unit) :=
  (e.tag, e.children.map (relabel g))

structure Alike (g : Text → Text) (s s' : Nesting) : Prop where
  opened : s.opened.map (image g) = s'.opened.map (image g)
  outside : s.outside.map (relabel g) = s'.outside.map (relabel g)

theorem Alike.refl (s : Nesting) : s.Alike g s := ⟨rfl, rfl⟩

theorem Alike.push {s s' : Nesting} {n n' : Node Position} (h : s.Alike g s')
    (hn : n.relabel g = n'.relabel g) : (s.push n).Alike g (s'.push n') := by
  obtain ⟨opened, outside, warnings⟩ := s
  obtain ⟨opened', outside', warnings'⟩ := s'
  obtain ⟨hopened, houtside⟩ := h
  cases opened with
  | nil =>
    cases opened' with
    | nil => exact ⟨rfl, by simpa [Nesting.push] using ⟨hn, houtside⟩⟩
    | cons e' outer' => cases hopened
  | cons e outer =>
    cases opened' with
    | nil => cases hopened
    | cons e' outer' =>
      obtain ⟨he, houter⟩ := List.cons.inj hopened
      obtain ⟨htag, hchildren⟩ := Prod.mk.inj he
      refine ⟨?_, houtside⟩
      simpa [Nesting.push, image, htag, hn, hchildren] using houter

theorem map_content (e : OpenElement) (carried : Forest) :
    (e.content carried).map (relabel g) =
      (e.children.map (relabel g)).reverse ++ carried.map (relabel g) := by
  rw [OpenElement.content_eq, List.map_append, List.map_reverse]

theorem map_spilled (e : OpenElement) (carried : Forest) :
    (e.spilled carried).map (relabel g) =
      .element e.tag () [] :: ((e.children.map (relabel g)).reverse ++ carried.map (relabel g)) := by
  rw [OpenElement.spilled, List.map_cons, map_content]
  rfl

/-- What is found when an element is closed. -/
def foundImage (g : Text → Text) (found : OpenElement × Forest × List OpenElement) :
    Tag × List (Node Unit) × List (Tag × List (Node Unit)) :=
  (found.1.tag, found.2.1.map (relabel g), found.2.2.map (image g))

theorem unwind_congr {opened opened' : List OpenElement} {carried carried' : Forest} (name : Text)
    (p p' : Position) (hopened : opened.map (image g) = opened'.map (image g))
    (hcarried : carried.map (relabel g) = carried'.map (relabel g)) :
    (unwind name p carried opened).toOption.map (foundImage g) =
      (unwind name p' carried' opened').toOption.map (foundImage g) := by
  induction opened generalizing opened' carried carried' with
  | nil =>
    cases opened' with
    | nil => rfl
    | cons e' outer' => cases hopened
  | cons e outer ih =>
    cases opened' with
    | nil => cases hopened
    | cons e' outer' =>
      obtain ⟨he, houter⟩ := List.cons.inj hopened
      obtain ⟨htag, hchildren⟩ := Prod.mk.inj he
      rw [unwind, unwind, htag]
      split
      · simp [Except.toOption, foundImage, htag, map_content, hchildren, hcarried, houter]
      · split
        · refine ih houter ?_
          rw [map_spilled, map_spilled, htag, hchildren, hcarried]
        · rfl

theorem settle_congr {opened opened' : List OpenElement} {carried carried' : Forest}
    (hopened : opened.map (image g) = opened'.map (image g))
    (hcarried : carried.map (relabel g) = carried'.map (relabel g)) :
    (settle carried opened).toOption.map (List.map (relabel g)) =
      (settle carried' opened').toOption.map (List.map (relabel g)) := by
  induction opened generalizing opened' carried carried' with
  | nil =>
    cases opened' with
    | nil => exact congrArg some hcarried
    | cons e' outer' => cases hopened
  | cons e outer ih =>
    cases opened' with
    | nil => cases hopened
    | cons e' outer' =>
      obtain ⟨he, houter⟩ := List.cons.inj hopened
      obtain ⟨htag, hchildren⟩ := Prod.mk.inj he
      rw [settle, settle, htag]
      split
      · refine ih houter ?_
        rw [map_spilled, map_spilled, htag, hchildren, hcarried]
      · rfl

theorem finish_toOption (s : Nesting) :
    s.finish.toOption = (settle [] s.opened).toOption.map (s.outside.reverse ++ ·) := by
  rw [finish]
  cases settle [] s.opened with
  | error fault => rfl
  | ok f => exact congrArg some List.reverseAux_eq

theorem outcome_nil_congr {s s' : Nesting} (hs : s.Alike g s') :
    (s.outcome []).map (relabelAll g) = (s'.outcome []).map (relabelAll g) := by
  have hmap : relabelAll g = List.map (relabel (π := Position) g) := funext (relabelAll_eq_map g)
  have hnone : ([] : Forest).map (relabel g) = ([] : Forest).map (relabel g) := rfl
  have hsettle := settle_congr hs.opened hnone
  have himage : ∀ s : Nesting, (s.outcome []).map (List.map (relabel g)) =
      ((settle [] s.opened).toOption.map (List.map (relabel g))).map
        ((s.outside.map (relabel g)).reverse ++ ·) := by
    intro s
    rw [outcome_nil, finish_toOption, Option.map_map, Option.map_map]
    congr 1
    funext f
    simp
  rw [hmap, himage, himage, hsettle, hs.outside]

theorem bind_congr_image {α β γ : Type} {k : α → β} {x y : Option α} {f f' : α → Option γ}
    (h : x.map k = y.map k) (hf : ∀ a b, k a = k b → f a = f' b) : x.bind f = y.bind f' := by
  cases x with
  | none =>
    cases y with
    | none => rfl
    | some b => cases h
  | some a =>
    cases y with
    | none => cases h
    | some b => exact hf a b (Option.some.inj h)

theorem outcome_congr {s s' : Nesting} {toks toks' : List Token} (hs : s.Alike g s')
    (h : toks.map (Token.relabel g) = toks'.map (Token.relabel g)) :
    (s.outcome toks).map (relabelAll g) = (s'.outcome toks').map (relabelAll g) := by
  induction toks generalizing s s' toks' with
  | nil =>
    cases toks' with
    | nil => exact outcome_nil_congr hs
    | cons tok' toks' => cases h
  | cons tok toks ih =>
    cases toks' with
    | nil => cases h
    | cons tok' toks' =>
      obtain ⟨htok, htoks⟩ := List.cons.inj h
      cases tok with
      | text content =>
        cases tok' with
        | text content' =>
          rw [outcome_text, outcome_text]
          exact ih (hs.push (by simpa [relabel, Token.relabel] using htok)) htoks
        | mark m' p' => cases htok
        | unterminated name' p' => cases htok
      | unterminated name p =>
        cases tok' with
        | text content' => cases htok
        | mark m' p' => cases htok
        | unterminated name' p' => rw [outcome_unterminated, outcome_unterminated]
      | mark m p =>
        cases tok' with
        | text content' => cases htok
        | unterminated name' p' => cases htok
        | mark m' p' =>
          injection htok with hm
          subst hm
          cases m with
          | opening tag =>
            rw [outcome_opening, outcome_opening]
            split
            · exact ih (hs.push rfl) htoks
            · refine ih ⟨?_, hs.outside⟩ htoks
              rw [List.map_cons, List.map_cons, hs.opened]
              rfl
          | closing name =>
            rw [outcome_closing, outcome_closing, Option.map_bind, Option.map_bind]
            refine bind_congr_image (unwind_congr name p p' hs.opened rfl) ?_
            rintro ⟨e, content, outer⟩ ⟨e', content', outer'⟩ hfound
            obtain ⟨htag, hrest⟩ := Prod.mk.inj hfound
            obtain ⟨hcontent, houter⟩ := Prod.mk.inj hrest
            refine ih (Alike.push ⟨houter, hs.outside⟩ ?_) htoks
            rw [relabel, relabel, relabelAll_eq_map, relabelAll_eq_map]
            exact congrArg₂ (Node.element · ()) htag hcontent

/-- Tokens that differ in their texts only make forests that differ in their texts only. -/
theorem exists_outcome_of_shape {toks toks' : List Token} {f : Forest}
    (h : empty.outcome toks = some f)
    (htoks : toks.map (Token.relabel fun _ => []) = toks'.map (Token.relabel fun _ => [])) :
    ∃ f', empty.outcome toks' = some f' ∧ shapeAll f = shapeAll f' := by
  have hshape := outcome_congr (.refl empty) htoks
  rw [h] at hshape
  obtain ⟨f', h', hf'⟩ := Option.map_eq_some_iff.1 hshape.symm
  exact ⟨f', h', hf'.symm⟩

/-! ## Texts in order -/

/-- The forest of some tokens has their texts. -/
theorem textsAll_outcome {toks : List Token} {f : Forest} (h : empty.outcome toks = some f) :
    textsAll f = toks.filterMap Token.text? := by
  have htok : ∀ tok : Token, tok.entry?.bind Entry.text? = tok.text? := by
    rintro (content | ⟨tag | name, p⟩ | ⟨name, p⟩) <;> rfl
  rw [textsAll_eq_preorder, preorderAll_outcome h, List.filterMap_append, List.filterMap_filterMap]
  simp only [htok]
  rfl

end Nesting

end TemplLayout
