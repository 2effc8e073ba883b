import TemplLayout.Markup.Tag
import TemplLayout.Position

/-!
# TemplLayout.Markup.Token

A block's text as a row of tokens: runs of text and tags, each tag with its position. A tag without
an end is the last token, and takes all that is left.
-/

namespace TemplLayout

inductive Token where
  | text (content : Text)
  | mark (mark : Mark) (position : Position)
  | unterminated (name : Text) (position : Position)
deriving DecidableEq, Repr

namespace Token

/-- The token of a run of text; an empty run makes none. -/
def run (t : Text) : List Token :=
  if t.isEmpty then [] else [.text t]

/-- The tokens of `t`, which stands at `p`. -/
def ofText (p : Position) (t : Text) : List Token :=
  match _h : t.breakAt startsTag with
  | (before, []) => run before
  | (before, lead :: afterLead) =>
    let q := p.after before
    match _h' : closeTag? afterLead with
    | none => run before ++ [.unterminated (Mark.ofInner afterLead).name q]
    | some (inner, rest) =>
      run before ++ .mark (Mark.ofInner inner) q :: ofText (q.after (lead :: inner ++ ['>'])) rest
termination_by t.length
decreasing_by
  have hlt := length_lt_of_closeTag? (by assumption)
  have hle := Text.length_breakAt_snd_le startsTag t
  simp_all only [List.length_cons]
  omega

theorem ofText_eq (p : Position) (t : Text) :
    ofText p t =
      match t.breakAt startsTag with
      | (before, []) => run before
      | (before, lead :: afterLead) =>
        let q := p.after before
        match closeTag? afterLead with
        | none => run before ++ [.unterminated (Mark.ofInner afterLead).name q]
        | some (inner, rest) =>
          run before ++ .mark (Mark.ofInner inner) q ::
            ofText (q.after (lead :: inner ++ ['>'])) rest := by
  rw [ofText]
  rcases t.breakAt startsTag with ⟨before, _ | ⟨lead, afterLead⟩⟩
  · rfl
  · dsimp only
    rcases closeTag? afterLead with _ | ⟨inner, rest⟩ <;> rfl

end Token

end TemplLayout
