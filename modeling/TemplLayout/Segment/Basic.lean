import TemplLayout.Text.Blank
import TemplLayout.Fault

/-!
# TemplLayout.Segment.Basic

A source is a row of pieces: directives, written between `{%` and `%}`, and the literal text
between them.

* `Piece`           — one piece as it is written; `Piece.spell` writes it.
* `Piece.cut? t`    — the first piece of `t` and what follows it. `none` at the end of the text and
  at a directive that is never closed.
* `Segment`         — a piece with its position, the text of a directive trimmed.

`Piece.cut?` undoes `Piece.spell` on the front of a text (`spell_append_of_cut?`), and what is left
is shorter (`length_lt_of_cut?`), so that cutting comes to an end.
-/

namespace TemplLayout

inductive Piece where
  | literal (text : Text)
  | directive (body : Text)
deriving DecidableEq, Repr

/-- A directive opens here. -/
def opensDirective : Text → Bool
  | '{' :: '%' :: _ => true
  | _ => false

/-- A directive closes here. -/
def closesDirective : Text → Bool
  | '%' :: '}' :: _ => true
  | _ => false

namespace Piece

def spell : Piece → Text
  | .literal text => text
  | .directive body => '{' :: '%' :: (body ++ ['%', '}'])

/-- The body of a directive and what follows it, from behind the opening delimiter. -/
def closeDirective? (t : Text) : Option (Text × Text) :=
  match t.breakAt closesDirective with
  | (body, '%' :: '}' :: rest) => some (body, rest)
  | _ => none

def cut? : Text → Option (Piece × Text)
  | [] => none
  | '{' :: '%' :: t => (closeDirective? t).map fun (body, rest) => (.directive body, rest)
  | t => let (text, rest) := t.breakAt opensDirective; some (.literal text, rest)

theorem append_of_closeDirective? {t body rest : Text} (h : closeDirective? t = some (body, rest)) :
    body ++ '%' :: '}' :: rest = t := by
  have ht := Text.breakAt_append closesDirective t
  unfold closeDirective? at h
  split at h
  · rename_i b r hb
    cases h
    rw [hb] at ht
    exact ht
  · cases h

theorem spell_append_of_cut? {t rest : Text} {p : Piece} (h : cut? t = some (p, rest)) :
    p.spell ++ rest = t := by
  unfold cut? at h
  split at h
  · cases h
  · rename_i t
    cases hd : closeDirective? t with
    | none => rw [hd] at h; cases h
    | some br =>
      rw [hd] at h
      cases h
      simp [spell, append_of_closeDirective? hd]
  · cases h
    exact Text.breakAt_append opensDirective _

theorem spell_ne_nil_of_cut? {t rest : Text} {p : Piece} (h : cut? t = some (p, rest)) :
    p.spell ≠ [] := by
  unfold cut? at h
  split at h
  · cases h
  · rename_i t
    cases hd : closeDirective? t with
    | none => rw [hd] at h; cases h
    | some br => rw [hd] at h; cases h; simp [spell]
  · rename_i hne hopen
    cases h
    intro hnil
    cases t with
    | nil => exact hne rfl
    | cons c r =>
      have ho : ¬ opensDirective (c :: r) = true := by
        intro ho
        unfold opensDirective at ho
        split at ho
        · rename_i heq
          exact hopen _ heq
        · cases ho
      rw [spell, ← Text.breakAt, Text.breakAt_cons, if_neg ho] at hnil
      cases hnil

theorem length_lt_of_cut? {t rest : Text} {p : Piece} (h : cut? t = some (p, rest)) :
    rest.length < t.length := by
  have hl := congrArg List.length (spell_append_of_cut? h)
  have hp := List.length_pos_iff.2 (spell_ne_nil_of_cut? h)
  rw [List.length_append] at hl
  omega

end Piece

inductive Segment where
  | literal (text : Text) (position : Position)
  | directive (text : Text) (position : Position)
deriving DecidableEq, Repr

/-- The segment that a piece makes at `p`. -/
def Piece.placed (p : Position) : Piece → Segment
  | .literal text => .literal text p
  | .directive body => .directive body.trim p

end TemplLayout
