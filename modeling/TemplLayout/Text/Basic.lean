/-!
# TemplLayout.Text.Basic

Text as a list of characters, and how it is cut.

* `Text.breakAt p t` — `t` cut before its first suffix that satisfies `p`.
* `Text.folded t`    — `t` with its ASCII letters in lower case; names are compared by it.
* `Text.string t`    — `t` as a string, for printing.

`breakAt` runs in constant stack; `breakAt_cons` is its equation on the characters of a text, and
`breakAt_append` says that a cut loses nothing.
-/

namespace TemplLayout

abbrev Text := List Char

namespace Text

/-- Moves characters onto `seen`, latest first, until `p` holds of what is left. -/
def breakOnto (p : Text → Bool) (seen : Text) : Text → Text × Text
  | [] => (seen.reverse, [])
  | c :: rest => if p (c :: rest) then (seen.reverse, c :: rest) else breakOnto p (c :: seen) rest

/-- Cuts `t` before its first non-empty suffix that satisfies `p`, or at its end. -/
def breakAt (p : Text → Bool) (t : Text) : Text × Text :=
  breakOnto p [] t

theorem breakOnto_eq (p : Text → Bool) (seen t : Text) :
    breakOnto p seen t = (seen.reverse ++ (breakAt p t).1, (breakAt p t).2) := by
  induction t generalizing seen with
  | nil => simp [breakOnto, breakAt]
  | cons c rest ih =>
    simp only [breakAt, breakOnto]
    split
    · simp
    · rw [ih (c :: seen), ih [c]]
      simp

theorem breakAt_cons (p : Text → Bool) (c : Char) (rest : Text) :
    breakAt p (c :: rest) =
      if p (c :: rest) then ([], c :: rest)
      else (c :: (breakAt p rest).1, (breakAt p rest).2) := by
  rw [breakAt, breakOnto]
  split
  · rfl
  · rw [breakOnto_eq]
    simp

theorem breakAt_append (p : Text → Bool) (t : Text) :
    (breakAt p t).1 ++ (breakAt p t).2 = t := by
  induction t with
  | nil => rfl
  | cons c rest ih =>
    rw [breakAt_cons]
    split
    · rfl
    · simpa using ih

theorem length_breakAt_snd_le (p : Text → Bool) (t : Text) :
    (breakAt p t).2.length ≤ t.length := by
  have h := congrArg List.length (breakAt_append p t)
  rw [List.length_append] at h
  omega

def string (t : Text) : String :=
  String.ofList t

/-- ASCII letters in lower case, every other character as it is. -/
def folded (t : Text) : Text :=
  t.map Char.toLower

end Text

end TemplLayout
