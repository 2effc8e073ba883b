import TemplLayout.Text.Blank

/-!
# TemplLayout.Markup.Tag

Tags, as they are written and as they are read.

* `startsTag t`  — a tag starts here: `<` or `</`, and an ASCII letter. Any other `<` is text.
* `Tag`          — an opening tag: name, attributes as one trimmed text, and whether it closes itself.
* `Tag.spell`    — the tag as it is written.
* `Mark`         — an opening or a closing tag.
* `closeTag? t`  — `t` cut at the `>` that ends the tag begun before it. A `>` inside quotes ends
  nothing.
-/

namespace TemplLayout

def startsTag : Text → Bool
  | '<' :: '/' :: c :: _ => c.isAlpha
  | '<' :: c :: _ => c.isAlpha
  | _ => false

def isNameChar (c : Char) : Bool :=
  c.isAlphanum || c == '-' || c == '_' || c == ':' || c == '.'

structure Tag where
  name : Text
  attrs : Text
  selfClosed : Bool
deriving DecidableEq, Repr

namespace Tag

/-- Reads what stands between `<` and `>`. One slash at the end closes the tag itself and is no
part of the attributes. -/
def ofInner (t : Text) : Tag :=
  let name := t.takeWhile isNameChar
  let body := Text.trimEnd (t.dropWhile isNameChar)
  if body.getLast? = some '/' then ⟨name, Text.trim body.dropLast, true⟩
  else ⟨name, body.trim, false⟩

/-- The tag without its end. -/
def lead (tag : Tag) : Text :=
  '<' :: tag.name ++ (if tag.attrs.isEmpty then [] else ' ' :: tag.attrs)

def spell (tag : Tag) : Text :=
  tag.lead ++ (if tag.selfClosed then ['/', '>'] else ['>'])

/-- The closing tag that belongs to the tag. -/
def spellClosing (tag : Tag) : Text :=
  '<' :: '/' :: tag.name ++ ['>']

end Tag

/-- The quote that is open behind `c`, when `quote` was open before it. -/
def quoteAfter (quote : Option Char) (c : Char) : Option Char :=
  match quote with
  | some q => if c = q then none else some q
  | none => if c = '\x22' ∨ c = '\x27' then some c else none

/-- Moves characters onto `seen`, latest first, up to a `>` that stands in no quotes. -/
def closeTagOnto (quote : Option Char) (seen : Text) : Text → Option (Text × Text)
  | [] => none
  | c :: rest =>
    if quote = none ∧ c = '>' then some (seen.reverse, rest)
    else closeTagOnto (quoteAfter quote c) (c :: seen) rest

def closeTag? (t : Text) : Option (Text × Text) :=
  closeTagOnto none [] t

theorem append_of_closeTagOnto {t seen inner rest : Text} {quote : Option Char}
    (h : closeTagOnto quote seen t = some (inner, rest)) :
    inner ++ '>' :: rest = seen.reverse ++ t := by
  induction t generalizing quote seen with
  | nil => cases h
  | cons c t ih =>
    rw [closeTagOnto] at h
    split at h
    · rename_i hc
      cases h
      rw [hc.2]
    · rw [ih h]
      simp

theorem append_of_closeTag? {t inner rest : Text} (h : closeTag? t = some (inner, rest)) :
    inner ++ '>' :: rest = t :=
  append_of_closeTagOnto h

theorem length_lt_of_closeTag? {t inner rest : Text} (h : closeTag? t = some (inner, rest)) :
    rest.length < t.length := by
  rw [← append_of_closeTag? h, List.length_append, List.length_cons]
  omega

inductive Mark where
  | opening (tag : Tag)
  | closing (name : Text)
deriving DecidableEq, Repr

namespace Mark

/-- Reads what stands between `<` and `>`. What follows the name in a closing tag is ignored. -/
def ofInner : Text → Mark
  | '/' :: t => .closing (t.takeWhile isNameChar)
  | t => .opening (Tag.ofInner t)

def name : Mark → Text
  | .opening tag => tag.name
  | .closing name => name

end Mark

end TemplLayout
