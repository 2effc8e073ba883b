import TemplLayout.Text.Basic

/-!
# TemplLayout.Text.Blank

Blank characters and trimming.

* `isBlankChar c`  — `c` has the Unicode property White_Space.
* `Text.trim t`    — `t` without the blank characters at either end.
* `Text.isBlank t` — `t` holds nothing but blank characters.
* `Text.firstWord` and `Text.afterWord` — a text cut before its first blank character.

Trimming takes blank characters off the ends and nothing else (`leadingBlanks_append_trim_append`),
and it takes everything exactly when everything is blank (`trim_eq_nil_iff`).
-/

namespace TemplLayout

/-- The Unicode property White_Space. -/
def isBlankChar (c : Char) : Bool :=
  let n := c.toNat
  (0x09 ≤ n && n ≤ 0x0D) || n == 0x20 || n == 0x85 || n == 0xA0 || n == 0x1680 ||
    (0x2000 ≤ n && n ≤ 0x200A) || n == 0x2028 || n == 0x2029 || n == 0x202F || n == 0x205F ||
    n == 0x3000

namespace Text

def trimStart (t : Text) : Text :=
  t.dropWhile isBlankChar

def trimEnd (t : Text) : Text :=
  (t.reverse.dropWhile isBlankChar).reverse

def trim (t : Text) : Text :=
  t.trimStart.trimEnd

def isBlank (t : Text) : Bool :=
  t.all isBlankChar

def hasBlank (t : Text) : Bool :=
  t.any isBlankChar

def startsBlank : Text → Bool
  | [] => false
  | c :: _ => isBlankChar c

def endsBlank (t : Text) : Bool :=
  t.getLast?.any isBlankChar

/-- The blank characters that `t` begins with. -/
def leadingBlanks (t : Text) : Text :=
  t.takeWhile isBlankChar

/-- The blank characters that `t` ends with. -/
def trailingBlanks (t : Text) : Text :=
  (t.reverse.takeWhile isBlankChar).reverse

/-- What stands before the first blank character. -/
def firstWord (t : Text) : Text :=
  t.takeWhile (!isBlankChar ·)

/-- What stands from the first blank character on. -/
def afterWord (t : Text) : Text :=
  t.dropWhile (!isBlankChar ·)

/-- One word: not empty, and nothing blank in it. -/
def isWord (t : Text) : Bool :=
  !t.isEmpty && !t.hasBlank

theorem isBlank_iff {t : Text} : t.isBlank = true ↔ ∀ c ∈ t, isBlankChar c = true :=
  List.all_eq_true

theorem leadingBlanks_append (t : Text) : t.leadingBlanks ++ t.trimStart = t :=
  List.takeWhile_append_dropWhile

theorem isBlank_leadingBlanks (t : Text) : t.leadingBlanks.isBlank = true :=
  isBlank_iff.2 fun _ h => List.all_eq_true.1 List.all_takeWhile _ h

theorem trimEnd_append (t : Text) : t.trimEnd ++ t.trailingBlanks = t := by
  rw [trimEnd, trailingBlanks, ← List.reverse_append, List.takeWhile_append_dropWhile,
    List.reverse_reverse]

theorem isBlank_trailingBlanks (t : Text) : t.trailingBlanks.isBlank = true :=
  isBlank_iff.2 fun _ h => List.all_eq_true.1 List.all_takeWhile _ (List.mem_reverse.1 h)

theorem trimStart_of_isBlank {t : Text} (h : t.isBlank = true) : t.trimStart = [] := by
  induction t with
  | nil => rfl
  | cons c rest ih =>
    rw [isBlank_iff] at h
    rw [trimStart, List.dropWhile_cons_of_pos (h c (List.mem_cons_self ..))]
    exact ih (isBlank_iff.2 fun x hx => h x (List.mem_cons_of_mem _ hx))

/-- Trimming takes blank characters off the ends and nothing else. -/
theorem leadingBlanks_append_trim_append (t : Text) :
    t.leadingBlanks ++ t.trim ++ t.trimStart.trailingBlanks = t := by
  rw [List.append_assoc, trim, trimEnd_append, leadingBlanks_append]

theorem trim_eq_nil_iff {t : Text} : t.trim = [] ↔ t.isBlank = true := by
  constructor
  · intro h
    have ht := leadingBlanks_append_trim_append t
    rw [h, List.append_nil] at ht
    rw [isBlank_iff, ← ht]
    intro c hc
    rcases List.mem_append.1 hc with hc | hc
    · exact isBlank_iff.1 (isBlank_leadingBlanks t) c hc
    · exact isBlank_iff.1 (isBlank_trailingBlanks _) c hc
  · intro h
    rw [trim, trimStart_of_isBlank h]
    rfl

end Text

end TemplLayout
