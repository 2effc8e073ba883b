import TemplLayout.Text.Utf8

/-!
# TemplLayout.Position

Where something stands in a source: the offset in UTF-8 bytes, and the line and column an editor
shows, both counted from 1. A newline belongs to the line that it ends.

* `Position.after p t`  — the position behind `t`, when `t` stands at `p`.
* `binarySearch xs n`   — where `n` is in the increasing array `xs` (`ok`), or where it would have to be
  put (`error`).
* `Text.slice? t a b`   — the text between the byte offsets `a` and `b`, when neither is inside a
  character.
* `LineIndex`           — a source, and the byte offsets of its newlines.
* `LineIndex.position`  — the position of a byte offset. An offset past the end is taken as the end;
  inside a character of several bytes the column counts bytes instead of characters.
-/

namespace TemplLayout

structure Position where
  offset : Nat
  line : Nat
  column : Nat
deriving DecidableEq, Repr

namespace Position

def start : Position := ⟨0, 1, 1⟩

/-- The position behind the character `c`. -/
def next (p : Position) (c : Char) : Position :=
  if c = '\n' then ⟨p.offset + c.utf8Size, p.line + 1, 1⟩
  else ⟨p.offset + c.utf8Size, p.line, p.column + 1⟩

def after (p : Position) (t : Text) : Position :=
  t.foldl next p

@[simp] theorem after_cons (p : Position) (c : Char) (t : Text) :
    p.after (c :: t) = (p.next c).after t := rfl

theorem after_append (p : Position) (s t : Text) : p.after (s ++ t) = (p.after s).after t :=
  List.foldl_append

theorem offset_after (p : Position) (t : Text) :
    (p.after t).offset = p.offset + t.utf8.length := by
  induction t generalizing p with
  | nil => rfl
  | cons c t ih =>
    have hn : (p.next c).offset = p.offset + c.utf8Size := by
      rw [next]
      split <;> rfl
    rw [after_cons, ih, hn, Text.utf8, Text.utf8, List.flatMap_cons, List.length_append,
      String.length_utf8EncodeChar]
    omega

/-- Line and column with a colon between them. -/
def label (p : Position) : String :=
  s!"{p.line}:{p.column}"

end Position

/-! ## Looking up an offset -/

/-- Halves the part of `xs` from `lo` up to `hi` until `n` is found or nothing is left. -/
def binarySearchFrom (xs : Array Nat) (n lo hi : Nat) (h : hi ≤ xs.size) : Except Nat Nat :=
  if hlt : lo < hi then
    let mid := lo + (hi - lo) / 2
    have hmid : mid < xs.size := by omega
    if xs[mid] = n then .ok mid
    else if xs[mid] < n then binarySearchFrom xs n (mid + 1) hi h
    else binarySearchFrom xs n lo mid (by omega)
  else .error lo
termination_by hi - lo

def binarySearch (xs : Array Nat) (n : Nat) : Except Nat Nat :=
  binarySearchFrom xs n 0 xs.size (Nat.le_refl _)

namespace Text

/-- Moves characters onto `seen`, latest first, until `n` bytes are moved. -/
def cutBytesOnto (seen : Text) : Nat → Text → Option (Text × Text)
  | 0, t => some (seen.reverse, t)
  | _ + 1, [] => none
  | n + 1, c :: t =>
    if c.utf8Size ≤ n + 1 then cutBytesOnto (c :: seen) (n + 1 - c.utf8Size) t else none

def slice? (t : Text) (a b : Nat) : Option Text :=
  if a ≤ b then
    match cutBytesOnto [] a t with
    | none => none
    | some (_, rest) => (cutBytesOnto [] (b - a) rest).map (·.1)
  else none

end Text

structure LineIndex where
  source : Text
  /-- The byte offsets of the newlines. -/
  lineBreaks : Array Nat

namespace LineIndex

/-- Adds the newlines of a text that begins at the byte offset `n`. -/
def lineBreaksOnto (seen : Array Nat) (n : Nat) : Text → Array Nat
  | [] => seen
  | c :: t => lineBreaksOnto (if c = '\n' then seen.push n else seen) (n + c.utf8Size) t

def ofText (source : Text) : LineIndex :=
  ⟨source, lineBreaksOnto #[] 0 source⟩

/-- How many lines end before the offset. -/
def row (index : LineIndex) (offset : Nat) : Nat :=
  match binarySearch index.lineBreaks offset with
  | .ok i | .error i => i

/-- Where a row begins: behind the newline that ends the row before it. -/
def lineStart (index : LineIndex) (row : Nat) : Nat :=
  if row = 0 then 0 else index.lineBreaks.getD (row - 1) 0 + 1

def position (index : LineIndex) (n : Nat) : Position :=
  let offset := min n index.source.utf8.length
  let row := index.row offset
  let lineStart := index.lineStart row
  let column := match index.source.slice? lineStart offset with
    | some before => before.length
    | none => offset - lineStart
  ⟨offset, row + 1, column + 1⟩

end LineIndex

def Position.ofOffset (source : Text) (n : Nat) : Position :=
  (LineIndex.ofText source).position n

end TemplLayout
