import TemplLayout.Text.Basic
import TemplLayout.Text.Combining
import TemplLayout.Text.Unprintable

/-!
# TemplLayout.Text.Quoted

Text in double quotes, on one line and with every character visible: quotes, backslashes and the
usual controls are escaped by a letter, all other characters that would not show by their code point.
-/

namespace TemplLayout

/-- The character would not show, or would be drawn on its neighbour. -/
def isHidden (c : Char) : Bool :=
  isUnprintable c || isCombining c

/-- A code point in lower-case hexadecimal digits, without leading zeros. -/
def codePoint (c : Char) : String :=
  "\\u\x7b" ++ String.ofList (Nat.toDigits 16 c.toNat) ++ "\x7d"

def quotedChar : Char → String
  | '\x22' => "\\\""
  | '\\' => "\\\\"
  | '\n' => "\\n"
  | '\r' => "\\r"
  | '\t' => "\\t"
  | '\x00' => "\\0"
  | c => if isHidden c then codePoint c else c.toString

def Text.quoted (t : Text) : String :=
  "\"" ++ String.join (t.map quotedChar) ++ "\""

end TemplLayout
