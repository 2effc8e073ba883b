/-!
# TemplLayout.Log.Event

What a run reports about itself.

* `Event`       — a level, the part of the program that speaks, a message, and named values.
* `Event.lines` — the event as it is logged.
-/

namespace TemplLayout

inductive Level where
  | error
  | warn
  | info
  | debug
  | trace
deriving DecidableEq, Repr

namespace Level

/-- How much detail a level stands for. -/
def detail : Level → Nat
  | .error => 1
  | .warn => 2
  | .info => 3
  | .debug => 4
  | .trace => 5

def label : Level → String
  | .error => "ERROR"
  | .warn => "WARN"
  | .info => "INFO"
  | .debug => "DEBUG"
  | .trace => "TRACE"

end Level

structure Event where
  level : Level
  target : String
  message : String
  fields : List (String × String)
deriving DecidableEq, Repr

namespace Event

/-- Control characters that a terminal would act on, shown instead of sent. -/
def visibleChar (c : Char) : String :=
  let n := c.toNat
  let digits := String.ofList (Nat.toDigits 16 n)
  if n = 0x07 ∨ n = 0x08 ∨ n = 0x0C then "\\x0" ++ digits
  else if n = 0x1B ∨ n = 0x7F then "\\x" ++ digits
  else if 0x80 ≤ n ∧ n ≤ 0x9F then "\\u\x7b" ++ digits ++ "\x7d"
  else c.toString

def visible (s : String) : String :=
  String.join (s.toList.map visibleChar)

def lines (e : Event) : List String :=
  let fields := e.fields.map fun (name, value) => " " ++ name ++ "=" ++ value
  (e.level.label ++ " " ++ e.target ++ ": " ++ visible e.message ++ String.join fields).splitOn "\n"

end Event

end TemplLayout
