import TemplLayout.Log.Event

/-!
# TemplLayout.Log.Filter

Which events are logged.

* `Rule`             — the most detail logged for the targets that begin in a certain way; a level
  of zero logs nothing.
* `Filter.allows`    — of the rules for an event's target the one that names most of it decides; an
  event without a rule is not logged.
* `Filter.ofSetting` — reads a list of rules, `target=level`, `level` or `target`, set apart by
  commas. Without a setting, or with one that cannot be read, everything up to `info` is logged.
-/

namespace TemplLayout

structure Rule where
  target : String
  detail : Nat
deriving DecidableEq, Repr

abbrev Filter := List Rule

namespace Filter

/-- The level of that name in any case, or the number of a level. -/
def detail? (name : String) : Option Nat :=
  match name.toLower with
  | "off" | "0" => some 0
  | "error" | "1" => some 1
  | "warn" | "2" => some 2
  | "info" | "3" => some 3
  | "debug" | "4" => some 4
  | "trace" | "5" => some 5
  | _ => none

def rule? (s : String) : Option Rule :=
  match s.splitOn "=" with
  | [name] =>
    match detail? name with
    | some detail => some ⟨"", detail⟩
    | none => some ⟨name, Level.trace.detail⟩
  | [target, level] => (detail? level).map fun detail => ⟨target, detail⟩
  | _ => none

/-- Everything that the program says, up to `info`. -/
def default : Filter := [⟨"templfmt", Level.info.detail⟩]

def ofSetting : Option String → Filter
  | none => default
  | some s =>
    let rules := (s.splitOn ",").filter (!·.isEmpty)
    if rules.isEmpty then [⟨"", Level.error.detail⟩]
    else (rules.mapM rule?).getD default

/-- The later of two rules that name equally much of a target is the one that counts. -/
def narrower (best : Option Rule) (rule : Rule) : Option Rule :=
  match best with
  | none => some rule
  | some b => if b.target.length ≤ rule.target.length then some rule else some b

def allows (f : Filter) (e : Event) : Bool :=
  let rules := f.filter fun rule => rule.target.toList.isPrefixOf e.target.toList
  match rules.foldl narrower none with
  | none => false
  | some rule => e.level.detail ≤ rule.detail

end Filter

end TemplLayout
