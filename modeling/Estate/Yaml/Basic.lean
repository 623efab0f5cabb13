import Estate.Yaml.Tag

/-!
# YAML values

A value is a scalar, a sequence, a mapping, or a reference to another value of the same document.  A
scalar remembers how it is written, because only one without quotes can be a number, and every value
remembers its tag.

Values that are referred to have an anchor.  An anchor is a number: how many names anchors had
before it.  So a name that is given once more takes the number that the next new name takes too, and
a reference by that number is to the last value that has it.

* `Yaml.anchored?` — the value of an anchor.
* `Yaml.follow` — the value that a value stands for.
-/

namespace Estate

namespace Yaml

/-- How a scalar is written. -/
inductive Style
  | plain
  | quoted
  | literal
  | folded
  deriving DecidableEq, Repr

/-- What may stand in front of a value. -/
structure Properties where
  anchor : Option Nat := none
  tag : Option Tag := none
  deriving DecidableEq, Repr

end Yaml

/-- A YAML value. -/
inductive Yaml
  | scalar (properties : Yaml.Properties) (style : Yaml.Style) (text : String)
  | sequence (properties : Yaml.Properties) (items : List Yaml)
  | mapping (properties : Yaml.Properties) (entries : List (Yaml × Yaml))
  | reference (anchor : Nat)
  deriving Repr, Inhabited

namespace Yaml

/-- The value of nothing. -/
def nothing : Yaml :=
  scalar {} .plain ""

mutual

/-- The last value of an anchor inside a value. -/
def anchored? (anchor : Nat) : Yaml → Option Yaml
  | scalar p style text => if p.anchor = some anchor then some (scalar p style text) else none
  | sequence p items =>
    itemAnchored? anchor items <|>
      if p.anchor = some anchor then some (sequence p items) else none
  | mapping p entries =>
    entryAnchored? anchor entries <|>
      if p.anchor = some anchor then some (mapping p entries) else none
  | reference _ => none

/-- The last value of an anchor among the items of a sequence. -/
def itemAnchored? (anchor : Nat) : List Yaml → Option Yaml
  | [] => none
  | y :: ys => itemAnchored? anchor ys <|> anchored? anchor y

/-- The last value of an anchor among the entries of a mapping. -/
def entryAnchored? (anchor : Nat) : List (Yaml × Yaml) → Option Yaml
  | [] => none
  | (key, value) :: entries =>
    entryAnchored? anchor entries <|> anchored? anchor value <|> anchored? anchor key

end

/-- The value that a value of a document stands for. -/
def follow (document : Yaml) : Yaml → Yaml
  | reference anchor => (document.anchored? anchor).getD nothing
  | y => y

end Yaml

end Estate
