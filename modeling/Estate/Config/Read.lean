import Estate.Config
import Estate.Text.Word
import Estate.Yaml.Read

/-!
# Reading settings

Settings are a YAML mapping.  What it leaves out keeps its default, names that mean nothing here are
passed over, and a name that is given twice is refused.  Settings may also be a sequence, which
gives them in the order of `Config.names`.  A blank text gives the defaults.

* `Config.parse?` — the settings of a text.
-/

namespace Estate

namespace Yaml

/-! ## Simple values

No reference is followed here. -/

/-- The text of a scalar, however it is written. -/
def text? : Yaml → Option String
  | scalar _ _ s => some s
  | _ => none

/-- The value of a digit in a base of at most sixteen. -/
def digit? (base : Nat) (c : Char) : Option Nat := do
  let n ← hexDigit? c
  if n < base then some n else none

/-- The number that digits of a base stand for, of which there has to be one. -/
def digits? (base : Nat) : List Char → Option Nat
  | [] => none
  | c :: cs => (c :: cs).foldlM (fun n d => (digit? base d).map (n * base + ·)) 0

/-- The number of a scalar without its sign.  Only other bases may begin with a zero. -/
def magnitude? : List Char → Option Nat
  | '0' :: 'x' :: cs => digits? 16 cs
  | '0' :: 'o' :: cs => digits? 8 cs
  | '0' :: 'b' :: cs => digits? 2 cs
  | '0' :: c :: cs => if (c :: cs).all Char.isDigit then none else digits? 10 ('0' :: c :: cs)
  | cs => digits? 10 cs

/-- Whether a scalar may be a number: one without quotes, or a literal one tagged as an integer. -/
def mayBeNumber (p : Properties) (style : Style) : Bool :=
  style == .plain || (style == .literal && p.tag == some (Tag.ofString "tag:yaml.org,2002:int"))

/-- The 64-bit word that a scalar stands for. -/
def word? : Yaml → Option UInt64
  | scalar p style s => do
    guard (mayBeNumber p style)
    let n ← magnitude? (match s.toList with
      | '+' :: cs => cs
      | cs => cs)
    if n < UInt64.size then some (.ofNat n) else none
  | _ => none

/-- Whether a value is nothing, whatever its properties are. -/
def isNothing : Yaml → Bool
  | scalar _ .plain "" => true
  | _ => false

/-- Whether a text without quotes means that there is no value. -/
def isNull (s : String) : Bool :=
  ["", "~", "null", "Null", "NULL"].contains s

/-- The name in a tag that begins with an exclamation mark. -/
def Tag.localName? : Tag → Option String
  | 0x21 :: octets =>
    String.fromUTF8? ⟨(if octets.isEmpty then [0x21] else octets).toArray⟩
  | _ => none

/-- A name: the name in the tag of a missing value, or a text. -/
def name? : Yaml → Option String
  | scalar p style s =>
    match p.tag.bind Tag.localName? with
    | some name => if style = .plain ∧ isNull s then some name else none
    | none => some s
  | _ => none

/-! ## Values of a document -/

/-- The texts of a sequence of scalars.  Nothing is an empty sequence. -/
def texts? (document : Yaml) : Yaml → Option (List String)
  | sequence _ items => items.mapM fun y => (document.follow y).text?
  | y => if y.isNothing then some [] else none

/-- The entries of a document that is a mapping under texts, or a sequence of values of such names.
Nothing is an empty mapping. -/
def fields? (names : List String) : Yaml → Option (List (String × Yaml))
  | mapping p entries =>
    let document := mapping p entries
    entries.mapM fun (key, value) =>
      (document.follow key).text?.map (·, document.follow value)
  | sequence p items =>
    if names.length < items.length then none
    else some (names.zip (items.map (sequence p items).follow))
  | y => if y.isNothing then some [] else none

end Yaml

namespace Config

/-- The names of the settings. -/
def names : List String :=
  ["page_size", "max_page_size", "log", "substrate", "indexed_vertex_keys", "indexed_edge_keys"]

/-- The setting of a name, or the default if it is left out. -/
def setting? {α : Type} (fields : List (String × Yaml)) (name : String) (read : Yaml → Option α)
    (default : α) : Option α :=
  match fields.filter fun field => field.1 == name with
  | [] => some default
  | [(_, value)] => read value
  | _ => none

/-- The settings of a document. -/
def ofYaml? (y : Yaml) : Option Config := do
  let fields ← y.fields? names
  return {
    pageSize := ← setting? fields "page_size" Yaml.word? usual.pageSize
    maxPageSize := ← setting? fields "max_page_size" Yaml.word? usual.maxPageSize
    log := ← setting? fields "log" Yaml.text? usual.log
    substrate := ← setting? fields "substrate" (·.name?.bind Substrate.ofName?) usual.substrate
    vertexKeys := ← setting? fields "indexed_vertex_keys" y.texts? usual.vertexKeys
    edgeKeys := ← setting? fields "indexed_edge_keys" y.texts? usual.edgeKeys }

/-- The settings of a text. -/
def parse? (text : String) : Option Config :=
  if text.toList.all Text.isBlank then some usual
  else (Yaml.parse? text).bind ofYaml?

end Config

end Estate
