import Estate.Config.Read
import Estate.Demo

/-!
# The command line

Three commands: resolve a path text, show the query of a traversal, and try a traversal on a small
estate.  An option takes a value, which follows it or is joined to it by an equals sign; two hyphens
end the options.

* `Invocation.parse` — what a list of arguments asks for, or `none` if they make no sense.
* `Invocation.run` — the exit code and the lines to print.
-/

namespace Estate

/-- A command with its arguments. -/
inductive Command
  /-- Resolves a path text. -/
  | path (text : String) (origin kind : Option String)
  /-- Shows the query that a traversal becomes. -/
  | traverse (text : String) (tenant : Option String)
  /-- Tries a traversal on a small estate. -/
  | demo (text : String)
  deriving DecidableEq, Repr

/-- What the command line asks for. -/
structure Invocation where
  command : Command
  /-- Where the settings are, if any are given. -/
  config : Option String
  deriving DecidableEq, Repr

/-! ## Arguments -/

/-- Arguments sorted into options and others. -/
structure Arguments where
  options : List (String × String) := []
  others : List String := []
  deriving DecidableEq, Repr

namespace Arguments

/-- The value of an option. -/
def option? (a : Arguments) (name : String) : Option String :=
  a.options.lookup name

/-- Adds the value of an option, which may be given once. -/
def withOption? (a : Arguments) (known : List String) (name value : String) : Option Arguments :=
  if known.contains name && (a.option? name).isNone then
    some { a with options := a.options ++ [(name, value)] }
  else none

/-- Adds an argument that is no option. -/
def withOther (a : Arguments) (text : String) : Arguments :=
  { a with others := a.others ++ [text] }

/-- Whether an argument looks like an option. -/
def isFlag (text : String) : Bool :=
  match text.toList with
  | '-' :: _ :: _ => true
  | _ => false

/-- The name of an option, and its value if that is joined to it. -/
def splitFlag? (text : String) : Option (String × Option String) :=
  match text.toList with
  | '-' :: '-' :: cs =>
    let name := String.ofList (cs.takeWhile (· != '='))
    match cs.dropWhile (· != '=') with
    | [] => some (name, none)
    | _ :: value => some (name, some (String.ofList value))
  | _ => none

/-- Sorts arguments by the options that are known. -/
def sort? (known : List String) (a : Arguments) : List String → Option Arguments
  | [] => some a
  | "--" :: rest => some { a with others := a.others ++ rest }
  | text :: rest =>
    if isFlag text then
      match splitFlag? text, rest with
      | some (name, some value), rest => do
        (← a.withOption? known name value).sort? known rest
      | some (name, none), value :: rest =>
        if isFlag value then none
        else do (← a.withOption? known name value).sort? known rest
      | _, _ => none
    else (a.withOther text).sort? known rest

end Arguments

/-! ## Invocations -/

namespace Invocation

/-- A command from its name and its arguments. -/
def command? (name : String) (rest : List String) : Option (Command × Arguments) :=
  match name with
  | "path" => do
    let a ← Arguments.sort? ["config", "origin", "type"] {} rest
    match a.others with
    | [text] => return (.path text (a.option? "origin") (a.option? "type"), a)
    | _ => none
  | "traverse" => do
    let a ← Arguments.sort? ["config", "tenant"] {} rest
    match a.others with
    | [text] => return (.traverse text (a.option? "tenant"), a)
    | _ => none
  | "demo" => do
    let a ← Arguments.sort? ["config"] {} rest
    match a.others with
    | [] => return (.demo Demo.defaultTraversal, a)
    | [text] => return (.demo text, a)
    | _ => none
  | _ => none

/-- Splits arguments before the first that is no option and no value of one. -/
def splitCommand : List String → List String × List String
  | [] => ([], [])
  | text :: rest =>
    if Arguments.isFlag text then
      match Arguments.splitFlag? text, rest with
      | some (_, none), value :: rest =>
        let (before, after) := splitCommand rest
        (text :: value :: before, after)
      | _, rest =>
        let (before, after) := splitCommand rest
        (text :: before, after)
    else ([], text :: rest)

/-- What a list of arguments asks for.  Where the settings are may be said before the command or
after it. -/
def parse (arguments : List String) : Option Invocation :=
  let (before, after) := splitCommand arguments
  match after with
  | [] => none
  | name :: rest => do
    let shared ← Arguments.sort? ["config"] {} before
    if !shared.others.isEmpty || before.contains "--" then none
    else
      let (command, own) ← command? name rest
      let config := own.option? "config" <|> shared.option? "config"
      if config = some "" then none else return ⟨command, config⟩

end Invocation

/-! ## Outcomes -/

/-- What a program leaves behind: its exit code and the lines that it has printed. -/
structure Outcome where
  code : UInt32
  lines : List String := []
  deriving DecidableEq, Repr

namespace Outcome

/-- The outcome of arguments that make no sense. -/
def usage : Outcome :=
  ⟨2, []⟩

/-- The outcome of a command that cannot be carried out. -/
def failure : Outcome :=
  ⟨1, []⟩

/-- Everything that is printed. -/
def output (o : Outcome) : String :=
  String.join (o.lines.map (· ++ "\n"))

end Outcome

namespace Command

/-- The path that a text resolves to. -/
def resolve (text : String) (origin kind : Option String) : Except PathError CanonicalPath := do
  let origin ← origin.mapM CanonicalPath.parse
  let kind ← kind.mapM Kind.parse
  CanonicalPath.resolve text origin kind

/-- The lines that a command prints, unless it cannot be carried out. -/
def run (config : Config) : Command → Option (List String)
  | path text origin kind => (resolve text origin kind).toOption.map fun p => [p.text]
  | traverse text tenant =>
    (Query.compile text (tenant.map CanonicalPath.tenant)).toOption.map fun q => [q.text]
  | demo text => Demo.run config text

end Command

namespace Invocation

/-- The outcome of an invocation, given what the settings are read from. -/
def run (i : Invocation) (settings : Option String) : Outcome :=
  let config :=
    match settings with
    | none => some Config.usual
    | some text => Config.parse? text
  match config.bind fun config => i.command.run config with
  | some lines => ⟨0, lines⟩
  | none => .failure

end Invocation

end Estate
