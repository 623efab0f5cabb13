import Estate.Path.Raw
import Estate.Traversal.Syntax

/-!
# Reading traversals

The grammar of traversals.  The words that start a step (`relationships`, `recursive`, `identical`
and the collections) are tried before ids, and each commits once the text can mean nothing else, so
that no such word is ever taken for the id of an entity.

* `Grammar.step` — one step.
* `Traversal.parse`, `Traversal.parseAt` — a whole text, or the part of it after an offset.  All
  positions count from the start of the text.
-/

namespace Estate

open Parse

namespace Grammar

/-! ## Words -/

/-- The words for the collections of entities. -/
def collectionWords : List String :=
  (Kind.all.filter Kind.isEntity).map Kind.plural

/-- The words for a step along relationships. -/
def relationshipWords : List String :=
  ["relationships", "rl"]

/-- The words for what is taken from relationships. -/
def selectorWords : List String :=
  ["entities", "relationships"]

/-- The words for directions. -/
def directionWords : List String :=
  ["in", "out", "both"]

/-- The words that always start a step, and so are never read as the id of an entity. -/
def isStepWord (word : String) : Bool :=
  relationshipWords.contains word || word == "recursive" || word == "identical" ||
    collectionWords.contains word

/-- A direction. -/
def direction : Parser Direction := do
  let word ← keyword directionWords
  match Direction.ofName? word with
  | some d => pure d
  | none => Parser.expected "direction"

/-! ## Filters -/

/-- A text in quotes of one kind. -/
def quoted (quote : Char) : Parser String :=
  quotedText quote "quote" "closing quote"

/-- The value of a filter, quoted or escaped. -/
def value : Parser String :=
  quoted '"' <|> quoted '\'' <|> escapedText [';', ']', ','] "value"

/-- A key that the context allows. -/
def filterKey (context : FilterContext) : Parser FilterKey := do
  let word ← keyword (context.keys.map FilterKey.word)
  match FilterKey.ofWord? word with
  | some key => pure key
  | none => Parser.expected "filter key"

/-- `key=value,value` -/
def filterSpec (context : FilterContext) : Parser (Spanned FilterSpec) :=
  Parser.spanned do
    let key ← filterKey context
    (char '=').commit
    let values ← (Parser.sepBy1 (char ',') value).commit
    pure ⟨key, values⟩

/-- `[key=value,value;key=value]` -/
def bracket (context : FilterContext) : Parser FilterSpecs := do
  char '['
  Parser.commit do
    let specs ← Parser.sepBy1 (char ';') (filterSpec context)
    char ']'
    pure specs

/-- Any number of brackets. -/
def filters (context : FilterContext) : Parser FilterSpecs := do
  let brackets ← Parser.many (bracket context)
  pure brackets.flatten

/-! ## Steps to entities -/

/-- The id of an entity. -/
def id : Parser String :=
  escapedText ['/', ';', '[', ']'] "id"

/-- `r;host1[…]` -/
def typedEntity : Parser Step := do
  let kind ← RawPath.kindWord
  char ';'
  let id ← id.commit
  let filters ← filters .entity
  pure (.entity ⟨some kind, id, filters⟩)

/-- `host1[…]` -/
def bareEntity : Parser Step := do
  let id ← id
  let filters ← filters .entity
  pure (.entity ⟨none, id, filters⟩)

/-- Whether a step of its own starts here, so that no id of a collection can. -/
def startsStep (c : Cursor) : Bool :=
  match word? c with
  | none => false
  | some (word, after) =>
    isStepWord word || after.rest.head? == some ';' && (Kind.ofWord? word).isSome

/-- `/host1[…]` behind a collection, unless what follows the slash is a step of its own. -/
def collectionId : Parser (Spanned String × FilterSpecs) := do
  char '/'
  (fun c => if startsStep c then .miss (.leaf c.offset (.text "id")) else .done () c)
  let id ← Parser.spanned id
  let filters ← filters .entity
  pure (id, filters)

/-- `resources;recursive[…]/host1[…]` -/
def collection : Parser Step := do
  let word ← keyword collectionWords
  match Kind.ofPlural? word with
  | none => Parser.expected "collection"
  | some kind =>
    let recursive ← Parser.optional do
      char ';'
      (keyword ["recursive"]).commit
    let own ← filters .entity
    let id ← Parser.optional collectionId
    pure (.collection
      ⟨kind, recursive.isSome, own, id.map (·.1), (id.map (·.2)).getD []⟩)

/-! ## Steps along relationships -/

/-- The name of a relationship. -/
def relationshipName : Parser String :=
  escapedText ['/', ';', '[', ']'] "relationship name"

/-- What follows the first semicolon of a step along relationships: a direction, or a name that a
direction may follow. -/
def clauses (name : Parser String) (directionFirst : Bool) :
    Parser (Option String × Option Direction) := do
  let semicolon ← Parser.optional (char ';')
  if semicolon.isNone then pure (none, none)
  else
    let named : Parser (Option String × Option Direction) := do
      let name ← name
      pure (some name, none)
    let directed : Parser (Option String × Option Direction) := do
      let d ← direction
      pure (none, some d)
    let first ← (if directionFirst then directed <|> named else named <|> directed).commit
    match first with
    | (some name, _) =>
      let d ← Parser.optional do
        char ';'
        direction.commit
      pure (some name, d)
    | (none, d) => pure (none, d)

/-- `entities[…]` or `relationships[…]` -/
def selector : Parser Selector := do
  let word ← keyword selectorWords
  if word = "entities" then Selector.entities <$> filters .entity
  else Selector.relationships <$> filters .relationship

/-- `relationships;contains;out[…]/entities[…]` -/
def relationships : Parser Step := do
  let _ ← keyword relationshipWords
  let (name, d) ← clauses relationshipName true
  let filters ← filters .relationship
  let selector ← Parser.optional do
    char '/'
    (Parser.spanned selector).commit
  pure (.relationships ⟨name, d.getD .outgoing, filters, selector⟩)

/-- `over=isParentOf` -/
def relationClause : Parser String := do
  let _ ← keyword ["over"]
  (char '=').commit
  relationshipName.commit

/-- `recursive;over=isParentOf;out[…]` -/
def recursive : Parser Step := do
  let _ ← keyword ["recursive"]
  let (name, d) ← clauses relationClause false
  let filters ← filters .entity
  pure (.recursive ⟨name.getD RecursiveStep.contained.relation,
    d.getD RecursiveStep.contained.direction, filters⟩)

/-- `identical` -/
def identical : Parser Step := do
  let _ ← keyword ["identical"]
  pure .identical

/-- One step.  Words that start a step are tried before ids. -/
def step : Parser Step :=
  relationships <|> recursive <|> identical <|> collection <|> typedEntity <|> bareEntity

/-! ## Whole traversals -/

/-- Nothing is left to read. -/
def finished : Parser Unit := fun c =>
  if c.atEnd then .done () c
  else .miss (.either [.leaf c.offset (.text "/"), .leaf c.offset .endOfInput])

/-- Steps with slashes between them, and a slash before them if the traversal is absolute. -/
def traversal : Parser Traversal := do
  let absolute ← Parser.optional (char '/')
  let first ← (Parser.spanned step).commit
  let others ← Parser.many do
    char '/'
    (Parser.spanned step).commit
  finished
  pure ⟨absolute.isSome, first :: others⟩

end Grammar

namespace Traversal

/-- Reads a traversal that starts at a byte offset of a text. -/
def parseAt (text : String) (offset : Nat) : Except Errors Traversal :=
  (Grammar.traversal (.at text offset)).toExcept text

/-- Reads a traversal. -/
def parse (text : String) : Except Errors Traversal :=
  (Grammar.traversal (.start text)).toExcept text

end Traversal

end Estate
