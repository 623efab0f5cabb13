import Estate.Parse.Failure

/-!
# Parsers over a located text

A parser reads from a `Cursor`, the rest of a text together with the byte offset at which it
starts.  It answers in one of three ways: it is `done`, it `miss`es (another alternative may be
tried from the same place), or it fails for good (`fatal`), which no alternative mends.

* `Parser.orElse`, `Parser.optional`, `Parser.many`, `Parser.sepBy1` try again after a miss and pass
  a fatal failure on.
* `Parser.commit` makes a miss fatal: past this point the text can mean nothing else.
* `Parser.spanned` notes the bytes that a value was read from.

Repetition ends because every round leaves a shorter text; a round that does not is a miss.
-/

namespace Estate.Parse

open Estate.Text

/-- The part of a text that is still to be read, and the byte offset where it starts. -/
structure Cursor where
  offset : Nat
  rest : List Char
  deriving DecidableEq, Repr

namespace Cursor

/-- The start of a text. -/
def start (source : String) : Cursor :=
  ⟨0, source.toList⟩

/-- The place `offset` bytes into a text: the end when the text is shorter, and the start when the
offset falls inside a character. -/
def «at» (source : String) (offset : Nat) : Cursor :=
  if byteLength source.toList ≤ offset then ⟨byteLength source.toList, []⟩
  else
    match dropBytes? source.toList offset with
    | some rest => ⟨offset, rest⟩
    | none => start source

/-- The end of the text a cursor is in. -/
def finish (c : Cursor) : Nat :=
  c.offset + byteLength c.rest

/-- Whether nothing is left to read. -/
def atEnd (c : Cursor) : Bool :=
  c.rest.isEmpty

end Cursor

/-- The answer of a parser. -/
inductive Reply (α : Type)
  | done (value : α) (rest : Cursor)
  | miss (failure : Failure)
  | fatal (failure : Failure)

namespace Reply

variable {α β : Type}

/-- Changes the value of an answer. -/
def map (f : α → β) : Reply α → Reply β
  | done value rest => done (f value) rest
  | miss failure => miss failure
  | fatal failure => fatal failure

/-- The value of an answer, or what to complain about in the text that was read. -/
def toExcept (source : String) : Reply α → Except Errors α
  | done value _ => .ok value
  | miss failure => .error (.ofFailure source failure)
  | fatal failure => .error (.ofFailure source failure)

end Reply

/-- Reads a value from the head of what is left. -/
def Parser (α : Type) : Type :=
  Cursor → Reply α

namespace Parser

variable {α β : Type}

instance : Monad Parser where
  pure value := fun c => .done value c
  bind p f := fun c =>
    match p c with
    | .done value rest => f value rest
    | .miss failure => .miss failure
    | .fatal failure => .fatal failure

/-- Misses, saying what was wanted here. -/
def expected (wanted : String) : Parser α :=
  fun c => .miss (.leaf c.offset (.text wanted))

/-- Tries the second parser where the first one misses. -/
def orElse (p q : Parser α) : Parser α :=
  fun c =>
    match p c with
    | .miss first =>
      match q c with
      | .miss second => .miss (.either [first, second])
      | reply => reply
    | reply => reply

instance : OrElse (Parser α) where
  orElse p q := p.orElse (q ())

/-- No alternative is tried once this parser has started. -/
def commit (p : Parser α) : Parser α :=
  fun c =>
    match p c with
    | .miss failure => .fatal failure
    | reply => reply

/-- Reads nothing where the parser misses. -/
def optional (p : Parser α) : Parser (Option α) :=
  fun c =>
    match p c with
    | .done value rest => .done (some value) rest
    | .miss _ => .done none c
    | .fatal failure => .fatal failure

/-- Reads as often as possible. -/
def many (p : Parser α) (c : Cursor) : Reply (List α) :=
  match p c with
  | .done value next =>
    if next.rest.length < c.rest.length then (many p next).map (value :: ·)
    else .miss (.leaf c.offset .unspecified)
  | .miss _ => .done [] c
  | .fatal failure => .fatal failure
termination_by c.rest.length

/-- Reads one or more times, with a separator between two values.  A separator that no value
follows is left unread. -/
def sepBy1 (separator : Parser β) (p : Parser α) : Parser (List α) := do
  let first ← p
  let others ← many do
    let _ ← separator
    p
  pure (first :: others)

/-- Reads one or more times, with a separator between two values, up to the end of the text. -/
def sepToEnd (separator : Parser β) (p : Parser α) (c : Cursor) : Reply (List α) :=
  match p c with
  | .done value next =>
    if next.atEnd then .done [value] next
    else
      match separator next with
      | .done _ following =>
        if following.rest.length < c.rest.length then
          (sepToEnd separator p following).map (value :: ·)
        else .miss (.leaf c.offset .unspecified)
      | .miss failure => .miss failure
      | .fatal failure => .fatal failure
  | .miss failure => .miss failure
  | .fatal failure => .fatal failure
termination_by c.rest.length

end Parser

/-! ## Where a value was read from -/

/-- A range of bytes, the end excluded. -/
structure Span where
  start : Nat
  stop : Nat
  deriving DecidableEq, Repr

/-- A value and the bytes it was read from. -/
structure Spanned (α : Type) where
  span : Span
  value : α
  deriving DecidableEq, Repr

/-- Notes the bytes that a value was read from. -/
def Parser.spanned {α : Type} (p : Parser α) : Parser (Spanned α) :=
  fun c =>
    match p c with
    | .done value rest => .done ⟨⟨c.offset, rest.offset⟩, value⟩ rest
    | .miss failure => .miss failure
    | .fatal failure => .fatal failure

end Estate.Parse
