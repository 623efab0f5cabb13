import Estate.Parse.Parser

/-!
# Tokens

The smallest things that paths and traversals are read from: single characters, whole words,
keywords, escaped texts and quoted texts.  In escaped and in quoted texts a backslash takes the
next character as it is, whatever it is.

* `word?` — the longest run of word characters; `keyword` accepts a run only as a whole.
* `escapedText` — everything up to an unescaped stop.
* `quotedText` — everything up to the closing quote.
* `stringLiteral` — the same for double quotes, by counting the bytes up to the closing quote.
-/

namespace Estate.Parse

open Estate.Text

/-- One given character. -/
def char (wanted : Char) : Parser Unit := fun c =>
  match c.rest with
  | [] => .miss (.leaf c.offset (.char wanted))
  | d :: rest =>
    if d = wanted then .done () ⟨c.offset + d.utf8Size, rest⟩
    else .miss (.leaf c.offset (.char wanted))

/-- The word at a place and what follows it, if a word stands there. -/
def word? (c : Cursor) : Option (String × Cursor) :=
  let word := c.rest.takeWhile isWordChar
  if word.isEmpty then none
  else some (String.ofList word, ⟨c.offset + byteLength word, c.rest.dropWhile isWordChar⟩)

/-- The failure of a keyword: each of the words would have been accepted. -/
def wantsAny (offset : Nat) : List String → Failure
  | [wanted] => .leaf offset (.text wanted)
  | words => .either (words.map fun wanted => .leaf offset (.text wanted))

/-- One of the given words, as a whole word. -/
def keyword (words : List String) : Parser String := fun c =>
  match word? c with
  | some (found, rest) =>
    if words.contains found then .done found rest else .miss (wantsAny c.offset words)
  | none => .miss (wantsAny c.offset words)

/-! ## Escapes -/

/-- The characters before the first unescaped stop, with escapes taken out, and the place of the
stop or of the end.  There is nothing when the text ends in a lone backslash. -/
def unescapeUntil (stops : Char → Bool) : Nat → List Char → Option (List Char × Cursor)
  | offset, [] => some ([], ⟨offset, []⟩)
  | _, ['\\'] => none
  | offset, '\\' :: c :: rest =>
    (unescapeUntil stops (offset + 1 + c.utf8Size) rest).map fun (cs, after) => (c :: cs, after)
  | offset, c :: rest =>
    if stops c then some ([], ⟨offset, c :: rest⟩)
    else (unescapeUntil stops (offset + c.utf8Size) rest).map fun (cs, after) => (c :: cs, after)

/-- One or more characters up to the first unescaped one of `stops`. -/
def escapedText (stops : List Char) (wanted : String) : Parser String := fun c =>
  match unescapeUntil stops.contains c.offset c.rest with
  | none => .fatal (.leaf c.finish (.text "escaped character"))
  | some ([], _) => .miss (.leaf c.offset (.text wanted))
  | some (cs, after) => .done (String.ofList cs) after

/-! ## Quotes -/

/-- The characters before the first unescaped quote, with escapes taken out, and the place after
that quote, if there is one. -/
def unescapeQuoted (quote : Char) : Nat → List Char → Option (List Char × Cursor)
  | _, [] => none
  | _, ['\\'] => none
  | offset, '\\' :: c :: rest =>
    (unescapeQuoted quote (offset + 1 + c.utf8Size) rest).map fun (cs, after) => (c :: cs, after)
  | offset, c :: rest =>
    if c = quote then some ([], ⟨offset + c.utf8Size, rest⟩)
    else (unescapeQuoted quote (offset + c.utf8Size) rest).map fun (cs, after) => (c :: cs, after)

/-- A text between two quotes.  An open quote that is never closed is fatal.  The texts `opening`
and `closing` name the quotes in reports. -/
def quotedText (quote : Char) (opening closing : String) : Parser String := fun c =>
  match c.rest with
  | [] => .miss (.leaf c.offset (.text opening))
  | d :: rest =>
    if d = quote then
      match unescapeQuoted quote (c.offset + d.utf8Size) rest with
      | some (cs, after) => .done (String.ofList cs) after
      | none => .fatal (.leaf c.finish (.text closing))
    else .miss (.leaf c.offset (.text opening))

/-- The characters before the first unescaped double quote, with escapes taken out, added to those
that were kept before; and the number of bytes up to the end of that quote, counted from `n`. -/
def scanString (kept : String) (n : Nat) : List Char → Option (String × Nat)
  | [] => none
  | ['\\'] => none
  | '\\' :: c :: rest => scanString (kept.push c) (n + 1 + c.utf8Size) rest
  | '"' :: _ => some (kept, n + 1)
  | c :: rest => scanString (kept.push c) (n + c.utf8Size) rest

/-- A text between two double quotes.  An open quote that is never closed is fatal.  What follows
the literal is what is left after its bytes. -/
def stringLiteral : Parser String := fun c =>
  match c.rest with
  | '"' :: rest =>
    match scanString "" 1 rest with
    | some (text, n) =>
      match dropBytes? c.rest n with
      | some after => .done text ⟨c.offset + n, after⟩
      | none => .fatal (.leaf c.offset .unspecified)
    | none => .fatal (.leaf c.finish (.text "\""))
  | _ => .miss (.leaf c.offset (.text "\""))

end Estate.Parse
