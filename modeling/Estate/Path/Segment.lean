import Estate.Kind

/-!
# Segments of paths

A segment is a kind with an id, written `code;id`.  Ids are free text: the three characters that
mean something in a path (`\`, `/`, `;`) are written with a backslash before them, so that
`unescape_escape` recovers every id.
-/

namespace Estate

/-- A kind and an id. -/
structure Segment where
  kind : Kind
  id : String
  deriving DecidableEq, Repr, Inhabited

namespace Segment

/-- Whether a character of an id is written with a backslash before it. -/
def isSpecial (c : Char) : Bool :=
  c == '\\' || c == '/' || c == ';'

/-- An id as it is written in a path. -/
def escapeChars : List Char → List Char
  | [] => []
  | c :: cs => if isSpecial c then '\\' :: c :: escapeChars cs else c :: escapeChars cs

/-- Takes backslashes out again: each one leaves the character that follows it. -/
def unescapeChars : List Char → List Char
  | '\\' :: c :: cs => c :: unescapeChars cs
  | c :: cs => c :: unescapeChars cs
  | [] => []

theorem unescape_escape (cs : List Char) : unescapeChars (escapeChars cs) = cs := by
  induction cs with
  | nil => rfl
  | cons c cs ih =>
    by_cases h : isSpecial c = true
    · simp [escapeChars, h, unescapeChars, ih]
    · have hc : c ≠ '\\' := by
        rintro rfl
        exact h (by decide)
      simp only [escapeChars, h]
      rw [if_neg (by simp), unescapeChars.eq_2 _ _ (by rintro _ _ rfl; exact (hc rfl).elim)]
      rw [ih]

/-- An id as it is written in a path. -/
def escapeId (id : String) : String :=
  String.ofList (escapeChars id.toList)

/-- A segment as it is written in a path. -/
def text (s : Segment) : String :=
  s.kind.code ++ ";" ++ escapeId s.id

/-- Segments are sorted by kind, then by id. -/
def order (a b : Segment) : Ordering :=
  (compare a.kind.rank b.kind.rank).then (compare a.id b.id)

end Segment

end Estate
