/-!
# Ids for relationships

New relationships need ids that nothing has yet.  They are drawn from a supply in order, and an id
that has been drawn is not drawn again, even if what it was drawn for has come to nothing.
-/

namespace Estate

/-- A sequence of ids and how many of them have been drawn. -/
structure Supply where
  name : Nat → String
  drawn : Nat := 0

namespace Supply

/-- The next id, and the supply without it. -/
def draw (s : Supply) : String × Supply :=
  (s.name s.drawn, { s with drawn := s.drawn + 1 })

/-- What the ids of `Supply.counting` have in common. -/
def stem : String :=
  "00000000-0000-4000-8000-"

/-- The id of a number: twelve hexadecimal digits, or more if they are needed. -/
def counted (n : Nat) : String :=
  let digits := Nat.toDigits 16 n
  stem ++ String.ofList (List.replicate (12 - digits.length) '0' ++ digits)

/-- The ids of the numbers from one on. -/
def counting : Supply where
  name n := counted (n + 1)

end Supply

end Estate
