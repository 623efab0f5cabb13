import Std.Data.ExtTreeSet
import Estate.Text.Bytes
import Estate.Text.Word

/-!
# Why a text could not be read

A reader that fails leaves a tree of failures: leaves say what was expected at which byte, an
alternative joins the failures of its branches, and a context names what was being read.  Of such a
tree a person is shown one `Report`: **the furthest failure wins**, with everything that would
have been accepted there, and with the token that stands there instead.

* `Failure.leaves` — the failures of a tree from left to right, each with its innermost context.
* `Failure.furthest` — the greatest offset of any leaf.
* `Failure.report` — the report of a tree on a source text.
* `Errors` — reports together with the text they are about, and their wording.
-/

namespace Estate.Parse

open Estate.Text

/-- What a reader would have accepted. -/
inductive Expectation
  | text (wanted : String)
  | char (wanted : Char)
  | endOfInput
  | foreign (message : String)
  | unspecified
  deriving DecidableEq, Repr

/-- How an expectation is listed in a report; an unspecified one is not. -/
def Expectation.describe? : Expectation → Option String
  | text wanted => some wanted
  | char wanted => some wanted.toString
  | endOfInput => some "end of input"
  | foreign message => some message
  | unspecified => none

/-- A tree of failures.  The contexts of a `within` are listed from the inside out; those without a
name only record which combinator was at work. -/
inductive Failure
  | leaf (offset : Nat) (expected : Expectation)
  | either (branches : List Failure)
  | within (inner : Failure) (contexts : List (Option String))
  deriving Repr

/-- One failure of a tree. -/
structure Leaf where
  offset : Nat
  expected : Option String
  context : Option String
  deriving DecidableEq, Repr

namespace Failure

mutual

/-- The leaves of a tree from left to right, below the context that surrounds it. -/
def leavesIn (context : Option String) : Failure → List Leaf
  | leaf offset expected => [⟨offset, expected.describe?, context⟩]
  | either branches => leavesInAll context branches
  | within inner contexts => leavesIn (contexts.findSome? id <|> context) inner

/-- The leaves of a list of trees from left to right. -/
def leavesInAll (context : Option String) : List Failure → List Leaf
  | [] => []
  | f :: fs => leavesIn context f ++ leavesInAll context fs

end

/-- The leaves of a tree from left to right. -/
def leaves (f : Failure) : List Leaf :=
  f.leavesIn none

/-- The greatest offset at which something failed. -/
def furthest (f : Failure) : Nat :=
  f.leaves.foldl (fun offset l => max offset l.offset) 0

/-- The leaves at the greatest offset. -/
def furthestLeaves (f : Failure) : List Leaf :=
  f.leaves.filter fun l => l.offset == f.furthest

/-- What would have been accepted at the greatest offset, sorted and without repetition. -/
def expected (f : Failure) : List String :=
  (Std.ExtTreeSet.ofList (f.furthestLeaves.filterMap (·.expected)) compare).toList

/-- What was being read: the first context named at the greatest offset. -/
def context? (f : Failure) : Option String :=
  f.furthestLeaves.findSome? (·.context)

end Failure

/-! ## Reports -/

/-- The word, or the single delimiter or blank, at the head of a text. -/
def headToken : List Char → List Char
  | [] => []
  | c :: cs =>
    if isDelimiter c || isBlank c then [c]
    else c :: cs.takeWhile fun d => !(isDelimiter d || isBlank d)

/-- The token found at a byte offset of a text.  Beyond the end, and inside a character, the input
counts as finished. -/
def tokenAt (source : String) (offset : Nat) : String :=
  match dropBytes? source.toList offset with
  | none => "end of input"
  | some [] => "end of input"
  | some rest => String.ofList (headToken rest)

/-- A located complaint about a text. -/
structure Report where
  message : String
  offset : Nat
  token : String
  expected : List String := []
  deriving DecidableEq, Repr

/-- What was found, and what would have been accepted. -/
def Report.label (r : Report) : String :=
  if r.expected.isEmpty then "found '" ++ r.token ++ "'"
  else "found '" ++ r.token ++ "' but expected " ++ " | ".intercalate r.expected

/-- A report in words. -/
def Report.text (r : Report) : String :=
  r.message ++ " at offset " ++ toString r.offset ++ " (" ++ r.label ++ ")"

/-- The report of a tree of failures on the text that was read. -/
def Failure.report (f : Failure) (source : String) : Report where
  message :=
    match f.context? with
    | some context => "could not parse " ++ context
    | none => "unexpected input"
  offset := f.furthest
  token := tokenAt source f.furthest
  expected := f.expected

/-- A text and what is wrong with it. -/
structure Errors where
  source : String := ""
  reports : List Report := []
  deriving DecidableEq, Repr

namespace Errors

/-- The complaint that a tree of failures amounts to. -/
def ofFailure (source : String) (f : Failure) : Errors :=
  ⟨source, [f.report source]⟩

/-- The complaint in words. -/
def message (e : Errors) : String :=
  if e.reports.isEmpty then "could not parse '" ++ e.source ++ "'"
  else
    "could not parse '" ++ e.source ++ "': " ++ "; ".intercalate (e.reports.map Report.text)

/-- Joins complaints: all reports in order, about the first text that is not empty. -/
def join (es : List Errors) : Errors where
  source := ((es.map source).find? fun s => !s.isEmpty).getD ""
  reports := es.flatMap reports

end Errors

end Estate.Parse
