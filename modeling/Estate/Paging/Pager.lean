import Estate.Paging.Order

/-!
# Pages of a listing

A pager asks for one page of a sorted listing; without a size, page 0 is the whole listing.  Sizes
and positions are 64-bit words.  Positions that would not fit a word are clipped to its largest
value, which no listing reaches.

* `Pager.window` — where the page begins and ends in a listing.
* `Pager.lastPageIndex` — the index of the last page that is not empty.
* `Pager.clamped` — no page holds more than the limit, and none holds nothing.
-/

namespace Estate

/-- Which page of a listing, and in what order the listing is. -/
structure Pager where
  pageIndex : UInt64 := 0
  pageSize : Option UInt64 := none
  order : List SortField := []
  deriving DecidableEq, Repr

namespace Pager

/-- The first page of a size. -/
def first (size : UInt64) : Pager where
  pageSize := some size

/-- Whether the listing is divided into pages at all. -/
def isLimited (p : Pager) : Bool :=
  p.pageSize.isSome

/-- The pager of the page after this one, unless its index would not fit a word. -/
def next? (p : Pager) : Option Pager :=
  if p.pageIndex.toNat + 1 < UInt64.size then some { p with pageIndex := p.pageIndex + 1 }
  else none

/-- The pager with a size of at least one and at most `limit`.  A limit of zero counts as one. -/
def clamped (p : Pager) (limit : UInt64) : Pager :=
  { p with pageSize := p.pageSize.map fun size => max 1 (min size (max limit 1)) }

/-- The position of the first element of the page. -/
def start (p : Pager) : UInt64 :=
  match p.pageSize with
  | none => 0
  | some size => .ofNatClamp (p.pageIndex.toNat * size.toNat)

/-- The positions at which the page begins and ends in a listing of `total` elements. -/
def window (p : Pager) (total : Nat) : Nat × Nat :=
  match p.pageSize with
  | none => if p.pageIndex = 0 then (0, total) else (total, total)
  | some size =>
    let start := min p.start.toNat total
    (start, min (start + size.toNat) total)

/-- The index of the last page of a listing of `total` elements. -/
def lastPageIndex (p : Pager) (total : Nat) : Nat :=
  match p.pageSize with
  | none => 0
  | some size => if 0 < total ∧ 0 < size then (total - 1) / size.toNat else 0

/-- The part of a listing that is on the page. -/
def slice {α : Type} (p : Pager) (listing : List α) : List α :=
  let (start, stop) := p.window listing.length
  listing.extract start stop

end Pager

/-- A page of a listing. -/
structure Page (α : Type) where
  items : List α
  pager : Pager
  /-- How many elements the listing has. -/
  total : Nat

/-- Whether no page comes after this one. -/
def Page.isLast {α : Type} (p : Page α) : Bool :=
  decide (p.pager.lastPageIndex p.total ≤ p.pager.pageIndex.toNat)

end Estate
