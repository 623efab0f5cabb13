import Estate.Text.Alphanumeric

/-!
# Words, blanks and delimiters

The classes of characters that path texts and traversals are cut by.

* A *word* is a run of letters and numbers of any script, underscores, hyphens and dots.
* A *delimiter* has a meaning of its own in a path or a traversal.
* A *blank* is white space in the sense of the Unicode standard.
-/

namespace Estate.Text

/-- The characters a word is made of. -/
def isWordChar (c : Char) : Bool :=
  isAlphanumeric c || c == '_' || c == '-' || c == '.'

/-- The characters that path texts and traversals give a meaning. -/
def isDelimiter (c : Char) : Bool :=
  ['/', ';', '[', ']', '=', ',', '\\', '"'].contains c

/-- White space of the Unicode standard. -/
def isBlank (c : Char) : Bool :=
  inRanges [(0x9, 0xD), (0x20, 0x20), (0x85, 0x85), (0xA0, 0xA0), (0x1680, 0x1680),
    (0x2000, 0x200A), (0x2028, 0x2029), (0x202F, 0x202F), (0x205F, 0x205F), (0x3000, 0x3000)]
    c.toNat

/-- What the core library takes for white space is blank. -/
theorem isBlank_of_isWhitespace {c : Char} (h : c.isWhitespace = true) : isBlank c = true := by
  simp only [Char.isWhitespace, Bool.or_eq_true, decide_eq_true_eq] at h
  rcases h with ((rfl | rfl) | rfl) | rfl <;> decide

end Estate.Text
