import RuleSheet.Text.Stretch

/-!
# Blanks

The characters with the White_Space property: the ASCII blanks and line breaks,
the next-line and no-break characters, and the spaces and separators of the
general punctuation and ideographic blocks. The zero-width characters are not
blanks. A text is trimmed at both ends and kept as it is in the middle.
-/
namespace RuleSheet.Text

def blankStretches : List Stretch :=
  [⟨0x9, 0xd, 1⟩, ⟨0x20, 0x20, 1⟩, ⟨0x85, 0x85, 1⟩, ⟨0xa0, 0xa0, 1⟩, ⟨0x1680, 0x1680, 1⟩,
   ⟨0x2000, 0x200a, 1⟩, ⟨0x2028, 0x2029, 1⟩, ⟨0x202f, 0x202f, 1⟩, ⟨0x205f, 0x205f, 1⟩,
   ⟨0x3000, 0x3000, 1⟩]

def isBlank (c : Char) : Bool :=
  Stretch.covers blankStretches c.toNat

def trimLeft (cs : List Char) : List Char :=
  cs.dropWhile isBlank

def trimRight (cs : List Char) : List Char :=
  (cs.reverse.dropWhile isBlank).reverse

/-- The text without the blanks at its two ends. -/
def trim (cs : List Char) : List Char :=
  trimRight (trimLeft cs)

/-- The text without any blank. -/
def dropBlanks (cs : List Char) : List Char :=
  cs.filter fun c => !isBlank c

@[simp] theorem dropBlanks_append (a b : List Char) :
    dropBlanks (a ++ b) = dropBlanks a ++ dropBlanks b := by
  simp [dropBlanks]

end RuleSheet.Text
