/-!
# Blank text

The characters that count as blank space, and the texts that hold nothing else.
-/

namespace CallSchema
namespace Text

/-- The blank characters, as closed ranges of code points: white space of Unicode together with
the four ASCII information separators. -/
def blankRanges : List (Nat × Nat) := [
    (0x09, 0x0d), (0x1c, 0x20), (0x85, 0x85), (0xa0, 0xa0), (0x1680, 0x1680), (0x2000, 0x200a),
    (0x2028, 0x2029), (0x202f, 0x202f), (0x205f, 0x205f), (0x3000, 0x3000)]

/-- A character is blank when one of the ranges holds it. -/
def isBlankChar (c : Char) : Bool :=
  blankRanges.any fun range => range.1 ≤ c.toNat && c.toNat ≤ range.2

/-- A text is blank when every character in it is; the empty text is. -/
def isBlank (text : String) : Bool :=
  text.toList.all isBlankChar

end Text
end CallSchema
