import CalcLang.Text.CodePoints

/-!
# White space

The characters with the Unicode property `White_Space`: the blanks that separate tokens.
-/

namespace CalcLang.Text

/-- The inclusive ranges of code points that have the property `White_Space`. -/
def blankRanges : CodePoints :=
  [(0x09, 0x0D), (0x20, 0x20), (0x85, 0x85), (0xA0, 0xA0), (0x1680, 0x1680), (0x2000, 0x200A),
    (0x2028, 0x2029), (0x202F, 0x202F), (0x205F, 0x205F), (0x3000, 0x3000)]

/-- Whether a character is white space. -/
def isBlank (c : Char) : Bool := blankRanges.contains c

end CalcLang.Text
