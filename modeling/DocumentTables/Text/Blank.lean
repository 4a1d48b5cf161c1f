/-!
# Blank text

White space at the ends of a text carries no meaning in settings and in cache files.  This module
fixes which characters count as white space and how a text is trimmed.
-/

namespace DocumentTables
namespace Text

/-- The characters with the Unicode property `White_Space`. -/
def isBlank (c : Char) : Bool :=
  let n := c.toNat
  (0x09 ≤ n && n ≤ 0x0D) || n == 0x20 || n == 0x85 || n == 0xA0 || n == 0x1680
    || (0x2000 ≤ n && n ≤ 0x200A) || n == 0x2028 || n == 0x2029 || n == 0x202F
    || n == 0x205F || n == 0x3000

/-- The characters left when white space is dropped from both ends. -/
def trimChars (cs : List Char) : List Char :=
  ((cs.dropWhile isBlank).reverse.dropWhile isBlank).reverse

/-- A text that holds white space only, or nothing at all. -/
def allBlank (s : String) : Bool :=
  s.toList.all isBlank

end Text
end DocumentTables
