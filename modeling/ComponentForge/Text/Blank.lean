import ComponentForge.Text.Basic

/-!
# White space

A character is blank when it has the Unicode property White_Space. Zero-width spaces and the byte
order mark are not blank.
-/

namespace ComponentForge

def isBlank (c : Char) : Bool :=
  let n := c.toNat
  (0x09 ≤ n && n ≤ 0x0D) || n == 0x20 || n == 0x85 || n == 0xA0 || n == 0x1680 ||
    (0x2000 ≤ n && n ≤ 0x200A) || n == 0x2028 || n == 0x2029 || n == 0x202F || n == 0x205F ||
    n == 0x3000

namespace Text

def trimEnd (text : Text) : Text :=
  (splitEnd isBlank text).1

def trim (text : Text) : Text :=
  trimEnd (text.dropWhile isBlank)

end Text

end ComponentForge
