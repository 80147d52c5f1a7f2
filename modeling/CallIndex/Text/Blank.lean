/-!
# Blank text

* `isBlankChar`: the characters with the Unicode property White_Space.
* `isBlank`: a text with nothing in it but such characters. A required field must not be blank.
-/

namespace CallIndex

/-- The characters of the Unicode property White_Space. There are 25 of them: tab to carriage
return, the space, the next-line mark, the no-break space and the wider spaces and separators. -/
def isBlankChar (c : Char) : Bool :=
  let n := c.toNat
  (0x09 ≤ n && n ≤ 0x0D) || n == 0x20 || n == 0x85 || n == 0xA0 || n == 0x1680 ||
    (0x2000 ≤ n && n ≤ 0x200A) || n == 0x2028 || n == 0x2029 || n == 0x202F || n == 0x205F ||
    n == 0x3000

/-- Empty, or white space only. -/
def isBlank (s : String) : Bool :=
  s.toList.all isBlankChar

end CallIndex
