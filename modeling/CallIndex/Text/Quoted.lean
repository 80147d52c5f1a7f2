import CallIndex.Text.Hidden

/-!
# Quoted texts in messages

* `quotedChar`: how a character is written between quotes. A quote and a backslash have a backslash
  in front, and a character that shows nothing is written by its number.
* `quoted`: a text between quotes.
-/

namespace CallIndex

/-- The number of a character in lower case hexadecimal digits. -/
def hexText (n : Nat) : String := String.ofList (Nat.toDigits 16 n)

/-- A character between quotes. -/
def quotedChar (c : Char) : String :=
  if c = '\x00' then "\\0"
  else if c = '\t' then "\\t"
  else if c = '\n' then "\\n"
  else if c = '\r' then "\\r"
  else if c = '"' then "\\\""
  else if c = '\\' then "\\\\"
  else if isHiddenChar c then "\\u\x7b" ++ hexText c.toNat ++ "\x7d"
  else c.toString

/-- A text between quotes. -/
def quoted (s : String) : String :=
  "\"" ++ String.join (s.toList.map quotedChar) ++ "\""

end CallIndex
