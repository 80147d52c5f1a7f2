/-!
# Lines of a text

* `lines`: the lines of a text as a listing shows them. A line ends with a line feed, or with a
  carriage return and a line feed; an unended last line keeps all its characters.
-/

namespace CallIndex

/-- Drop one carriage return at the end of a finished line. -/
def dropReturn (line : List Char) : List Char :=
  if line.getLast? = some '\r' then line.dropLast else line

/-- The lines of a text; `line` holds the characters already read of the current one, newest
first. -/
def linesFrom (line : List Char) : List Char → List (List Char)
  | [] => if line.isEmpty then [] else [line.reverse]
  | c :: rest =>
    if c = '\n' then dropReturn line.reverse :: linesFrom [] rest else linesFrom (c :: line) rest

/-- The lines of a text, without their endings. -/
def lines (text : String) : List String :=
  (linesFrom [] text.toList).map String.ofList

end CallIndex
