/-!
# Splitting a text

* `splitAt`: the pieces of a text between separators.
-/

namespace CallIndex

/-- The pieces between separators, some of them empty; `piece` holds what was read of the current
one, newest first. -/
def splitFrom (separator : Char) (piece : List Char) : List Char → List (List Char)
  | [] => [piece.reverse]
  | c :: rest =>
    if c = separator then piece.reverse :: splitFrom separator [] rest
    else splitFrom separator (c :: piece) rest

/-- The pieces of a text between separators. There is one more piece than there are separators. -/
def splitAt (separator : Char) (text : List Char) : List (List Char) := splitFrom separator [] text

end CallIndex
