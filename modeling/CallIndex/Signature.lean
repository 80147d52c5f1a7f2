/-!
# Signatures

A signature such as `int P.C.Add(int a, int b)` names a method by an optional return type, the
class that owns it and its own name with its parameters.

* `Signature.splitFrom`: the scan, with the bracket depth, the word read so far and the split at
  its last dot.
* `splitSignature`: the class part and the name part, split at the last dot of the last word that
  stands outside all brackets.
-/

namespace CallIndex

namespace Signature

/-- The brackets that enclose type arguments, array ranks and parameters. -/
def isOpener (c : Char) : Bool := c == '<' || c == '[' || c == '('

/-- The brackets that close them. -/
def isCloser (c : Char) : Bool := c == '>' || c == ']' || c == ')'

/-- Scan the rest of a signature. `word` holds the current word, newest character first, and `cut`
the split at its last dot: what stands before the dot, and all that follows it. A space outside
brackets starts a new word; so a return type is left behind. A round bracket that follows a
character of the word opens the parameter list and ends the scan; one at the start of a word opens a
tuple type. A closer without an opener is ignored. -/
def splitFrom (depth : Nat) (word : List Char) (cut : Option (List Char × List Char)) :
    List Char → Option (List Char × List Char)
  | [] => cut
  | c :: rest =>
    if c = '(' ∧ depth = 0 ∧ word ≠ [] then cut
    else if isOpener c then splitFrom (depth + 1) (c :: word) cut rest
    else if isCloser c then splitFrom (depth - 1) (c :: word) cut rest
    else if c = ' ' ∧ depth = 0 then splitFrom depth [] none rest
    else if c = '.' ∧ depth = 0 then splitFrom depth (c :: word) (some (word.reverse, rest)) rest
    else splitFrom depth (c :: word) cut rest

/-- The two parts as character lists; neither is empty. -/
def splitChars (signature : List Char) : Option (List Char × List Char) :=
  (splitFrom 0 [] none signature).filter fun (owner, name) => !owner.isEmpty && !name.isEmpty

/-- The parts of a signature: the class that owns the method, and the method's own name with its
parameters. -/
structure Parts where
  owner : String
  name : String
  deriving DecidableEq, Repr

end Signature

/-- Split a signature into its class and its name. There is no answer when one of them is
missing. -/
def splitSignature (signature : String) : Option Signature.Parts :=
  (Signature.splitChars signature.toList).map fun (owner, name) =>
    ⟨String.ofList owner, String.ofList name⟩

end CallIndex
