import CallIndex.Index.Basic

/-!
# Looking rows up

* `Index.projectByName?`, `Index.documentByPath?`, `Index.classByName?`, `Index.methodBySignature?`:
  rows by their unique text. Texts compare character by character.
* `Index.resolveCallee`: the method that a callee text names. The text may lack its parameter list,
  so each stored signature that starts with it is a candidate.
-/

namespace CallIndex.Index

variable (x : Index)

def projectByName? (name : String) : Option Project :=
  x.projects.find? fun p => p.name = name

def projectById? (id : RowId) : Option Project :=
  x.projects.find? fun p => p.id = id

def documentByPath? (path : String) : Option Document :=
  x.documents.find? fun d => d.path = path

def documentById? (id : RowId) : Option Document :=
  x.documents.find? fun d => d.id = id

def classByName? (name : String) : Option Class :=
  x.classes.find? fun c => c.name = name

def classById? (id : RowId) : Option Class :=
  x.classes.find? fun c => c.id = id

def methodBySignature? (signature : String) : Option Method :=
  x.methods.find? fun m => m.signature = signature

def methodById? (id : RowId) : Option Method :=
  x.methods.find? fun m => m.id = id

/-- The document that a method stands in: that of its class. -/
def documentOf? (m : Method) : Option Document :=
  (x.classById? m.classId).bind fun c => x.documentById? c.documentId

/-- The length of a text as the database measures it: a null character ends it. -/
def storedLength (text : List Char) : Nat :=
  (text.takeWhile fun c => c ≠ '\x00').length

/-- Whether a stored signature starts with a callee text. As many characters are compared as the
database counts in the callee, so a callee with a null character matches nothing. -/
def isCandidate (callee : String) (m : Method) : Bool :=
  m.signature.toList.take (storedLength callee.toList) = callee.toList

/-- The method with the least id. -/
def leastId : List Method → Option Method
  | [] => none
  | m :: rest =>
    match leastId rest with
    | none => some m
    | some other => if other.id < m.id then some other else some m

/-- The method that a callee text names: the one with exactly this signature, or else the first one
stored whose signature starts with it. -/
def resolveCallee (callee : String) : Option Method :=
  let candidates := x.methods.filter (isCandidate callee)
  (candidates.find? fun m => m.signature = callee) <|> leastId candidates

end CallIndex.Index
