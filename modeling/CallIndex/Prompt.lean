import CallIndex.Context

/-!
# Prompts

A prompt is a pair of texts for a language model: its instructions, and a method with its context.

* `Prompt.docstring`, `Prompt.explain`: about a method and the methods that it calls. The user text
  is the method alone when no source was collected.
* `Prompt.related`: about a method and the methods that call it.
* `CallGraph.prompt`: assemble the context and make the prompt of a kind.
-/

namespace CallIndex

/-- Instructions and question. -/
structure Prompt where
  system : String
  user : String
  deriving DecidableEq, Repr

/-- What is asked about a method. -/
inductive PromptKind where
  /-- A documentation comment. -/
  | docstring
  /-- A plain explanation. -/
  | explain
  /-- Where the method is used. -/
  | related
  deriving DecidableEq, Repr

namespace Prompt

def docstringSystem : String :=
  "You document C# methods. Write an XML documentation comment for the method " ++
  "you are given, accurate enough that a newcomer could safely modify it. " ++
  "Output only the comment."

def explainSystem : String :=
  "You explain C# code. Describe what the given method does, step by step, " ++
  "for a developer who has not seen the codebase before."

def relatedSystem : String :=
  "You explain how a C# method is used. Given the method and the methods that " ++
  "call it, summarise each call site and what it relies on."

/-- What stands between a method and the sources of the methods that it calls. -/
def usesHeading : String := "\n\nMethods it uses:\n"

/-- What stands between a method and its callers. -/
def calledFromHeading : String := "\n\nIt is called from:"

/-- What follows a method that nothing calls. -/
def noCallers : String := "\n\nNo other indexed method calls this method."

/-- A method with the methods that it calls. -/
def usageText (c : UsageContext) : String :=
  if c.hasUsedMethods then c.method.method ++ usesHeading ++ c.auxiliary else c.method.method

/-- A caller under the path of its document. -/
def callerText (u : RelatedUsage) : String :=
  "\n\n// " ++ u.documentPath ++ "\n" ++ u.methodBody

/-- A method with the methods that call it. -/
def relatedText (c : RelatedContext) : String :=
  if c.related.isEmpty then c.method.method ++ noCallers
  else c.method.method ++ calledFromHeading ++ String.join (c.related.map callerText)

def docstring (c : UsageContext) : Prompt := ⟨docstringSystem, usageText c⟩

def explain (c : UsageContext) : Prompt := ⟨explainSystem, usageText c⟩

def related (c : RelatedContext) : Prompt := ⟨relatedSystem, relatedText c⟩

end Prompt

/-- The prompt of a kind about a method. -/
def CallGraph.prompt (g : CallGraph) (kind : PromptKind) (signature document : String) :
    Except Error Prompt :=
  match kind with
  | .docstring => (g.usage signature document).map Prompt.docstring
  | .explain => (g.usage signature document).map Prompt.explain
  | .related => (g.related signature document).map Prompt.related

open Json

instance : Encode Prompt where
  encode p := .object [("system", .string p.system), ("user", .string p.user)]

end CallIndex
