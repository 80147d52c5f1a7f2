import CallIndex.Cli.Command

/-!
# Arguments

Arguments are switches and operands. A switch is written as `--long` or as a letter after a dash;
letters may be joined. A value follows its switch, or is joined to it. After `--` all arguments are
operands.

Some switches apply to every command. They may stand before the word of the command and after it;
one that stands at both places has the value given after the word. At one place a switch may be
given once, but for `-v`.

* `Cli.Stop`: why there is no request: wrong usage, or a question for help or for the version.
* `Cli.Reading.take`: one more argument. A value is checked when the next argument is taken, so a
  question that stands before a wrong argument is answered.
* `Cli.parse`: the request of a list of arguments.
-/

namespace CallIndex.Cli

/-- An argument with a name. -/
inductive Switch where
  | config
  | database
  | json
  | verbose
  | help
  | version
  | force
  | confirm
  | kind
  deriving DecidableEq, Repr

namespace Switch

/-- The name after two dashes. -/
def long : Switch → String
  | config => "config"
  | database => "db"
  | json => "json"
  | verbose => "verbose"
  | help => "help"
  | version => "version"
  | force => "force"
  | confirm => "yes"
  | kind => "kind"

/-- The letter after one dash. -/
def letter? : Switch → Option Char
  | config => some 'c'
  | verbose => some 'v'
  | help => some 'h'
  | version => some 'V'
  | kind => some 'k'
  | _ => none

/-- Whether a value follows. -/
def takesValue : Switch → Bool
  | config | database | kind => true
  | _ => false

/-- Whether a text can be the value. A path is never empty. -/
def accepts : Switch → String → Bool
  | config, s | database, s => s ≠ ""
  | kind, s => (promptKindOf? s).isSome
  | _, _ => true

/-- Whether it may be given several times at one place. -/
def repeats : Switch → Bool
  | verbose => true
  | _ => false

/-- The switches that apply everywhere. -/
def shared : List Switch := [config, database, json, verbose, help, version]

/-- The switches that are known before the word of a command, or after it. -/
def known : Option Verb → List Switch
  | some .init => shared ++ [force]
  | some .prompt => shared ++ [kind]
  | some .clear => shared ++ [confirm]
  | _ => shared

end Switch

/-- Why there is no request. -/
inductive Stop where
  | usage
  | help
  | version (verb : Option Verb)
  deriving DecidableEq, Repr

/-- A value that is not checked yet. -/
inductive Held where
  | value (of : Switch) (text : String)
  | operand (of : Operand) (text : String)
  deriving DecidableEq, Repr

/-- The arguments read so far at one place: before the word of a command, or after it. -/
structure Reading where
  /-- The switches with their values, newest first. One without a value has an empty text. -/
  given : List (Switch × String) := []
  /-- The operands, newest first. -/
  operands : List String := []
  /-- The last value, if it is not checked yet. -/
  held : Option Held := none
  /-- A switch that waits for its value. -/
  waiting : Option Switch := none
  /-- Whether all that follows are operands. -/
  operandsOnly : Bool := false
  deriving DecidableEq, Repr

namespace Reading

variable (r : Reading)

/-- Record a switch with its value. -/
def record (s : Switch) (text : String) : Except Stop Reading :=
  if ((r.given.lookup s).isSome && !s.repeats) || !s.accepts text then .error .usage
  else .ok { r with given := (s, text) :: r.given }

/-- Check the last value. -/
def settle : Except Stop Reading :=
  match r.held with
  | none => .ok r
  | some (.value s text) => record { r with held := none } s text
  | some (.operand o text) =>
    if o.accepts text then .ok { r with held := none, operands := text :: r.operands }
    else .error .usage

/-- The number of operands, checked or not. -/
def operandCount : Nat :=
  match r.held with
  | some (.operand _ _) => r.operands.length + 1
  | _ => r.operands.length

/-- Take an operand. Each one has its place in the list of the command. -/
def takeOperand (verb : Option Verb) (text : String) : Except Stop Reading :=
  match verb.bind fun v => v.operands[r.operandCount]? with
  | none => .error .usage
  | some o => do
    let r ← r.settle
    .ok { r with held := some (.operand o text) }

/-- Take a switch without a value. A question ends the reading. -/
def takeFlag (verb : Option Verb) (s : Switch) : Except Stop Reading := do
  let r ← r.settle
  match s with
  | .help => .error .help
  | .version => .error (.version verb)
  | s => r.record s ""

/-- Take a switch that is joined to its value. -/
def takeJoined (s : Switch) (text : List Char) : Except Stop Reading := do
  let r ← r.settle
  r.record s (String.ofList text)

/-- Take a switch whose value is the next argument. -/
def takeOpen (s : Switch) : Except Stop Reading := do
  let r ← r.settle
  .ok { r with waiting := some s }

/-- Take the letters after one dash. What follows a letter with a value is the value, after an
equals sign or not. -/
def takeLetters (verb : Option Verb) (r : Reading) : List Char → Except Stop Reading
  | [] => .ok r
  | c :: rest =>
    match (Switch.known verb).find? fun s => s.letter? = some c with
    | none => .error .usage
    | some s =>
      if s.takesValue then
        match rest with
        | [] => r.takeOpen s
        | '=' :: text => r.takeJoined s text
        | text => r.takeJoined s text
      else do takeLetters verb (← r.takeFlag verb s) rest

/-- The name and the value of what stands after two dashes. -/
def splitName (name : List Char) : List Char → List Char × Option (List Char)
  | [] => (name.reverse, none)
  | c :: rest => if c = '=' then (name.reverse, some rest) else splitName (c :: name) rest

/-- Take what stands after two dashes. -/
def takeLong (verb : Option Verb) (text : List Char) : Except Stop Reading :=
  let (name, value) := splitName [] text
  match (Switch.known verb).find? fun s => s.long.toList = name with
  | none => .error .usage
  | some s =>
    match s.takesValue, value with
    | true, some value => r.takeJoined s value
    | true, none => r.takeOpen s
    | false, some _ => .error .usage
    | false, none => r.takeFlag verb s

/-- Whether an argument is written as a switch. A single dash is not. -/
def isSwitch (a : String) : Bool :=
  match a.toList with
  | '-' :: _ :: _ => true
  | _ => false

/-- Take an argument. -/
def take (verb : Option Verb) (r : Reading) (a : String) : Except Stop Reading :=
  match r.waiting with
  | some s =>
    if isSwitch a then .error .usage
    else .ok { r with waiting := none, held := some (.value s a) }
  | none =>
    if r.operandsOnly then r.takeOperand verb a
    else
      match a.toList with
      | ['-', '-'] => .ok { r with operandsOnly := true }
      | '-' :: '-' :: text => r.takeLong verb text
      | '-' :: c :: text => r.takeLetters verb (c :: text)
      | _ => r.takeOperand verb a

/-- End the reading: no value may be missing, and the last one is checked. -/
def finish : Except Stop Reading :=
  match r.waiting with
  | some _ => .error .usage
  | none => r.settle

/-- Whether the next argument may be the word of a command. -/
def expectsWord : Bool := r.waiting.isNone && !r.operandsOnly

/-- Whether a switch was given. -/
def has (s : Switch) : Bool := (r.given.lookup s).isSome

end Reading

/-- The word that asks for help. -/
def helpWord : String := "help"

/-- What the word for help with further words ends in. Each command has a help of its own, and so
has the word for help. -/
def helpOn : List String → Stop
  | [] => .help
  | [word] => if (Verb.ofWord? word).isSome || word = helpWord then .help else .usage
  | _ => .usage

/-- Read up to the word of a command: what was read, the command, and the arguments after it. -/
def readShared (r : Reading) : List String → Except Stop (Reading × Verb × List String)
  | [] => .error .usage
  | a :: rest =>
    match if r.expectsWord then Verb.ofWord? a else none with
    | some verb => .ok (r, verb, rest)
    | none =>
      if r.expectsWord && a = helpWord then .error (helpOn rest)
      else do readShared (← r.take none a) rest

/-- The command of a word with its operands and its own switches. -/
def commandOf? (own : Reading) : Verb → List String → Option Command
  | .init, [] => some (.init (own.has .force))
  | .ingest, [file] => some (.ingest file)
  | .callees, [id] => (idOf? id).map fun id => .ask (.callees id)
  | .callers, [id] => (idOf? id).map fun id => .ask (.callers id)
  | .graph, [] => some (.ask .graph)
  | .method, [signature, document] => some (.ask (.method signature document))
  | .detail, [id] => (idOf? id).map fun id => .ask (.detail id)
  | .context, [signature, document] => some (.ask (.context signature document))
  | .related, [signature, document] => some (.ask (.related signature document))
  | .prompt, [signature, document] => do
    let kind ← promptKindOf? ((own.given.lookup .kind).getD "docstring")
    some (.ask (.prompt kind signature document))
  | .list, [table] => (tableOf? table).map fun table => .ask (.list table)
  | .stats, [] => some (.ask .stats)
  | .clear, [] => some (.clear (own.has .confirm))
  | _, _ => none

/-- Read the arguments after the word of a command. -/
def readOwn (verb : Verb) (args : List String) : Except Stop Reading := do
  let r ← args.foldlM (Reading.take (some verb)) {}
  r.finish

/-- The request of a list of arguments. -/
def parse (args : List String) : Except Stop Request := do
  let (before, verb, rest) ← readShared {} args
  let after ← readOwn verb rest
  match commandOf? after verb after.operands.reverse with
  | none => .error .usage
  | some command =>
    let before ← before.finish
    let value (s : Switch) : Option String := after.given.lookup s <|> before.given.lookup s
    .ok ⟨value .config, value .database, (value .json).isSome, command⟩

end CallIndex.Cli
