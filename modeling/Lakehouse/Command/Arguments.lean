import Lakehouse.Command

namespace Lakehouse

inductive Flag where
  | verbose
  | json
  | stdout
  | check
  | help
  | version
  deriving DecidableEq, Repr

namespace Flag

def word : Flag → String
  | verbose => "verbose"
  | json => "json"
  | stdout => "stdout"
  | check => "check"
  | help => "help"
  | version => "version"

def letter? : Flag → Option Char
  | verbose => some 'v'
  | help => some 'h'
  | version => some 'V'
  | _ => none

-- Whether nothing behind the flag counts.
def ends : Flag → Bool
  | help | version => true
  | _ => false

end Flag

-- An option that takes a value.
inductive Parameter where
  | file
  | backend
  | directory
  deriving DecidableEq, Repr

namespace Parameter

def word : Parameter → String
  | file => "file"
  | backend => "backend"
  | directory => "out-dir"

def letter : Parameter → Char
  | file => 'f'
  | backend => 'b'
  | directory => 'o'

end Parameter

inductive Argument where
  | flag (f : Flag)
  | parameter (p : Parameter) (value : String)
  | operand (s : String)
  deriving DecidableEq, Repr

namespace Argument

def ends : Argument → Bool
  | flag f => f.ends
  | _ => false

def parameter? (p : Parameter) : Argument → Option String
  | parameter q value => if q = p then some value else none
  | _ => none

def operand? : Argument → Option String
  | operand s => some s
  | _ => none

-- The option of an argument, which may come once only.
def option? : Argument → Option (Flag ⊕ Parameter)
  | flag f => some (.inl f)
  | parameter p _ => some (.inr p)
  | operand _ => none

end Argument

-- What a command understands.
structure Form where
  flags : List Flag
  parameters : List Parameter
  deriving Repr

namespace Form

def flag? (form : Form) (c : Char) : Option Flag := form.flags.find? (·.letter? == some c)

def parameter? (form : Form) (c : Char) : Option Parameter := form.parameters.find? (·.letter == c)

-- What one argument says, and the parameter that the next one gives a value.
abbrev Part := List Argument × Option Parameter

def value? (p : Parameter) (cs : List Char) : Option Part :=
  if cs.isEmpty then none else some ([.parameter p (String.ofList cs)], none)

-- Letters behind a single hyphen: flags, and a parameter with its value.
def letters? (form : Form) : List Char → Option Part
  | [] => some ([], none)
  | c :: rest =>
    match form.flag? c, form.parameter? c with
    | some f, _ =>
      if f.ends then some ([.flag f], none)
      else (form.letters? rest).map fun (found, pending) => (.flag f :: found, pending)
    | none, some p =>
      match rest with
      | [] => some ([], some p)
      | '=' :: value => value? p value
      | value => value? p value
    | none, none => none

-- A word behind two hyphens, with its value behind an equals sign.
def word? (form : Form) (cs : List Char) : Option Part :=
  let word := String.ofList (cs.takeWhile (· != '='))
  let value := cs.dropWhile (· != '=')
  match form.flags.find? (·.word == word), form.parameters.find? (·.word == word) with
  | some f, _ => if value.isEmpty then some ([.flag f], none) else none
  | none, some p => if value.isEmpty then some ([], some p) else value? p value.tail
  | none, none => none

def isOption (s : String) : Bool :=
  match s.toList with
  | '-' :: _ :: _ => true
  | _ => false

def part? (form : Form) (s : String) : Option Part :=
  match s.toList with
  | '-' :: '-' :: word => form.word? word
  | '-' :: c :: rest => form.letters? (c :: rest)
  | _ => some ([.operand s], none)

-- Reads arguments up to a flag that ends them. Behind two hyphens everything is an operand.
def read? (form : Form) (pending : Option Parameter) : List String → Option (List Argument)
  | [] => if pending.isSome then none else some []
  | s :: rest =>
    match pending with
    | some p =>
      if s.isEmpty || isOption s then none
      else (form.read? none rest).map (.parameter p s :: ·)
    | none =>
      if s == "--" then some (rest.map .operand)
      else match form.part? s with
        | none => none
        | some (found, pending) =>
          if found.any Argument.ends then some found
          else (form.read? pending rest).map (found ++ ·)

def hasRepetition (args : List Argument) : Bool := !decide (args.filterMap Argument.option?).Nodup

-- The arguments of a command; an option may come once only.
def arguments? (form : Form) (args : List String) : Option (List Argument) := do
  let found ← form.read? none args
  if hasRepetition found then none else some found

end Form

inductive Invocation where
  | run (c : Command)
  | help
  | version
  deriving DecidableEq, Repr

namespace Invocation

def mainForm : Form := ⟨[.verbose, .help, .version], []⟩

def initForm : Form := ⟨[.verbose, .help], []⟩
def validateForm : Form := ⟨[.verbose, .help], [.file]⟩
def graphForm : Form := ⟨[.verbose, .help, .json], [.file]⟩
def emitForm : Form := ⟨[.verbose, .help, .stdout, .check], [.file, .backend, .directory]⟩

def defaultFile : String := "stack.yaml"
def defaultDirectory : String := "."

def parameter (args : List Argument) (p : Parameter) (absent : String) : String :=
  ((args.filterMap (·.parameter? p)).head?).getD absent

def operands (args : List Argument) : List String := args.filterMap Argument.operand?

def has (args : List Argument) (f : Flag) : Bool := args.contains (.flag f)

def backend? (args : List Argument) : Option Backend :=
  let word := parameter args .backend Backend.pulumi.word
  Backend.all.find? (·.word == word)

def init? (args : List Argument) : Option Command :=
  match operands args with
  | [] => some (.init defaultDirectory)
  | [directory] => if directory.isEmpty then none else some (.init directory)
  | _ => none

def withoutOperands? (args : List Argument) (c : Command) : Option Command :=
  if (operands args).isEmpty then some c else none

def emit? (args : List Argument) : Option Command := do
  let backend ← backend? args
  withoutOperands? args <| .emit {
    file := parameter args .file defaultFile
    backend
    directory := parameter args .directory defaultDirectory
    toOutput := has args .stdout
    check := has args .check }

-- A command of a form, unless help is asked for. What stands in front of that has to be sound too.
def withForm? (form : Form) (args : List String) (command? : List Argument → Option Command) :
    Option Invocation := do
  let found ← form.arguments? args
  let command ← command? found
  return if has found .help then .help else .run command

def commandWords : List String := ["init", "validate", "graph", "emit", "help"]

-- Help is on the program, or on one command.
def help? : List String → Option Invocation
  | [] => some .help
  | [word] => if commandWords.contains word then some .help else none
  | _ => none

def command? (word : String) (args : List String) : Option Invocation :=
  match word with
  | "init" => withForm? initForm args init?
  | "validate" =>
    withForm? validateForm args fun found =>
      withoutOperands? found (.validate (parameter found .file defaultFile))
  | "graph" =>
    withForm? graphForm args fun found =>
      withoutOperands? found (.graph (parameter found .file defaultFile) (has found .json))
  | "emit" => withForm? emitForm args emit?
  | "help" => help? args
  | _ => none

-- What a command line asks for. Options for all commands may stand in front of the command.
def ofArguments? (args : List String) : Option Invocation := do
  let options := args.takeWhile Form.isOption
  let found ← mainForm.arguments? options
  if has found .help then return .help
  if has found .version then return .version
  if options.contains "--" then none
  match args.dropWhile Form.isOption with
  | word :: rest => command? word rest
  | [] => none

end Invocation

end Lakehouse
