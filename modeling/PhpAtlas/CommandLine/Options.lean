import PhpAtlas.Text.Basic

/-!
# Arguments of the command line

A command is named by the first argument that is no option.  The option `--include` may stand
anywhere; behind the command it takes the place of what was given before.  Behind `--` every
argument is taken as it stands.

## Main definitions

* `Command`, `Invocation` — what is asked for.
* `Refusal` — why nothing is run.
* `Invocation.parse` — the invocation that arguments stand for.
-/

namespace PhpAtlas

/-- What is asked for. -/
inductive Command
  | index (paths : List String) (prune : Bool)
  | deduce (file : String) (offset : Nat) (expression : String)
  | resolve (file : String) (name : String)
  | lint (file : String)
  deriving DecidableEq, Repr

/-- A command with the paths to index in front of it. -/
structure Invocation where
  includes : List String
  command : Command
  deriving DecidableEq, Repr

/-- Why nothing is run. -/
inductive Refusal
  /-- The arguments are not as they should be. -/
  | usage
  /-- Only help or the version was asked for. -/
  | shown
  deriving DecidableEq, Repr

/-- The names of commands. -/
inductive CommandName
  | index
  | deduce
  | resolve
  | lint
  deriving DecidableEq, Repr

/-- The command that a word names. -/
def CommandName.ofString? : String → Option CommandName
  | "index" => some .index
  | "deduce" => some .deduce
  | "resolve" => some .resolve
  | "lint" => some .lint
  | _ => none

/-- What was read of the arguments of a command. -/
structure Arguments where
  includes : List String := []
  offset : Option Nat := none
  prune : Bool := false
  values : List String := []

namespace Invocation

/-- An option with a value may be written as one argument; the name and the value. -/
def splitOption (argument : String) : String × Option String :=
  match Text.splitOnce? (· == '=') argument.toList with
  | some (name, value) => (String.ofList name, some (String.ofList value))
  | none => (argument, none)

/-- Whether an argument is an option; a single `-` is none. -/
def isOption (argument : String) : Bool :=
  match argument.toList with
  | '-' :: _ :: _ => true
  | _ => false

/-- Whether an argument starts with two dashes. -/
def isLong (argument : String) : Bool := Text.startsWith ['-', '-'] argument.toList

/-- A number that fits into 32 bits. -/
def number? (s : String) : Option Nat :=
  let digits :=
    match s.toList with
    | '+' :: r => r
    | t => t
  if digits.isEmpty || !digits.all Char.isDigit then none
  else
    let n := digits.foldl (fun n c => 10 * n + (c.toNat - 48)) 0
    if n < 1 <<< 32 then some n else none

/-- A path, which is never empty. -/
def path? (s : String) : Except Refusal String := if s.isEmpty then .error .usage else .ok s

/-- The value of an option: written behind `=`, or the next argument if that is no option. -/
def valueOf (value : Option String) (rest : List String) :
    Except Refusal (String × List String) :=
  match value, rest with
  | some v, rest => .ok (v, rest)
  | none, v :: rest => if isOption v then .error .usage else .ok (v, rest)
  | none, [] => .error .usage

/-- Note an option of a command. -/
def setOption (name : CommandName) (option : String) (value : Option String)
    (rest : List String) (a : Arguments) : Except Refusal (Arguments × List String) :=
  match option, name with
  | "--include", _ => do
      let (v, rest) ← valueOf value rest
      return ({ a with includes := a.includes ++ [← path? v] }, rest)
  | "--offset", .deduce => do
      let (v, rest) ← valueOf value rest
      match number? v, a.offset with
      | some n, none => return ({ a with offset := some n }, rest)
      | _, _ => .error .usage
  | "--prune", .index =>
      if value.isSome || a.prune then .error .usage else .ok ({ a with prune := true }, rest)
  | "--help", _ => if value.isSome then .error .usage else .error .shown
  | _, _ => .error .usage

/-- How many values a command takes at most. -/
def valueLimit : CommandName → Option Nat
  | .index => none
  | .deduce | .resolve => some 2
  | .lint => some 1

/-- Whether a value of a command is a path. -/
def isPath (name : CommandName) (place : Nat) : Bool := name = .index || place == 0

/-- Note a value of a command. -/
def addValue (name : CommandName) (value : String) (a : Arguments) : Except Refusal Arguments :=
  if (valueLimit name).any (· ≤ a.values.length) then .error .usage
  else if isPath name a.values.length && value.isEmpty then .error .usage
  else .ok { a with values := a.values ++ [value] }

/-- Read the arguments behind the name of a command.  `room` bounds their number. -/
def readArguments (name : CommandName) : (room : Nat) → List String → Arguments →
    Except Refusal Arguments
  | 0, _, a | _, [], a => .ok a
  | room + 1, arg :: rest, a =>
      if arg == "--" then rest.foldlM (fun a v => addValue name v a) a
      else if isLong arg then do
        let (option, value) := splitOption arg
        let (a, rest) ← setOption name option value rest a
        readArguments name room rest a
      else if isOption arg then .error (if Text.startsWith ['-', 'h'] arg.toList then .shown
        else .usage)
      else do readArguments name room rest (← addValue name arg a)

/-- The command that the arguments of a name make. -/
def commandOf (name : CommandName) (a : Arguments) : Except Refusal Command :=
  match name, a.values with
  | .index, p :: ps => .ok (.index (p :: ps) a.prune)
  | .deduce, [file, expression] =>
      match a.offset with
      | some n => .ok (.deduce file n expression)
      | none => .error .usage
  | .resolve, [file, full] => .ok (.resolve file full)
  | .lint, [file] => .ok (.lint file)
  | _, _ => .error .usage

/-- The invocation of a command, with the paths that were included in front of its name. -/
def ofCommand (before : List String) (name : CommandName) (rest : List String) :
    Except Refusal Invocation := do
  let a ← readArguments name rest.length rest {}
  return ⟨if a.includes.isEmpty then before else a.includes, ← commandOf name a⟩

/-- Help on a command. -/
def helpOn (rest : List String) : Refusal :=
  match rest with
  | [] => .shown
  | [name] => if name == "help" || (CommandName.ofString? name).isSome then .shown else .usage
  | _ => .usage

/-- Read the arguments up to the name of a command. -/
def parseIn : (room : Nat) → (before : List String) → List String → Except Refusal Invocation
  | 0, _, _ | _, _, [] => .error .usage
  | room + 1, before, arg :: rest =>
      if isLong arg then
        match splitOption arg with
        | ("--include", value) => do
            let (v, rest) ← valueOf value rest
            parseIn room (before ++ [← path? v]) rest
        | ("--help", none) | ("--version", none) => .error .shown
        | _ => .error .usage
      else if isOption arg then
        .error (if ['h', 'V'].any fun c => Text.startsWith ['-', c] arg.toList then .shown
          else .usage)
      else if arg == "help" then .error (helpOn rest)
      else
        match CommandName.ofString? arg with
        | some name => ofCommand before name rest
        | none => .error .usage

/-- The invocation that arguments stand for. -/
def parse (arguments : List String) : Except Refusal Invocation :=
  parseIn arguments.length [] arguments

end Invocation
end PhpAtlas
