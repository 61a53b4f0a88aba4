import Gridbook.File.Path

/-!
The command line grammar. Options may stand anywhere among the arguments of a command; two dashes end them. Every
option and flag may be given once, and by its full name only. Arguments are judged from left to right, so that a fault
before a request for help counts and one behind it does not.
-/
namespace Gridbook

inductive Command where
  | tables (file : Path)
  | table (file : Path) (name : String)
  | field (file : Path) (table field : String)
  | lastField (file : Path) (table : String)
  | addField (file : Path) (table field expression : String) (title : Option String)
  | history (file : Path)
  | list (folder : Path) (filter : String) (hidden : Bool)
  deriving DecidableEq

inductive Invocation where
  | version
  | help
  | run (command : Command)
  deriving DecidableEq

/-- The arguments do not follow the grammar. -/
structure UsageError where
  deriving DecidableEq

namespace Command

/-- What stands for an argument by its place. A path may not be empty. -/
inductive Positional where
  | path
  | text
  deriving DecidableEq

def Positional.accepts (value : String) : Positional → Bool
  | path => !value.isEmpty
  | text => true

/-- What a command takes: arguments by their place, options, which take a value, and flags, which take none. -/
structure Grammar where
  positionals : List Positional
  options : List String := []
  flags : List String := []

structure Arguments where
  positionals : List String := []
  options : List (String × String) := []
  flags : List String := []
  deriving DecidableEq

namespace Arguments

def addPositional (grammar : Grammar) (arguments : Arguments) (value : String) : Except UsageError Arguments :=
  if (grammar.positionals[arguments.positionals.length]?).any (Positional.accepts value) then
    .ok { arguments with positionals := arguments.positionals ++ [value] }
  else .error {}

def addOption (arguments : Arguments) (name value : String) : Except UsageError Arguments :=
  if (arguments.options.lookup name).isSome then .error {}
  else .ok { arguments with options := arguments.options ++ [(name, value)] }

def addFlag (arguments : Arguments) (name : String) : Except UsageError Arguments :=
  if name ∈ arguments.flags then .error {} else .ok { arguments with flags := arguments.flags ++ [name] }

end Arguments

/-- Whether an argument is read as an option. A single dash is a value. -/
def isSwitch (argument : String) : Bool :=
  argument ≠ "-" && argument.toList.head? = some '-'

/-- An option cut at its equals sign. -/
def cutSwitch (argument : String) : String × Option String :=
  let cs := argument.toList
  match cs.dropWhile (· != '=') with
  | [] => (argument, none)
  | _ :: value => (String.ofList (cs.takeWhile (· != '=')), some (String.ofList value))

/-- What one argument asks for. -/
inductive Reading where
  | value
  | endOfOptions
  | help
  /-- An option, with the value written behind its equals sign. -/
  | option (name : String) (value : Option String)
  | flag (name : String)
  | unknown

def classify (grammar : Grammar) (argument : String) : Reading :=
  if !isSwitch argument then .value
  else if argument = "--" then .endOfOptions
  else if argument = "--help" ∨ argument.toList.take 2 = ['-', 'h'] then .help
  else
    let (name, value) := cutSwitch argument
    if name ∈ grammar.options then .option name value
    else if argument ∈ grammar.flags then .flag argument
    else .unknown

/-- Gathers the arguments of a command; nothing if help is asked for. -/
def gather (grammar : Grammar) (arguments : Arguments) : List String → Except UsageError (Option Arguments)
  | [] => .ok (some arguments)
  | argument :: rest =>
    match classify grammar argument with
    | .value =>
      match arguments.addPositional grammar argument with
      | .ok arguments => gather grammar arguments rest
      | .error error => .error error
    | .endOfOptions => (rest.foldlM (Arguments.addPositional grammar) arguments).map some
    | .help => .ok none
    | .option name (some value) =>
      match arguments.addOption name value with
      | .ok arguments => gather grammar arguments rest
      | .error error => .error error
    | .option name none =>
      match rest with
      | [] => .error {}
      | value :: rest =>
        if isSwitch value then .error {}
        else
          match arguments.addOption name value with
          | .ok arguments => gather grammar arguments rest
          | .error error => .error error
    | .flag name =>
      match arguments.addFlag name with
      | .ok arguments => gather grammar arguments rest
      | .error error => .error error
    | .unknown => .error {}

def grammars : List (String × Grammar) := [
  ("tables", { positionals := [.path] }),
  ("table", { positionals := [.path, .text] }),
  ("field", { positionals := [.path, .text, .text] }),
  ("last-field", { positionals := [.path, .text] }),
  ("add-field", { positionals := [.path, .text, .text, .text], options := ["--title"] }),
  ("history", { positionals := [.path] }),
  ("ls", { positionals := [.path], options := ["--filter"], flags := ["--hidden"] })]

/-- The command of that name with its arguments, unless some are missing. -/
def build (name : String) (arguments : Arguments) : Except UsageError Command :=
  match name, arguments.positionals with
  | "tables", [file] => .ok (.tables ⟨file⟩)
  | "table", [file, t] => .ok (.table ⟨file⟩ t)
  | "field", [file, t, f] => .ok (.field ⟨file⟩ t f)
  | "last-field", [file, t] => .ok (.lastField ⟨file⟩ t)
  | "add-field", [file, t, f, expression] =>
    .ok (.addField ⟨file⟩ t f expression (arguments.options.lookup "--title"))
  | "history", [file] => .ok (.history ⟨file⟩)
  | "ls", [] => .ok (listing ".")
  | "ls", [folder] => .ok (listing folder)
  | _, _ => .error {}
where
  listing (folder : String) : Command :=
    .list ⟨folder⟩ ((arguments.options.lookup "--filter").getD "all") (decide ("--hidden" ∈ arguments.flags))

def names : List String := grammars.map (·.1)

/-- Help is given on everything, or on one command. -/
def helpOn : List String → Except UsageError Invocation
  | [] => .ok .help
  | [name] => if name = "help" ∨ name ∈ names then .ok .help else .error {}
  | _ => .error {}

end Command

open Command in
def Invocation.read : List String → Except UsageError Invocation
  | [] => .error {}
  | name :: rest =>
    match grammars.lookup name with
    | some grammar => do
      match ← gather grammar {} rest with
      | none => return .help
      | some arguments => return .run (← build name arguments)
    | none =>
      if name = "help" then helpOn rest
      else if name = "--version" ∨ name.toList.take 2 = ['-', 'V'] then .ok .version
      else if name = "--help" ∨ name.toList.take 2 = ['-', 'h'] then .ok .help
      else .error {}

end Gridbook
