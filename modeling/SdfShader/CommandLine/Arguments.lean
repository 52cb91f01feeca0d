import SdfShader.Scene.Demo

/-!
# Command line arguments

Options have long names, which are never cut short, and perhaps a letter. A value stands behind a
blank or an equals sign, behind a letter also right away. The settings file may be named before and
after the subcommand; the later level counts. Giving an option twice on one level, or anything that
is no option, subcommand or value, is a usage error. A stop, such as the request for the version,
takes effect as soon as it is met.
-/

namespace SdfShader.CommandLine

/-! ## Options -/

/-- What ends the reading of arguments early. -/
inductive Stop
  | usage
  | version
  | help
  deriving DecidableEq

inductive Effect
  | flag
  /-- Takes a value that passes the test. -/
  | value (accepts : String → Bool)
  | stop (s : Stop)

structure OptionSpec where
  long : String
  short : Option Char
  effect : Effect

/-- The options of a level, and the subcommands that may follow on it. -/
structure Level where
  options : List OptionSpec
  subcommands : List String

/-- Options that were given, by their long names; a flag has the empty value. -/
abbrev Given := List (String × String)

def helpOption : OptionSpec := ⟨"help", some 'h', .stop .help⟩

/-- A path must not be empty. -/
def configOption : OptionSpec := ⟨"config", none, .value (· ≠ "")⟩

def sceneOption : OptionSpec := ⟨"scene", some 's', .value fun v => (Demo.ofName? v).isSome⟩

def outputOption : OptionSpec := ⟨"output", some 'o', .value (· ≠ "")⟩

def flagOption (long : String) : OptionSpec := ⟨long, none, .flag⟩

def subcommandNames : List String :=
  ["fragment", "shader", "formulas", "config", "help"]

def topLevel : Level :=
  ⟨[configOption, helpOption, ⟨"version", some 'V', .stop .version⟩], subcommandNames⟩

def levelOf (subcommand : String) : Level :=
  let own := match subcommand with
    | "fragment" => [sceneOption]
    | "shader" => [sceneOption, outputOption, flagOption "vertex"]
    | "formulas" => [flagOption "docs"]
    | "config" => [flagOption "save"]
    | _ => []
  ⟨configOption :: helpOption :: own, []⟩

/-! ## Reading a level -/

/-- Whether an argument can be the value of the option before it. -/
def isValue (arg : String) : Bool :=
  arg = "-" || !arg.startsWith "-"

/-- Cuts a text at its first equals sign. -/
def cutAtEquals (cs : List Char) : List Char × Option (List Char) :=
  match cs.dropWhile (· ≠ '=') with
  | _ :: value => (cs.takeWhile (· ≠ '='), some value)
  | [] => (cs, none)

/-- An option as it is written: with the value behind it or without. -/
inductive Mention
  | long (name : String) (value : Option String)
  | short (letter : Char) (rest : List Char)
  | none

def mention (arg : String) : Mention :=
  match arg.toList with
  | '-' :: '-' :: cs =>
    let (name, value) := cutAtEquals cs
    .long (String.ofList name) (value.map String.ofList)
  | '-' :: letter :: rest => .short letter rest
  | _ => .none

/-- The value right behind a letter, the equals sign left out. -/
def attachedValue? : List Char → Option String
  | [] => none
  | '=' :: rest => some (String.ofList rest)
  | rest => some (String.ofList rest)

/-- The option that is mentioned, the value behind it and whether that value is certain to be one.
-/
def Level.find? (level : Level) : Mention → Option (OptionSpec × Option String)
  | .long name value => (level.options.find? (·.long = name)).map (·, value)
  | .short letter rest =>
    (level.options.find? (·.short = some letter)).map (·, attachedValue? rest)
  | .none => none

def give (given : Given) (name value : String) : Except Stop Given :=
  if (given.lookup name).isSome then .error .usage else .ok (given ++ [(name, value)])

/-- Whether a mention of an option that takes no value has one. A letter of that sort has not: what
is behind it are further letters. -/
def hasValue : Mention → Bool
  | .long _ value => value.isSome
  | _ => false

/-- Reads the arguments of a level: the options given, and the subcommand with its arguments. -/
def scan (level : Level) (given : Given) :
    List String → Except Stop (Given × Option (String × List String))
  | [] => .ok (given, none)
  | arg :: rest =>
    if level.subcommands.contains arg then .ok (given, some (arg, rest))
    else if arg = "--" then
      -- Nothing takes arguments that are no options.
      if rest.isEmpty then .ok (given, none) else .error .usage
    else
      match level.find? (mention arg) with
      | none => .error .usage
      | some (option, value) =>
        match option.effect with
        | .stop s => .error (if hasValue (mention arg) then .usage else s)
        | .flag => do
          if value.isSome then throw .usage
          scan level (← give given option.long "") rest
        | .value accepts =>
          match value, rest with
          | some v, rest => do
            if !accepts v then throw .usage
            scan level (← give given option.long v) rest
          | none, v :: rest => do
            if !isValue v || !accepts v then throw .usage
            scan level (← give given option.long v) rest
          | none, [] => .error .usage

/-! ## Invocations -/

inductive Command
  | fragment (demo : Demo)
  | shader (demo : Demo) (output : Option String) (vertex : Bool)
  | formulas (docs : Bool)
  | config (save : Bool)
  deriving DecidableEq

structure Invocation where
  command : Command
  /-- The settings file that was named. -/
  config : Option String
  deriving DecidableEq

def Given.has (given : Given) (name : String) : Bool :=
  (given.lookup name).isSome

/-- The scene that was named, the spheres if none was. -/
def Given.demo (given : Given) : Demo :=
  ((given.lookup "scene").bind Demo.ofName?).getD .spheres

def command? (subcommand : String) (given : Given) : Option Command :=
  match subcommand with
  | "fragment" => some (.fragment (Given.demo given))
  | "shader" =>
    some (.shader (Given.demo given) (given.lookup "output") (Given.has given "vertex"))
  | "formulas" => some (.formulas (Given.has given "docs"))
  | "config" => some (.config (Given.has given "save"))
  | _ => none

/-- What follows the request for help: at most one subcommand. -/
def helpStop : List String → Stop
  | [] => .help
  | [name] => if subcommandNames.contains name then .help else .usage
  | _ => .usage

/-- Reads all arguments. -/
def parse (args : List String) : Except Stop Invocation := do
  let (top, next) ← scan topLevel [] args
  match next with
  | none => throw .usage
  | some (subcommand, rest) =>
    if subcommand = "help" then throw (helpStop rest)
    let (given, _) ← scan (levelOf subcommand) [] rest
    match command? subcommand given with
    | some command => return ⟨command, (given.lookup "config").or (top.lookup "config")⟩
    | none => throw .usage

end SdfShader.CommandLine
