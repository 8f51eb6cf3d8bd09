/-!
# Arguments of the command line

Options are written `--name value` or `--name=value` and at most once. A value that starts with a
dash has to be attached. Behind `--` all arguments are plain.
-/

namespace NodeScript

/-- What the program is asked to do. -/
inductive Command where
  | functions (category : Option String)
  | build (script store : String)
  | decompile (store graph : String) (json : Bool)
  | layout (store graph : String)
deriving DecidableEq, Repr

/-- A command, and the catalog and settings files that are not the usual ones. -/
structure Invocation where
  command : Command
  catalog : Option String := none
  settings : Option String := none
deriving DecidableEq, Repr

/-- What the command line asks for. -/
inductive Request where
  | invoke (invocation : Invocation)
  | version
  | help
deriving DecidableEq, Repr

namespace Command

/-- How an argument is meant if nothing comes before it. -/
inductive Token where
  | option (name : String) (attached : Option String)
  | short (name : Char)
  | plainMark
  | word
deriving DecidableEq, Repr

/-- Read one argument. -/
def tokenOf (argument : String) : Token :=
  match argument.toList with
  | ['-', '-'] => .plainMark
  | '-' :: '-' :: rest =>
    .option (String.ofList (rest.takeWhile (· ≠ '=')))
      (match rest.dropWhile (· ≠ '=') with
        | [] => none
        | _ :: value => some (String.ofList value))
  | '-' :: c :: _ => .short c
  | _ => .word

/-- What may follow the program or one of its commands. -/
structure Level where
  /-- Options that take a path, which is never empty. -/
  paths : List String := ["catalog", "settings"]
  /-- Options that take any text. -/
  texts : List String := []
  flags : List String := []
  /-- How many paths stand alone. -/
  positions : Nat := 0
  /-- Whether a command follows, and the version can be asked for. -/
  outermost : Bool := false

/-- Arguments that have been understood. -/
structure Found where
  options : List (String × String) := []
  flags : List String := []
  positions : List String := []

/-- What reading a level comes to: the arguments found and those left for a command. -/
inductive Reading where
  | found (found : Found) (rest : List String)
  | version
  | help

namespace Level

/-- Whether the option has a value. -/
def takesValue (level : Level) (name : String) : Bool :=
  level.paths.contains name || level.texts.contains name

/-- Record the value of an option. -/
def addOption (level : Level) (found : Found) (name value : String) : Option Found :=
  if (found.options.lookup name).isSome then none
  else if level.paths.contains name && value.isEmpty then none
  else some { found with options := found.options ++ [(name, value)] }

/-- Record a flag, once at most. -/
def addFlag (found : Found) (name : String) : Option Found :=
  if found.flags.contains name then none
  else some { found with flags := found.flags ++ [name] }

/-- Record a position, if one is open. -/
def addPosition (level : Level) (found : Found) (value : String) : Option Found :=
  if found.positions.length < level.positions && !value.isEmpty then
    some { found with positions := found.positions ++ [value] }
  else none

/-- Record positions in order. -/
def addPositions (level : Level) (found : Found) : List String → Option Found
  | [] => some found
  | value :: rest => do
    let found ← level.addPosition found value
    level.addPositions found rest

/-- Read arguments; `none` if one of them is not understood. -/
def read (level : Level) (found : Found) : List String → Option Reading
  | [] => some (.found found [])
  | argument :: rest =>
    match tokenOf argument with
    | .word =>
      if level.outermost then some (.found found (argument :: rest))
      else do
        let found ← level.addPosition found argument
        level.read found rest
    | .plainMark => do
      let found ← level.addPositions found rest
      return .found found []
    | .short c =>
      if c = 'h' then some .help
      else if c = 'V' && level.outermost then some .version
      else none
    | .option name (some value) =>
      if level.takesValue name then do
        let found ← level.addOption found name value
        level.read found rest
      else none
    | .option name none =>
      if level.takesValue name then
        match rest with
        | [] => none
        | value :: rest =>
          if tokenOf value = .word then do
            let found ← level.addOption found name value
            level.read found rest
          else none
      else if level.flags.contains name then do
        let found ← addFlag found name
        level.read found rest
      else if name = "help" then some .help
      else if name = "version" && level.outermost then some .version
      else none

end Level

/-- What a command accepts. -/
def level? : String → Option Level
  | "functions" => some { texts := ["category"] }
  | "build" => some { paths := ["catalog", "settings", "store"], positions := 1 }
  | "decompile" =>
    some { paths := ["catalog", "settings", "store"], texts := ["graph"], flags := ["json"] }
  | "layout" => some { paths := ["catalog", "settings", "store"], texts := ["graph"] }
  | _ => none

/-- Whether arguments behind `help` ask for something there is help on. -/
def asksForHelp : List String → Bool
  | [] => true
  | [name] => name = "help" || (level? name).isSome
  | _ => false

/-- The command of a name with its arguments; `none` if a needed one is missing. -/
def ofFound? (name : String) (found : Found) : Option Command :=
  match name with
  | "functions" => some (.functions (found.options.lookup "category"))
  | "build" => do
    return .build (← found.positions.head?) (← found.options.lookup "store")
  | "decompile" => do
    return .decompile (← found.options.lookup "store") (← found.options.lookup "graph")
      (found.flags.contains "json")
  | "layout" => do
    return .layout (← found.options.lookup "store") (← found.options.lookup "graph")
  | _ => none

end Command

namespace Request

open Command in
/-- Read a command line; `none` if it is not understood. The catalog and the settings may be given
before and behind the command, and the latter counts. -/
def ofArguments? (arguments : List String) : Option Request := do
  match ← ({ outermost := true } : Level).read {} arguments with
  | .version => return .version
  | .help => return .help
  | .found _ [] => none
  | .found outer (name :: rest) =>
    if name = "help" then
      if asksForHelp rest then return .help else none
    else
      match ← (← level? name).read {} rest with
      | .version => return .version
      | .help => return .help
      | .found inner _ =>
        let option (key : String) : Option String :=
          inner.options.lookup key <|> outer.options.lookup key
        return .invoke
          { command := ← ofFound? name inner
            catalog := option "catalog"
            settings := option "settings" }

end Request

end NodeScript
