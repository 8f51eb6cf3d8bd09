import NodeScript.Build.Program
import NodeScript.Catalog.Standard
import NodeScript.Command.Arguments
import NodeScript.Command.Files
import NodeScript.Decompile.Program
import NodeScript.Document.Persist
import NodeScript.Script.Grammar
import NodeScript.Script.Json

/-!
# Running commands

A command reads files, prints, and in the end writes at most one file.
-/

namespace NodeScript

/-- How serious a line is. -/
inductive LogLevel where
  | info
  | warn
  | error
deriving DecidableEq, Repr

def LogLevel.name : LogLevel → String
  | .info => "INFO"
  | .warn => "WARN"
  | .error => "ERROR"

/-- A line of the log. -/
structure LogLine where
  level : LogLevel
  /-- Part of the program that speaks. -/
  origin : String
  message : String
deriving DecidableEq, Repr

/-- One character of a message in the log. What a terminal might take for a command is written by
its code. -/
def logChar (c : Char) : List Char :=
  let n := c.toNat
  if n = 0x07 ∨ n = 0x08 ∨ n = 0x0c ∨ n = 0x1b ∨ n = 0x7f then
    '\\' :: 'x' :: Identity.hexDigits 2 n
  else if 0x80 ≤ n ∧ n ≤ 0x9f then Text.codeEscape c
  else [c]

/-- The line as it is written. -/
def LogLine.text (line : LogLine) : String :=
  line.level.name ++ " " ++ line.origin ++ ": " ++
    String.ofList (line.message.toList.flatMap logChar)

def Warning.logLine (warning : Warning) : LogLine := ⟨.warn, warning.origin, warning.message⟩

/-- Why a command fails. -/
inductive CommandError where
  | script (path : String) (error : FileError)
  | parse (path : String) (error : Script.ParseError)
  | storeFile (path : String) (error : FileError)
  | store (path : String) (error : FormatError)
  /-- The store could not be written. -/
  | save (path : String) (error : FileError)
  | catalogFile (error : FileError)
  | catalog (error : FormatError)
  | settingsFile (error : FileError)
  | settings (error : FormatError)
  | build (error : BuildError)
  | decompile (error : DecompileError)
  | layout (error : LayoutError)
  | unknownGraph (name : String)

namespace CommandError

def fileMessage (path : String) (error : FileError) : String := path ++ ": " ++ error.message

def formatMessage (lead : String) (version : UInt32 → String) : FormatError → String
  | .malformed => lead
  | .newerVersion found => version found

def message : CommandError → String
  | .script path error | .storeFile path error | .save path error => fileMessage path error
  | .parse path error => "Script " ++ path ++ ": " ++ error.message
  | .store path .malformed => path ++ ":"
  | .store path (.newerVersion found) => path ++ ": " ++ Store.versionMessage found
  | .catalogFile error | .settingsFile error => "I/O error: " ++ error.message
  | .catalog error => formatMessage "Invalid descriptor table:" Catalog.versionMessage error
  | .settings error => formatMessage "Invalid settings:" Settings.versionMessage error
  | .build error => error.message
  | .decompile error => error.message
  | .layout error => error.message
  | .unknownGraph name => "Graph '" ++ name ++ "' not found in store"

end CommandError

/-- Files and identities that a command works on, and what it has said so far. -/
structure Workspace where
  files : Files
  supply : Supply := {}
  log : List LogLine := []
  output : String := ""

/-- A step of a command. What is done before it fails stays. -/
abbrev CommandM := ExceptT CommandError (StateM Workspace)

namespace Command

/-- Name under which the program itself speaks. -/
def programName : String := "geoscript"

/-- Answer to `--version`. -/
def versionText : String := programName ++ " 0.1.0\n"

/-- Answer to `--help`. -/
def helpText : String := "Usage: " ++ programName ++ " [OPTIONS] <COMMAND>\n"

/-- Write a line to the log. -/
def say (line : LogLine) : CommandM Unit :=
  modify fun workspace => { workspace with log := workspace.log ++ [line] }

def warn (warnings : List Warning) : CommandM Unit :=
  modify fun workspace => { workspace with log := workspace.log ++ warnings.map Warning.logLine }

def print (text : String) : CommandM Unit :=
  modify fun workspace => { workspace with output := workspace.output ++ text }

/-- Draw identities. -/
def draw {α : Type} (step : StateM Supply α) : CommandM α :=
  modifyGet fun workspace =>
    let (a, supply) := step workspace.supply
    (a, { workspace with supply })

/-- Never draw identities that were read. -/
def reserve (identities : List Identity) : CommandM Unit :=
  modify fun workspace => { workspace with supply := workspace.supply.reserve identities }

/-- Fail with the error, if there is one. -/
def reads {ε α : Type} (wrap : ε → CommandError) (found : Except ε α) : CommandM α :=
  match found with
  | .ok a => pure a
  | .error e => throw (wrap e)

def readText (path : String) (wrap : FileError → CommandError) : CommandM String := do
  reads wrap ((← get).files.read path)

/-- Read a catalog and reserve its identities. -/
def loadCatalog (path : String) : CommandM Catalog := do
  let text ← readText path .catalogFile
  let catalog ← reads .catalog (Catalog.ofText text)
  reserve catalog.ids
  say ⟨.info, "geoscript_graph::registry",
    "Loaded " ++ toString catalog.kinds.size ++ " node kinds from " ++ path⟩
  return catalog

/-- Read settings. -/
def loadSettings (path : String) : CommandM Settings := do
  let text ← readText path .settingsFile
  reads .settings (Settings.ofText text)

/-- Read a store and reserve its identities. -/
def loadStore (path : String) : CommandM Store := do
  let text ← readText path (.storeFile path)
  let store ← reads (.store path) (Store.ofText text)
  reserve store.ids
  return store

/-- Write a store. -/
def saveStore (path : String) (store : Store) : CommandM Unit := do
  let files ← reads (.save path) ((← get).files.write path store.toText)
  modify fun workspace => { workspace with files }

/-- Read what the options name. -/
def openSession (invocation : Invocation) : CommandM Session := do
  let catalog ← match invocation.catalog with
    | some path => loadCatalog path
    | none => draw Catalog.standard
  let settings ← match invocation.settings with
    | some path => loadSettings path
    | none => pure {}
  return { catalog, settings }

/-- Fill a text up with blanks. -/
def padded (width : Nat) (text : String) : String :=
  text ++ String.ofList (List.replicate (width - text.length) ' ')

/-- A function as it is listed. -/
def functionLine (function : Function) : String :=
  padded 28 function.name ++ " " ++ padded 36 function.kind ++ " " ++ function.path ++ "\n"

/-- List all functions or those below a path. -/
def listFunctions (session : Session) (category : Option String) : CommandM Unit :=
  let listed := match category with
    | some path => session.functions.under path
    | none => session.functions.all
  listed.forM fun function => print (functionLine function)

/-- Build a program into a store. -/
def buildInto (session : Session) (store : Store) (program : Script.Program) :
    CommandM Store := do
  let (result, after) := (program.build session).run { store, supply := (← get).supply }
  modify fun workspace => { workspace with supply := after.supply }
  warn after.warnings
  reads .build result
  return after.store

/-- Build a script into a store. -/
def buildScript (session : Session) (script store : String) : CommandM Unit := do
  let text ← readText script (.script script)
  let program ← reads (.parse script) (Script.Program.parse text)
  let before ← if (← get).files.isPresent store then loadStore store else pure Store.empty
  let after ← buildInto session before program
  saveStore store after
  say ⟨.info, programName, "Built '" ++ program.name ++ "' into " ++ store⟩

/-- A graph of the store. -/
def findGraph (store : Store) (name : String) : CommandM Graph :=
  match store.get? name with
  | some graph => pure graph
  | none => throw (.unknownGraph name)

/-- Print a graph as a script. -/
def decompileGraph (session : Session) (store name : String) (json : Bool) : CommandM Unit := do
  let graph ← findGraph (← loadStore store) name
  warn (graph.decompileWarnings session.catalog)
  let program ← reads .decompile (graph.decompile session.catalog)
  print (if json then program.toJson.render ++ "\n" else program.render)

/-- Arrange a graph of a store. -/
def layoutGraph (session : Session) (path name : String) : CommandM Unit := do
  let store ← loadStore path
  let graph ← findGraph store name
  let arranged ← reads .layout (graph.arrange session.settings.layout)
  saveStore path (store.set name arranged)
  say ⟨.info, programName, "Arranged '" ++ name ++ "'"⟩

end Command

open Command in
/-- Run a command. -/
def Invocation.run (invocation : Invocation) : CommandM Unit := do
  let session ← openSession invocation
  match invocation.command with
  | .functions category => listFunctions session category
  | .build script store => buildScript session script store
  | .decompile store graph json => decompileGraph session store graph json
  | .layout store graph => layoutGraph session store graph

/-- How a run ends: its exit status, and the files, log and output it leaves. -/
structure Ending where
  status : UInt8
  workspace : Workspace

/-- Run a command line on the files of a directory. -/
def runArguments (arguments : List String) (files : Files) : Ending :=
  match Request.ofArguments? arguments with
  | none => ⟨2, { files }⟩
  | some .version => ⟨0, { files, output := Command.versionText }⟩
  | some .help => ⟨0, { files, output := Command.helpText }⟩
  | some (.invoke invocation) =>
    match invocation.run.run { files } with
    | (.ok (), workspace) => ⟨0, workspace⟩
    | (.error error, workspace) =>
      ⟨1, { workspace with
        log := workspace.log ++ [⟨.error, Command.programName, error.message⟩] }⟩

end NodeScript
