import NodeScript.Command.Run

/-!
# The program

Brings the files that a command line names into memory, runs it, and writes back what has changed.
-/

namespace NodeScript

/-- Paths that a command line names. -/
def Request.paths : Request → List String
  | .invoke invocation =>
    invocation.catalog.toList ++ invocation.settings.toList ++
      match invocation.command with
      | .functions _ => []
      | .build script store => [script, store]
      | .decompile store .. | .layout store _ => [store]
  | .version | .help => []

/-- Whether a path leads to a directory. -/
def isDirectoryOnDisk (path : String) : IO Bool := do
  try (← IO.FS.realPath path).isDir
  catch _ => return false

/-- Take a path into the files: its text, and the directories on the way to it. -/
def Files.visit (files : Files) (path : String) : IO Files := do
  let ways := Path.beginnings path ++ [Path.start path ++ Path.parts path]
  let directories ← ways.filterM fun way =>
    isDirectoryOnDisk (if way = [[]] then "/" else Path.spelling way)
  let spellings := directories.map fun way => Path.spelling (way.foldl Path.follow [])
  let directories := files.directories ++ spellings
  try
    let text ← IO.FS.readFile path
    return { texts := files.texts.insert (Path.canonical path) text, directories }
  catch _ => return { files with directories }

end NodeScript

open NodeScript in
/-- Run a command on the files that it names. -/
def main (arguments : List String) : IO UInt32 := do
  let request := Request.ofArguments? arguments
  let files ← ((request.map Request.paths).getD []).foldlM Files.visit {}
  let ending := runArguments arguments files
  for (path, text) in ending.workspace.files.texts.entries do
    if files.texts.get? path ≠ some text then IO.FS.writeFile path text
  IO.print ending.workspace.output
  for line in ending.workspace.log do
    IO.eprintln line.text
  if request.isNone then IO.eprint Command.helpText
  return ending.status.toUInt32
