import NodeScript.OrderedMap

/-!
# Files

Text files and the directories that hold them, seen from one working directory. A path is followed
part by part, and every part but the last has to lead to a directory.
-/

namespace NodeScript

/-- Why a file cannot be used. -/
inductive FileError where
  | missing
  | notDirectory
  | isDirectory
  | nameTooLong
deriving DecidableEq, Repr

def FileError.message : FileError → String
  | .missing => "No such file or directory (os error 2)"
  | .notDirectory => "Not a directory (os error 20)"
  | .isDirectory => "Is a directory (os error 21)"
  | .nameTooLong => "File name too long (os error 36)"

namespace Path

/-- Parts of a path between slashes. -/
def split : List Char → List (List Char)
  | [] => [[]]
  | c :: rest =>
    if c = '/' then [] :: split rest
    else
      match split rest with
      | [] => [[c]]
      | part :: parts => (c :: part) :: parts

/-- Parts put together again. -/
def join : List (List Char) → List Char
  | [] => []
  | [part] => part
  | part :: parts => part ++ '/' :: join parts

/-- A part of a path that leads nowhere else. -/
def isIdle (part : List Char) : Bool := part = [] || part = ['.']

/-- The part of a path that leads out of a directory. -/
def outward : List Char := ['.', '.']

/-- The parts of a path that lead somewhere. -/
def parts (path : String) : List (List Char) :=
  (split path.toList).filter fun part => !isIdle part

/-- The way to a file or a directory from the working directory, or from the root if the first part
is empty. Outward parts stand in front only. -/
abbrev Place := List (List Char)

/-- Where a path begins. -/
def start (path : String) : Place := if path.toList.head? = some '/' then [[]] else []

/-- The directory around a place; the root is its own. -/
def parent (place : Place) : Place :=
  match place.getLast? with
  | none => [outward]
  | some [] => place
  | some last => if last = outward then place ++ [outward] else place.dropLast

/-- Go one part further. -/
def follow (place : Place) (part : List Char) : Place :=
  if part = outward then parent place else place ++ [part]

def spelling (place : Place) : String := String.ofList (join place)

/-- One spelling for all paths that lead to the same place. -/
def canonical (path : String) : String := spelling ((parts path).foldl follow (start path))

/-- Beginnings of a path, shortest first, without the path itself. -/
def beginnings (path : String) : List Place :=
  (List.range (parts path).length).map fun n => start path ++ (parts path).take n

/-- Whether a path can only mean a directory. -/
def isOpenEnded (path : String) : Bool := (split path.toList).getLast?.any isIdle

/-- Whether a path names a directory by a slash behind it. -/
def endsInSlash (path : String) : Bool :=
  match (split path.toList).reverse with
  | [] :: others => (others.find? (· ≠ [])).any (· ≠ ['.'])
  | _ => false

/-- Bytes that a part of a path may have. -/
def partLimit : Nat := 255

/-- Bytes that a path may have. -/
def pathLimit : Nat := 4095

end Path

/-- Files that the program works on. -/
structure Files where
  /-- Texts by the canonical paths of their files. -/
  texts : OrderedMap String String := ∅
  /-- Canonical paths of directories other than the working directory and those around it. -/
  directories : List String := []

namespace Files

/-- Add a file, with the directories on the way to it. -/
def add (files : Files) (path text : String) : Files where
  texts := files.texts.insert (Path.canonical path) text
  directories := files.directories ++ (Path.beginnings path).map fun beginning =>
    Path.spelling (beginning.foldl Path.follow [])

def ofList (entries : List (String × String)) : Files :=
  entries.foldl (fun files (path, text) => files.add path text) {}

/-- Whether a place is a directory. -/
def isDirectory (files : Files) (place : Path.Place) : Bool :=
  place = [[]] || place.all (· = Path.outward) || files.directories.contains (Path.spelling place)

/-- Make sure that a place is a directory. -/
def enter (files : Files) (place : Path.Place) : Except FileError Unit :=
  if files.isDirectory place then .ok ()
  else .error (if files.texts.contains (Path.spelling place) then .notDirectory else .missing)

/-- Go one part further from a directory. -/
def step (files : Files) (place : Path.Place) (part : List Char) :
    Except FileError Path.Place := do
  files.enter place
  if Path.partLimit < (String.ofList part).utf8ByteSize then .error .nameTooLong
  else .ok (Path.follow place part)

/-- The place that some first parts of a path lead to, whether or not something is there. -/
def walk (files : Files) (path : String) (parts : List (List Char)) :
    Except FileError Path.Place :=
  if path.isEmpty then .error .missing
  else if Path.pathLimit < path.utf8ByteSize then .error .nameTooLong
  else parts.foldlM files.step (Path.start path)

/-- The text of a file. -/
def read (files : Files) (path : String) : Except FileError String := do
  let place ← files.walk path (Path.parts path)
  if files.isDirectory place then .error .isDirectory
  else
    match files.texts.get? (Path.spelling place) with
    | none => .error .missing
    | some text => if Path.isOpenEnded path then .error .notDirectory else .ok text

/-- Write a file. Its directory has to be there already. -/
def write (files : Files) (path text : String) : Except FileError Files := do
  if Path.endsInSlash path then
    files.enter (← files.walk path (Path.parts path).dropLast)
    .error .isDirectory
  else
    let place ← files.walk path (Path.parts path)
    if files.isDirectory place then .error .isDirectory
    else
      if Path.isOpenEnded path then files.enter place
      return { files with texts := files.texts.insert (Path.spelling place) text }

/-- Whether a path leads to a file or to a directory. -/
def isPresent (files : Files) (path : String) : Bool :=
  match files.read path with
  | .ok _ => true
  | .error error => error = .isDirectory

end Files

end NodeScript
