/-!
# Readers

A reader takes a value off the front of a text. It either returns the value with the remaining text,
or fails with the text at the place of the failure; a failure can always be tried differently.
-/

namespace NodeScript.Script

/-- Takes a value off the front of a text, or reports the text where it failed. -/
def Reader (α : Type) := List Char → Except (List Char) (α × List Char)

namespace Reader

variable {α β : Type}

instance : Monad Reader where
  pure a := fun input => .ok (a, input)
  bind reader next := fun input =>
    match reader input with
    | .ok (a, rest) => next a rest
    | .error place => .error place

/-- Try the first reader and, where it fails, the second; the place of the second failure counts. -/
def orElse (first second : Reader α) : Reader α := fun input =>
  match first input with
  | .ok result => .ok result
  | .error _ => second input

/-- A value where the reader succeeds; nothing is taken where it fails. -/
def optional (reader : Reader α) : Reader (Option α) := fun input =>
  match reader input with
  | .ok (a, rest) => .ok (some a, rest)
  | .error _ => .ok (none, input)

/-- Read, then convert; a value that cannot be converted fails where reading began. -/
def convert (reader : Reader α) (f : α → Option β) : Reader β := fun input =>
  match reader input with
  | .error place => .error place
  | .ok (a, rest) =>
    match f a with
    | some b => .ok (b, rest)
    | none => .error input

/-- Read as often as possible. A reader that takes nothing fails the repetition. -/
def many (reader : Reader α) (input : List Char) : Except (List Char) (List α × List Char) :=
  match reader input with
  | .error _ => .ok ([], input)
  | .ok (a, rest) =>
    if rest.length < input.length then
      match many reader rest with
      | .ok (as, last) => .ok (a :: as, last)
      | .error place => .error place
    else .error input
termination_by input.length

/-- Further elements, each after a separator. A separator without an element is left in place. -/
def separatedMore (separator : Reader β) (reader : Reader α) (input : List Char) :
    List α × List Char :=
  match separator input with
  | .error _ => ([], input)
  | .ok (_, between) =>
    match reader between with
    | .error _ => ([], input)
    | .ok (a, rest) =>
      if rest.length < input.length then
        let (as, last) := separatedMore separator reader rest
        (a :: as, last)
      else ([], input)
termination_by input.length

/-- Elements with separators between them, possibly none. -/
def separated (separator : Reader β) (reader : Reader α) : Reader (List α) := fun input =>
  match reader input with
  | .error _ => .ok ([], input)
  | .ok (a, rest) =>
    let (as, last) := separatedMore separator reader rest
    .ok (a :: as, last)

/-- Elements with separators between them, at least one. -/
def separatedSome (separator : Reader β) (reader : Reader α) : Reader (List α) := fun input =>
  match reader input with
  | .error place => .error place
  | .ok (a, rest) =>
    let (as, last) := separatedMore separator reader rest
    .ok (a :: as, last)

/-- One given character. -/
def char (c : Char) : Reader Unit
  | [] => .error []
  | d :: rest => if d = c then .ok ((), rest) else .error (d :: rest)

/-- The longest run of characters of a class. -/
def run (class_ : Char → Bool) : Reader (List Char) := fun input =>
  .ok (input.takeWhile class_, input.dropWhile class_)

/-- The longest run of characters of a class, at least one. -/
def runSome (class_ : Char → Bool) : Reader (List Char) := fun input =>
  match input.takeWhile class_ with
  | [] => .error input
  | taken => .ok (taken, input.dropWhile class_)

end Reader

end NodeScript.Script
