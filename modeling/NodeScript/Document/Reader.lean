import NodeScript.Document.Token

/-!
# Reading documents

Blanks and comments may stand between all parts, and a comma behind the last entry. Brackets nest to
a fixed depth. In front of a document, attributes switch extensions on.
-/

namespace NodeScript.Document

/-- Entries up to a closing bracket, with commas between them. -/
def items {α : Type} (close : Char) (item : Scan α) (text : List Char) :
    Option (List α × List Char) :=
  match text with
  | [] => none
  | c :: rest =>
    if c = close then some ([], rest)
    else
      match item (c :: rest) with
      | none => none
      | some (a, behind) =>
        match skip behind with
        | some (',' :: more) =>
          match skip more with
          | none => none
          | some next =>
            if next.length ≤ rest.length then
              (items close item next).map fun (as, last) => (a :: as, last)
            else none
        | some (d :: more) => if d = close then some ([a], more) else none
        | _ => none
termination_by text.length
decreasing_by
  simp only [List.length_cons]
  omega

/-- A name, a colon and a value. -/
def namedField (value : Scan Document) : Scan (String × Document) := fun text => do
  let (name, rest) ← readWord text
  match ← skip rest with
  | ':' :: rest =>
    let (document, rest) ← value (← skip rest)
    return ((name, document), rest)
  | _ => none

/-- A key, a colon and a value. -/
def mapEntry (value : Scan Document) : Scan (Document × Document) := fun text => do
  let (key, rest) ← value text
  match ← skip rest with
  | ':' :: rest =>
    let (document, rest) ← value (← skip rest)
    return ((key, document), rest)
  | _ => none

/-- Whether fields with names follow. -/
def startsRecord (text : List Char) : Bool :=
  match readWord text with
  | some (_, rest) =>
    match skip rest with
    | some (':' :: _) => true
    | _ => false
  | none => false

/-- An entry, or the gap in front of a comma. -/
def entryOrGap {α : Type} (item : Scan α) : Scan (Option α)
  | ',' :: rest => some (none, ',' :: rest)
  | chars => (item chars).map fun (a, rest) => (some a, rest)

/-- Entries and the brackets around them, which have a comma too many if the last entry is a gap. -/
def settled? (entries : List (Option Document)) : Option (Brackets × List Document) :=
  match entries.getLast? with
  | some none => (entries.dropLast.mapM id).map (.trailing, ·)
  | _ => (entries.mapM id).map (.plain, ·)

/-- A tuple or a record behind its opening bracket. -/
def bracketed (value : Scan Document) (name : Option String) : Scan Document := fun text => do
  let rest ← skip text
  if startsRecord rest then
    let (fields, rest) ← items ')' (namedField value) rest
    return (.record name fields, rest)
  else
    let (entries, rest) ← items ')' (entryOrGap value) rest
    let (brackets, entries) ← settled? entries
    return (.tuple brackets name entries, rest)

/-- Words that are values of their own wherever a value may stand. -/
def reserved? (name : String) : Option Document :=
  if name = "true" then some (.flag true)
  else if name = "false" then some (.flag false)
  else if name = "None" then some .absent
  else if name ∈ ["inf", "inff32", "inff64", "NaN", "NaNf32", "NaNf64"] then
    some (.number name.toList)
  else none

/-- A word, or the brackets behind it. -/
def named (inner : Option (Scan Document)) (name : String) : Scan Document := fun text => do
  match ← skip text with
  | '(' :: rest => bracketed (← inner) (some name) rest
  | _ => return (.word name, text)

/-- What the brackets behind `Some` hold if they may be those of a tuple or a record as well. -/
def looseContent (value : Scan Document) : Scan Document := fun text => do
  match ← bracketed value none text with
  | (.tuple .trailing _ _, _) => none
  | (.tuple _ _ [document], rest) => return (.present .plain document, rest)
  | (.tuple _ _ [], rest) => return (.present .plain .unit, rest)
  | (document, rest) => return (.present .plain document, rest)

/-- What the brackets behind `Some` hold if it is a single value. -/
def strictContent (value : Scan Document) : Scan Document := fun text => do
  match ← items ')' value (← skip text) with
  | ([document], rest) => return (.present .plain document, rest)
  | _ => none

/-- The value behind `Some`, in brackets. An extension lets them be left out. -/
def presence (extensions : Extensions) (inner : Option (Scan Document)) : Scan Document :=
  fun text => do
    match ← skip text with
    | '(' :: rest =>
      if extensions.unwrapVariantNewtypes then looseContent (← inner) rest
      else strictContent (← inner) rest
    | rest =>
      if extensions.implicitSome then
        let (document, rest) ← (← inner) rest
        return (.present .missing document, rest)
      else none

/-- A document whose brackets are read with `inner`, if they may be there at all. -/
def value (extensions : Extensions) (inner : Option (Scan Document)) : Scan Document
  | [] => none
  | '"' :: rest => quotedText rest
  | '\'' :: rest => characterRest rest
  | 'b' :: '\'' :: rest => byteRest rest
  | 'b' :: '"' :: rest => quotedBytes rest
  | 'b' :: 'r' :: '"' :: rest => rawBytes ('"' :: rest)
  | 'b' :: 'r' :: '#' :: rest => rawBytes ('#' :: rest)
  | 'r' :: '"' :: rest => rawText ('"' :: rest)
  | 'r' :: '#' :: rest =>
    match rawText ('#' :: rest) with
    | some found => some found
    | none => do
      let (name, rest) ← rawWord rest
      named inner name rest
  | '[' :: rest => do
    let (entries, rest) ← items ']' (← inner) (← skip rest)
    return (.list entries, rest)
  | '\x7b' :: rest => do
    let (entries, rest) ← items '\x7d' (mapEntry (← inner)) (← skip rest)
    return (.map entries, rest)
  | '(' :: ')' :: rest => some (.unit, rest)
  | '(' :: rest => do bracketed (← inner) none rest
  | c :: rest =>
    if isWordStart c then do
      let (name, rest) ← readWord (c :: rest)
      if name = "Some" then presence extensions inner rest
      else
        match reserved? name with
        | some document => return (document, rest)
        | none => named inner name rest
    else readNumber (c :: rest)

/-- A document whose brackets nest at most as deep as allowed. -/
def nested (extensions : Extensions) : Nat → Scan Document
  | 0 => value extensions none
  | depth + 1 => value extensions (some (nested extensions depth))

/-- Switch an extension on by its name. -/
def Extensions.enable? (extensions : Extensions) : String → Option Extensions
  | "implicit_some" => some { extensions with implicitSome := true }
  | "unwrap_newtypes" => some { extensions with unwrapNewtypes := true }
  | "unwrap_variant_newtypes" => some { extensions with unwrapVariantNewtypes := true }
  | "explicit_struct_names" => some { extensions with explicitStructNames := true }
  | _ => none

/-- The text behind characters that have blanks and comments behind them. -/
def behind (expected : List Char) (text : List Char) : Option (List Char) :=
  if expected.isPrefixOf text then skip (text.drop expected.length) else none

/-- Names in an attribute, behind its hash sign. -/
def enabledNames : Scan (List String) := fun text => do
  let text ← [['!'], ['['], ['e', 'n', 'a', 'b', 'l', 'e'], ['(']].foldlM
    (fun text expected => behind expected text) (← skip text)
  let (names, text) ← items ')' readWord text
  let text ← behind [']'] (← skip text)
  if names.isEmpty then none else return (names, text)

/-- Extensions that the attributes in front of a document switch on. -/
def attributes (extensions : Extensions) (text : List Char) : Option (Extensions × List Char) :=
  match text with
  | '#' :: rest =>
    match enabledNames rest with
    | none => none
    | some (names, behind) =>
      match names.foldlM Extensions.enable? extensions with
      | none => none
      | some extensions =>
        if behind.length ≤ rest.length then attributes extensions behind else none
  | _ => some (extensions, text)
termination_by text.length

/-- Read a text that holds one document and nothing else, with the extensions in front of it. -/
def parse? (text : String) : Option (Extensions × Document) := do
  let (extensions, rest) ← attributes {} (← skip text.toList)
  let (document, rest) ← nested extensions Reading.depthLimit rest
  match ← skip rest with
  | [] => return (extensions, document)
  | _ => none

end NodeScript.Document
