import NodeScript.Text.Casing

/-!
# Display names and identifiers

A display name such as `Vertices X` and a script identifier such as `vertices_x` name the same
thing.
-/

namespace NodeScript

/-- Identifier of a display name: lower case, blanks written as `_`. -/
def snakeCase (name : String) : String :=
  String.ofList ((Text.lower name.toList).map fun c => if c = ' ' then '_' else c)

namespace Naming

/-- Whether a character separates words. -/
def isSeparator (c : Char) : Bool := c == '_' || c == ' '

/-- Maximal runs of characters without a separator. -/
def words : List Char → List (List Char)
  | [] => []
  | c :: rest =>
    if isSeparator c then words rest
    else
      match rest, words rest with
      | d :: _, word :: others =>
        if isSeparator d then [c] :: word :: others else (c :: word) :: others
      | _, others => [c] :: others

/-- First character in upper case, the others in lower case. -/
def capitalize : List Char → List Char
  | [] => []
  | c :: rest => Text.upperChar c ++ rest.flatMap Text.lowerChar

/-- Words with one blank between neighbours. -/
def spaced : List (List Char) → List Char
  | [] => []
  | [word] => word
  | word :: others => word ++ ' ' :: spaced others

end Naming

/-- Display name of an identifier: every word capitalized, one blank between words. -/
def titleCase (identifier : String) : String :=
  String.ofList (Naming.spaced ((Naming.words identifier.toList).map Naming.capitalize))

end NodeScript
