import NodeScript.Text.CaseTable
import NodeScript.Text.PrintTable

/-!
# Letter case

Full case mapping of characters and of texts. Within a text a capital sigma becomes the final form
at the end of a word, which is the only mapping that looks at its neighbours.
-/

namespace NodeScript.Text

/-- Membership in a set of codes given by run lengths: how many codes lie outside, how many inside
after them, and so on in turn. -/
def inRuns : List Nat → Nat → Bool
  | outside :: inside :: rest, n =>
    if n < outside + inside then outside ≤ n else inRuns rest (n - (outside + inside))
  | _, _ => false

/-- The counterpart of a character in the runs of a case table. -/
def mapRuns (runs : List (Nat × Nat × Nat × Int)) (c : Char) : Option Char :=
  let n := c.toNat
  (runs.find? fun (first, last, step, _) =>
      first ≤ n && n ≤ last && (n - first) % step == 0).map
    fun (_, _, _, offset) => Char.ofNat (n + offset).toNat

/-- The first character that a character is the counterpart of in the runs of a case table. -/
def unmapRuns (runs : List (Nat × Nat × Nat × Int)) (c : Char) : Option Char :=
  let n : Int := c.toNat
  (runs.find? fun (first, last, step, offset) =>
      first + offset ≤ n && n ≤ last + offset && (n - offset - first) % step == 0).map
    fun (_, _, _, offset) => Char.ofNat (n - offset).toNat

/-- Lower-case form of one character on its own. -/
def lowerChar (c : Char) : List Char :=
  if c.toNat < 0x80 then [c.toLower]
  else
    match lowerExpansions.lookup c.toNat with
    | some codes => codes.map Char.ofNat
    | none => [(mapRuns lowerRuns c).getD c]

/-- Upper-case form of one character on its own. -/
def upperChar (c : Char) : List Char :=
  if c.toNat < 0x80 then [c.toUpper]
  else
    let row := iotaRows.find? fun (first, _) => first ≤ c.toNat && c.toNat < first + 8
    match row, upperExceptions.lookup c.toNat with
    | some (first, capital), _ => [Char.ofNat (capital + (c.toNat - first)), 'Ι']
    | none, some codes => codes.map Char.ofNat
    | none, none => [(unmapRuns lowerRuns c).getD c]

/-- Whether a character combines with the one before it. -/
def isAttached (c : Char) : Bool := inRuns attachedRuns c.toNat

/-- Whether a character does not count for case. -/
def isCaseIgnorable (c : Char) : Bool := isAttached c != inRuns caseIgnorableRuns c.toNat

/-- Whether a character is a cased letter. -/
def isCased (c : Char) : Bool := inRuns casedRuns c.toNat

/-- Whether the nearest character that counts for case is a cased letter. -/
def meetsCased (cs : List Char) : Bool :=
  match cs.find? fun c => !isCaseIgnorable c with
  | some c => isCased c
  | none => false

/-- Lower-case form of a text after the reversed text `before`. -/
def lowerAfter (before : List Char) : List Char → List Char
  | [] => []
  | c :: rest =>
    let mapped :=
      if c = 'Σ' then [if meetsCased before && !meetsCased rest then 'ς' else 'σ']
      else lowerChar c
    mapped ++ lowerAfter (c :: before) rest

def lower (text : List Char) : List Char := lowerAfter [] text

end NodeScript.Text
