import Mathlib
import NodeScript.Proofs.Script.Spelling

/-!
# Rejected texts

The error for a rejected text points into the text. Reading stops at a final part of the text; the
first character there that is no blank starts the quoted part, which runs to the end of its line,
and the line is found by counting the line feeds before that character.
-/

namespace NodeScript.Script

open List Text

variable {text : String}

/-! ## Lines -/

theorem getElem?_splitOn_zero (text : List Char) :
    (text.splitOn '\n')[0]? = some (text.takeWhile (· != '\n')) := by
  induction text with
  | nil => rfl
  | cons c rest ih =>
    rw [splitOn_cons_eq_if_modifyHead, takeWhile_cons]
    by_cases hc : c = '\n'
    · subst hc
      rfl
    · rw [if_neg (by simpa using hc), if_pos (by simpa using hc), getElem?_modifyHead_zero, ih]
      rfl

/-- The line at a place has the number of line feeds before it, and ends where the next line feed
follows. -/
theorem exists_line (before rest : List Char) :
    ∃ start, ((before ++ rest).splitOn '\n')[before.count '\n']? = some (start ++ rest.takeWhile (· != '\n')) := by
  induction before with
  | nil => exact ⟨[], getElem?_splitOn_zero rest⟩
  | cons c before ih =>
    obtain ⟨start, hline⟩ := ih
    rw [cons_append, splitOn_cons_eq_if_modifyHead, count_cons]
    by_cases hc : c = '\n'
    · subst hc
      exact ⟨start, hline⟩
    · rw [if_neg (by simpa using hc), if_neg (by simpa using hc), getElem?_modifyHead, Nat.add_zero, hline]
      -- A character that is no line feed joins the line only when that is the first one.
      by_cases hfirst : before.count '\n' = 0
      · exact ⟨c :: start, by rw [if_pos hfirst]; rfl⟩
      · exact ⟨start, by rw [if_neg hfirst]⟩

theorem rdropWhile_append_suffix (p : Char → Bool) (start rest : List Char) :
    rest.rdropWhile p <:+ (start ++ rest).rdropWhile p := by
  unfold rdropWhile
  rw [reverse_append, dropWhile_append]
  split
  · next hempty => rw [isEmpty_iff.mp hempty]; exact nil_suffix
  · rw [reverse_append, reverse_reverse]; exact suffix_append start _

/-! ## Places -/

/-- Reading the text as a program stops at a place: no reader goes on from there, or the program has
ended and something follows. -/
inductive Program.Stops (text place : List Char) : Prop
  | failed (hread : program (text.length + 1) text = .error place)
  | left (found : Program) (rest : List Char) (hread : program (text.length + 1) text = .ok (found, rest))
      (hplace : skipBlank rest = place) (hne : place ≠ [])

/-- A text is rejected exactly where reading stops, with the error for that place. -/
theorem Program.parse_eq_error_iff {error : ParseError} :
    Program.parse text = .error error ↔
      ∃ place, Program.Stops text.toList place ∧ errorAt text.toList place = error := by
  unfold Program.parse
  dsimp only
  split
  · next place hread =>
      constructor
      · intro h
        exact ⟨place, .failed hread, Except.error.inj h⟩
      · rintro ⟨place, ⟨hfailed⟩ | ⟨found, rest, htaken, -, -⟩, rfl⟩
        · rw [Except.error.inj (hread.symm.trans hfailed)]
        · cases hread.symm.trans htaken
  · next found rest hread =>
      constructor
      · intro h
        split at h
        · cases h
        · next hne => exact ⟨skipBlank rest, .left found rest hread rfl hne, Except.error.inj h⟩
      · rintro ⟨place, ⟨hfailed⟩ | ⟨found', rest', htaken, rfl, hne⟩, rfl⟩
        · cases hread.symm.trans hfailed
        · cases hread.symm.trans htaken
          split
          · next hnil => exact absurd hnil hne
          · rfl

theorem Program.Stops.suffix {text place : List Char} (h : Program.Stops text place) : place <:+ text := by
  cases h with
  | failed hread => exact (program_yields _).stopped hread
  | left found rest hread hplace hne =>
    exact hplace ▸ (skipBlank_suffix rest).trans ((program_yields _).taken hread).2

/-! ## Errors -/

/-- The first line of a text without leading blanks is empty only with the text, and has no leading
blanks. -/
theorem takeWhile_trimStart (text : List Char) :
    trimStart text = [] ∨ ∃ c rest, (trimStart text).takeWhile (· != '\n') = c :: rest ∧ isBlank c = false := by
  cases htext : trimStart text with
  | nil => exact .inl rfl
  | cons c rest =>
    have hblank : isBlank c = false := by
      have hnot := head?_dropWhile_not isBlank text
      rwa [← trimStart, htext] at hnot
    have hne : c ≠ '\n' := by rintro rfl; cases hblank
    exact .inr ⟨c, _, takeWhile_cons_of_pos (by simpa using hne), hblank⟩

/-- The quoted part starts where the leading blanks end, and has no blanks at its own end. -/
theorem toList_near_errorAt (text place : List Char) :
    (errorAt text place).near.toList = ((trimStart place).takeWhile (· != '\n')).rdropWhile isBlank := by
  have hstart : trimStart ((trimStart place).takeWhile (· != '\n')) = (trimStart place).takeWhile (· != '\n') := by
    rcases takeWhile_trimStart place with hnil | ⟨c, rest, hline, hblank⟩
    · rw [hnil]
      rfl
    · rw [hline]
      exact dropWhile_cons_of_neg (by simp [hblank])
  rw [errorAt, String.toList_ofList, trim, hstart]
  rfl

/-- The error points at the place, a final part of the text. -/
structure ParseError.PointsAt (error : ParseError) (text : String) (place : List Char) : Prop where
  suffix : place <:+ text.toList
  one_le_line : 1 ≤ error.line
  line_le : error.line ≤ text.toList.count '\n' + 1
  /-- Nothing is quoted exactly when only blanks follow. -/
  near_eq_empty : error.near = "" ↔ ∀ c ∈ place, isBlank c = true
  /-- What is quoted starts with the first character at or after the place that is no blank. -/
  near_starts : error.near.toList <+: trimStart place
  /-- The line of the error, trimmed at its end, ends with what is quoted. -/
  near_ends : ∃ line, (text.toList.splitOn '\n')[error.line - 1]? = some line ∧
    error.near.toList <:+ line.rdropWhile isBlank
  /-- The line counts the line feeds of what stands before that character: the text is cut between two
  characters, at the byte that the sizes of the text and of the remaining part give. -/
  cut : ∃ before, text = before ++ String.ofList (trimStart place) ∧
    error.line = before.toList.count '\n' + 1 ∧
    before.utf8ByteSize = text.utf8ByteSize - (String.ofList (trimStart place)).utf8ByteSize ∧
    String.Pos.Raw.IsValid text ⟨text.utf8ByteSize - (String.ofList (trimStart place)).utf8ByteSize⟩

theorem pointsAt_errorAt {place : List Char} (h : place <:+ text.toList) :
    (errorAt text.toList place).PointsAt text place := by
  have hnear := toList_near_errorAt text.toList place
  have hcut := suffix_iff_eq_append.mp ((dropWhile_suffix isBlank).trans h)
  rw [← trimStart] at hcut
  generalize hbefore : text.toList.take (text.toList.length - (trimStart place).length) = before at hcut
  have hline : (errorAt text.toList place).line = before.count '\n' + 1 := by rw [← hbefore]; rfl
  have htext : text = String.ofList before ++ String.ofList (trimStart place) := by
    rw [← String.ofList_append, hcut, String.ofList_toList]
  have hsize : (String.ofList before).utf8ByteSize =
      text.utf8ByteSize - (String.ofList (trimStart place)).utf8ByteSize := by
    conv_rhs => rw [htext, String.utf8ByteSize_append]
    omega
  refine ⟨h, ?_, ?_, ?_, ?_, ?_, ?_⟩
  · exact hline ▸ Nat.le_add_left 1 _
  · rw [hline, ← hcut, count_append]
    omega
  · have hempty : trimStart place = [] ↔ ∀ c ∈ place, isBlank c = true := dropWhile_eq_nil_iff
    rw [← String.toList_eq_nil_iff, hnear, rdropWhile_eq_nil_iff, ← hempty]
    rcases takeWhile_trimStart place with hnil | ⟨c, rest, hfirst, hblank⟩
    · simp [hnil]
    · refine iff_of_false (fun hall => ?_) fun hnil => by rw [hnil] at hfirst; cases hfirst
      have hc := hall c (hfirst ▸ mem_cons_self)
      rw [hblank] at hc
      cases hc
  · rw [hnear]
    apply IsPrefix.trans
    · exact rdropWhile_prefix _ _
    · exact takeWhile_prefix _
  · obtain ⟨start, hstart⟩ := exists_line before (trimStart place)
    rw [hcut] at hstart
    refine ⟨_, by rwa [hline, Nat.add_sub_cancel], ?_⟩
    rw [hnear]
    exact rdropWhile_append_suffix isBlank start _
  · refine ⟨String.ofList before, htext, by rw [hline, String.toList_ofList], hsize, ?_⟩
    rw [← hsize]
    exact String.Pos.Raw.isValid_iff_exists_append.mpr ⟨_, _, htext, rfl⟩

/-- The text of an unfinished program, with a wide blank and a letter of two bytes at the offending
place. -/
def brokenText : String := "from geometry_script import *\n@tree(\"A\")\ndef f(x: Float \u2003é = 1):  \r\n"

/-- The error for a rejected text points at the place where reading stops. -/
theorem Program.parse_error_pointsAt {text : String} {error : ParseError} (h : Program.parse text = .error error) :
    ∃ place, Program.Stops text.toList place ∧ error.PointsAt text place := by
  obtain ⟨place, hstops, rfl⟩ := Program.parse_eq_error_iff.mp h
  exact ⟨place, hstops, pointsAt_errorAt hstops.suffix⟩

theorem Program.parse_error_pointsAt_broken :
    Program.parse brokenText = .error ⟨3, "é = 1):"⟩ ∧
      ∃ place, Program.Stops brokenText.toList place ∧ ParseError.PointsAt ⟨3, "é = 1):"⟩ brokenText place := by
  have hparse : Program.parse brokenText = .error ⟨3, "é = 1):"⟩ := by cbv
  exact ⟨hparse, Program.parse_error_pointsAt hparse⟩

end NodeScript.Script
