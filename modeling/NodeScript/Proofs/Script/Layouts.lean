import NodeScript.Proofs.Script.RoundTrip

/-!
# Layouts of script texts

A script text is a sequence of tokens with blanks and comments between them, before the first and
behind the last. Two layouts of the same tokens are read alike: every reader of the grammar takes
the same value off both and leaves layouts of the same tokens, or fails on both.

## Implementation notes

The name and the dot of a selection are one token, because nothing may stand between them. A reader
of names stops in front of the dot, so texts are also compared inside such a token.
-/

namespace NodeScript.Script

open List

variable {α β : Type} {pieces : List Piece} {ending : List Char} {token : Token} {c : Char}

/-! ## Tokens -/

inductive Token where
  | word (name : String)
  /-- The name in front of the dot of a selection, with the dot. -/
  | base (name : String)
  | number (spelling : NumberSpelling)
  /-- What stands between two quotes. -/
  | quoted (inner : List Char)
  /-- Punctuation, or any other character that is no part of the tokens above. -/
  | mark (c : Char)
deriving DecidableEq, Repr

/-- What may stand between quotes: no quote, and a backslash only in front of what it escapes. -/
def isQuotable : List Char → Bool
  | [] => true
  | ['\\'] => false
  | '\\' :: c :: rest => (c = 'n' || c = 't' || c = '\\' || c = '"') && isQuotable rest
  | c :: rest => c ≠ '"' && isQuotable rest

def isMark (c : Char) : Bool :=
  !(isSpace c || isWordChar c || c = '#' || c = '"' || c = '.' || c = '-')

namespace Token

def text : Token → List Char
  | .word name => name.toList
  | .base name => name.toList ++ ['.']
  | .number spelling => spelling.text
  | .quoted inner => '"' :: inner ++ ['"']
  | .mark c => [c]

def isProper : Token → Bool
  | .word name | .base name => isIdentifier name
  | .number spelling => spelling.isProper
  | .quoted inner => isQuotable inner
  | .mark c => isMark c

/-- Whether the tokens would run into each other with nothing between them. -/
def runsInto : Token → Token → Bool
  | .word _, .word _ | .word _, .base _ | .word _, .number _ => true
  | .number _, .word _ | .number _, .base _ | .number _, .number _ => true
  | _, _ => false

end Token

/-! ## Layouts -/

/-- Blanks and comments, read from inside a comment if `comment` holds. A comment ends with its
line, by a line feed with or without a carriage return; the last one may also end with the text. -/
def isGap (last : Bool) : Bool → List Char → Bool
  | comment, [] => last || !comment
  | false, c :: rest => if c = '#' then isGap last true rest else isSpace c && isGap last false rest
  | true, '\n' :: rest => isGap last false rest
  | true, '\r' :: '\n' :: rest => isGap last false rest
  | true, '\r' :: _ => false
  | true, _ :: rest => isGap last true rest

/-- A token with what stands in front of it. -/
structure Piece where
  gap : List Char
  token : Token
deriving DecidableEq, Repr

/-- Tokens that would run into each other are apart. -/
def isApart (token : Token) : List Piece → Bool
  | [] => true
  | next :: _ => !token.runsInto next.token || !next.gap.isEmpty

/-- Gaps hold blanks and comments only, tokens are spelled properly, and none runs into the next. -/
def isLaidOut : List Piece → List Char → Bool
  | [], ending => isGap true false ending
  | piece :: rest, ending => isGap false false piece.gap && piece.token.isProper &&
      isApart piece.token rest && isLaidOut rest ending

/-- A text by its tokens and what stands between them. -/
structure Layout where
  pieces : List Piece
  ending : List Char
  laidOut : isLaidOut pieces ending = true

namespace Layout

def tokens (layout : Layout) : List Token := layout.pieces.map Piece.token

def text (layout : Layout) : String :=
  String.ofList (layout.pieces.flatMap (fun piece => piece.gap ++ piece.token.text) ++ layout.ending)

end Layout

/-! ## Gaps -/

theorem afterComment_cons (h : isLineEnd c = false) (text : List Char) :
    afterComment (c :: text) = afterComment text := by
  unfold afterComment
  rw [dropWhile_cons_of_pos (by simp [h])]

/-- A gap is skipped, and so is the rest of one that begins inside a comment. -/
theorem skipBlank_gap {last comment : Bool} {gap rest : List Char} (h : isGap last comment gap = true)
    (hlast : last = true → rest = []) :
    if comment then ∃ after, afterComment (gap ++ rest) = some after ∧ skipBlank after = skipBlank rest
    else skipBlank (gap ++ rest) = skipBlank rest := by
  fun_induction isGap last comment gap with
  | case1 comment =>
    cases comment with
    | false => rfl
    | true =>
      rw [hlast (by simpa using h)]
      exact ⟨[], rfl, rfl⟩
  | case2 rest' ih =>
    obtain ⟨after, hafter, hskip⟩ := ih h
    simp only [Bool.false_eq_true, if_false, cons_append]
    rw [skipBlank, if_neg (by decide), if_pos rfl]
    split
    · next found hfound =>
        rw [hafter] at hfound
        cases hfound
        exact hskip
    · next hnone => rw [hafter] at hnone; cases hnone
  | case3 c rest' hc ih =>
    rw [Bool.and_eq_true] at h
    simp only [Bool.false_eq_true, if_false, cons_append] at ih ⊢
    rw [skipBlank, if_pos h.1]
    exact ih h.2
  | case4 rest' ih =>
    refine ⟨'\n' :: (rest' ++ rest), rfl, ?_⟩
    rw [skipBlank_newline]
    exact ih h
  | case5 rest' ih =>
    refine ⟨'\r' :: '\n' :: (rest' ++ rest), rfl, ?_⟩
    rw [skipBlank, if_pos (by decide), skipBlank_newline]
    exact ih h
  | case6 => cases h
  | case7 c rest' hfeed _ hreturn ih =>
    have hend : isLineEnd c = false := by
      simp only [isLineEnd, Bool.or_eq_false_iff, beq_eq_false_iff_ne]
      exact ⟨fun h => hreturn h, fun h => hfeed h⟩
    rw [cons_append, afterComment_cons hend]
    exact ih h

/-! ## Texts with the same tokens -/

/-- The text is a layout of the tokens. -/
def Laid (tokens : List Token) (text : List Char) : Prop :=
  ∃ pieces ending, isLaidOut pieces ending = true ∧ pieces.map Piece.token = tokens ∧
    pieces.flatMap (fun piece => piece.gap ++ piece.token.text) ++ ending = text

theorem Layout.laid (layout : Layout) : Laid layout.tokens layout.text.toList :=
  ⟨layout.pieces, layout.ending, layout.laidOut, rfl, String.toList_ofList.symm⟩

/-- The texts have the same tokens. Both may begin inside a selection, in front of its dot. -/
inductive Matched : List Char → List Char → Prop
  | laid {tokens text text'} : Laid tokens text → Laid tokens text' → Matched text text'
  | dot {tokens text text'} : Laid tokens text → Laid tokens text' → Matched ('.' :: text) ('.' :: text')

/-- Behind a word or a number comes something that does not go on with it. -/
def Token.EndsBefore (token : Token) (rest : List Char) : Prop :=
  match token with
  | .word _ | .number _ => Delimited rest
  | _ => True

theorem isMark_iff : isMark c = true ↔ isSpace c = false ∧ isWordChar c = false ∧ c ≠ '#' ∧
    c ≠ '"' ∧ c ≠ '.' ∧ c ≠ '-' := by
  simp [isMark, and_assoc]

namespace Token

variable {token : Token}

/-- The characters that a token of that sort begins with. -/
def StartsWith (token : Token) (c : Char) : Prop :=
  match token with
  | .word _ | .base _ => isLetter c = true
  | .number _ => c = '-' ∨ c.isDigit = true
  | .quoted _ => c = '"'
  | .mark found => c = found ∧ isMark c = true

theorem exists_start (h : token.isProper = true) : ∃ c more, token.text = c :: more ∧ token.StartsWith c := by
  cases token with
  | word name =>
    obtain ⟨c, rest, heq, hletter, -⟩ := exists_of_isIdentifier h
    exact ⟨c, rest, heq, hletter⟩
  | base name =>
    obtain ⟨c, rest, heq, hletter, -⟩ := exists_of_isIdentifier h
    exact ⟨c, rest ++ ['.'], by rw [text, heq]; rfl, hletter⟩
  | number spelling => exact spelling.exists_head h
  | quoted inner => exact ⟨'"', inner ++ ['"'], rfl, rfl⟩
  | mark c => exact ⟨c, [], rfl, rfl, h⟩

/-- The first character of a token is no blank, begins no comment and is no dot. -/
theorem StartsWith.solid (h : token.StartsWith c) : isSpace c = false ∧ c ≠ '#' ∧ c ≠ '.' := by
  cases token with
  | word | base =>
    obtain ⟨_, _, ⟨⟩, hspace, hcomment⟩ := solid_of_isLetter h []
    exact ⟨hspace, hcomment, ne_of_test h rfl⟩
  | number =>
    obtain ⟨_, _, ⟨⟩, hspace, hcomment⟩ := solid_of_digit [] h
    refine ⟨hspace, hcomment, ?_⟩
    rintro rfl
    rcases h with h | h <;> exact absurd h (by decide)
  | quoted => cases h; decide
  | mark =>
    obtain ⟨hspace, -, hcomment, -, hdot, -⟩ := isMark_iff.mp h.2
    exact ⟨hspace, hcomment, hdot⟩

end Token

theorem gap_head {last : Bool} {rest : List Char} (h : isGap last false (c :: rest) = true) :
    isWordChar c = false ∧ c ≠ '.' := by
  rw [isGap] at h
  split at h
  · next hc => subst hc; decide
  · simp only [isSpace, Bool.and_eq_true, Bool.or_eq_true, beq_iff_eq] at h
    obtain ⟨((rfl | rfl) | rfl) | rfl, -⟩ := h <;> decide

/-- A layout begins with a blank or a comment, or right away with its first token. -/
theorem head_of_isLaidOut (h : isLaidOut pieces ending = true) :
    ∀ c ∈ (pieces.flatMap (fun piece => piece.gap ++ piece.token.text) ++ ending).head?,
      isWordChar c = false ∧ c ≠ '.' ∨
        ∃ token rest, pieces = ⟨[], token⟩ :: rest ∧ token.isProper = true ∧ token.text.head? = some c := by
  cases pieces with
  | nil =>
    cases ending with
    | nil => rintro d ⟨⟩
    | cons c ending => exact forall_head (Or.inl (gap_head h))
  | cons piece pieces =>
    obtain ⟨gap, token⟩ := piece
    simp only [isLaidOut, Bool.and_eq_true] at h
    cases gap with
    | cons c gap => exact forall_head (Or.inl (gap_head h.1.1.1))
    | nil =>
      obtain ⟨c, more, heq, -⟩ := Token.exists_start h.1.1.2
      intro d hd
      refine Or.inr ⟨token, pieces, rfl, h.1.1.2, ?_⟩
      simp only [flatMap_cons, nil_append, heq] at hd ⊢
      exact hd

/-- A token that neither words nor numbers run into begins with something else. -/
theorem Token.not_word_of_not_runsInto {next : Token} (hproper : next.isProper = true)
    (hword : ∀ name, token.runsInto (.word name) = true) (hruns : token.runsInto next = false) :
    ∀ c ∈ next.text.head?, isWordChar c = false ∧ c ≠ '.' := by
  cases next with
  | quoted inner => exact forall_head (by decide)
  | mark d =>
    obtain ⟨-, hword, -, -, hdot, -⟩ := isMark_iff.mp hproper
    exact forall_head ⟨hword, hdot⟩
  | word name | base name | number spelling =>
    have := hword ""
    cases token <;> simp [runsInto] at hruns this

/-- What comes behind a word or a number does not go on with it. -/
theorem delimited_of_isApart (hword : ∀ name, token.runsInto (.word name) = true)
    (hapart : isApart token pieces = true)
    (hlaid : isLaidOut pieces ending = true) :
    Delimited (pieces.flatMap (fun piece => piece.gap ++ piece.token.text) ++ ending) := by
  intro c hc
  rcases head_of_isLaidOut hlaid c hc with h | ⟨next, rest, rfl, hproper, hhead⟩
  · exact h
  · exact Token.not_word_of_not_runsInto hproper hword (by simpa [isApart] using hapart) c hhead

theorem Laid.nil {text : List Char} (h : Laid [] text) : skipBlank text = [] := by
  obtain ⟨pieces, ending, hlaid, htokens, rfl⟩ := h
  cases map_eq_nil_iff.mp htokens
  have hskip := @skipBlank_gap _ _ ending [] hlaid fun _ => rfl
  simpa using hskip

theorem skipBlank_token {gap : List Char} (hgap : isGap false false gap = true) (hproper : token.isProper = true)
    (rest : List Char) : skipBlank (gap ++ (token.text ++ rest)) = token.text ++ rest := by
  obtain ⟨c, more, heq, hstart⟩ := Token.exists_start hproper
  have hsolid : Solid token.text := ⟨c, more, heq, hstart.solid.1, hstart.solid.2.1⟩
  have hskip := @skipBlank_gap _ _ gap (token.text ++ rest) hgap (by simp)
  exact hskip.trans (hsolid.append _).skipBlank

/-- The first token of a layout stands behind its gap. -/
theorem Laid.cons {tokens : List Token} {text : List Char} (h : Laid (token :: tokens) text) :
    token.isProper = true ∧
      ∃ rest, skipBlank text = token.text ++ rest ∧ token.EndsBefore rest ∧ Laid tokens rest := by
  obtain ⟨pieces, ending, hlaid, htokens, rfl⟩ := h
  cases pieces with
  | nil => cases htokens
  | cons piece pieces =>
    obtain ⟨gap, token⟩ := piece
    cases htokens
    simp only [isLaidOut, Bool.and_eq_true] at hlaid
    obtain ⟨⟨⟨hgap, hproper⟩, hapart⟩, hlaid⟩ := hlaid
    refine ⟨hproper, _, ?_, ?_, pieces, ending, hlaid, rfl, rfl⟩
    · rw [flatMap_cons, append_assoc, append_assoc]
      exact skipBlank_token hgap hproper _
    · cases token with
      | word | number => exact delimited_of_isApart (fun _ => rfl) hapart hlaid
      | base | quoted | mark => trivial

/-- A layout without what stands in front of its first token. -/
theorem Laid.skipped {tokens : List Token} {text : List Char} (h : Laid tokens text) :
    Laid tokens (skipBlank text) := by
  cases tokens with
  | nil =>
    rw [h.nil]
    exact ⟨[], [], rfl, rfl, rfl⟩
  | cons token tokens =>
    obtain ⟨pieces, ending, hlaid, htokens, rfl⟩ := h
    cases pieces with
    | nil => cases htokens
    | cons piece pieces =>
      obtain ⟨gap, token⟩ := piece
      cases htokens
      simp only [isLaidOut, Bool.and_eq_true] at hlaid
      refine ⟨⟨[], token⟩ :: pieces, ending, ?_, rfl, ?_⟩
      · simp [isLaidOut, isGap, hlaid]
      · simp only [flatMap_cons, append_assoc, nil_append,
          skipBlank_token hlaid.1.1.1 hlaid.1.1.2]

/-- No layout begins with a dot. -/
theorem Laid.head_ne {tokens : List Token} {text : List Char} (h : Laid tokens text) :
    ∀ c ∈ text.head?, c ≠ '.' := by
  obtain ⟨pieces, ending, hlaid, -, rfl⟩ := h
  intro c hc
  rcases head_of_isLaidOut hlaid c hc with h | ⟨token, rest, rfl, hproper, hhead⟩
  · exact h.2
  · obtain ⟨d, more, heq, hstart⟩ := Token.exists_start hproper
    rw [heq] at hhead
    cases hhead
    exact hstart.solid.2.2

end NodeScript.Script
