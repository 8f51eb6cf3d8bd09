import Mathlib.Data.List.Forall2
import NodeScript.Document.Reader
import NodeScript.Proofs.Document.Tokens

/-!
# Documents read back

A canonical document is one in the form that values are written in. Reading what is written of it
gives the same document, whatever mark follows.
-/

namespace NodeScript.Document

open List

/-! ## Canonical documents -/

variable {next rest text : List Char} {lines : List (List Char)} {c : Char} {name : String}
  {inner : Option (Scan Document)} {fields : List (String × Document)} {entries : List (Document × Document)}

/-- Whether a word stands for itself, also where it could begin a quoted text. -/
def isPlainWord (name : String) : Bool :=
  isWord name.toList && name.toList.head? ≠ some 'b' && name.toList.head? ≠ some 'r' &&
    (reserved? name).isNone && name ≠ "Some"

/-- Characters that numbers other than words begin with. -/
def numberStarts : List Char := ['-', '0', '1', '2', '3', '4', '5', '6', '7', '8', '9']

/-- Whether digits are a number as it is written. -/
def isPlainNumber (digits : List Char) : Bool :=
  digits = ['i', 'n', 'f'] || digits = ['N', 'a', 'N'] ||
    (digits.head?.any (· ∈ numberStarts) && digits.all isNumberPart && Numeral.isNumeral digits)

mutual

/-- Whether a document is in the form that values are written in. -/
def isCanonical : Document → Bool
  | .unit | .flag _ | .absent | .text _ => true
  | .present brackets document => brackets = .plain && document.isCanonical
  | .word name => isPlainWord name
  | .number digits => isPlainNumber digits
  | .list items => itemsCanonical items
  | .map entries => entriesCanonical entries
  | .tuple brackets name items =>
    brackets = .plain && name.all isPlainWord && !items.isEmpty && itemsCanonical items
  | .record name fields => name.all isPlainWord && !fields.isEmpty && fieldsCanonical fields
  | .byte _ | .bytes _ | .character _ => false

def itemsCanonical : List Document → Bool
  | [] => true
  | item :: rest => item.isCanonical && itemsCanonical rest

def entriesCanonical : List (Document × Document) → Bool
  | [] => true
  | (key, value) :: rest => key.isCanonical && value.isCanonical && entriesCanonical rest

def fieldsCanonical : List (String × Document) → Bool
  | [] => true
  | (name, value) :: rest => isWord name.toList && value.isCanonical && fieldsCanonical rest

end

/-! ## Collections -/

/-- A scan takes a text as a value, up to the mark that ends it. -/
structure Reads {α : Type} (scan : Scan α) (line : List Char) (a : α) : Prop where
  begun : Begun line
  takes : ∀ rest, Ended rest → scan (line ++ rest) = some (a, rest)

variable {α : Type} {scan : Scan α} {close : Char}

/-- Characters that end a collection. -/
def IsClosing (c : Char) : Prop := c ∈ [')', ']', '\x7d']

theorem closing_round : IsClosing ')' := by simp [IsClosing]

theorem closing_square : IsClosing ']' := by simp [IsClosing]

theorem closing_brace : IsClosing '\x7d' := by simp [IsClosing]

theorem IsClosing.skip (h : IsClosing close) (rest : List Char) : skip (close :: rest) = some (close :: rest) := by
  simp only [IsClosing, mem_cons, not_mem_nil, or_false] at h
  obtain rfl | rfl | rfl := h <;> exact skip_cons (by decide) (by decide) rest

theorem items_close (rest : List Char) : items close scan (close :: rest) = some ([], rest) := by
  rw [items, if_pos rfl]

theorem Begun.exists_cons {line : List Char} (h : Begun line) (hclose : IsClosing close) :
    ∃ c more, line = c :: more ∧ c ≠ close := by
  obtain ⟨c, more, rfl, -, hmark⟩ := h
  refine ⟨c, more, rfl, ?_⟩
  rintro rfl
  exact hmark (mem_cons_of_mem _ (mem_cons_of_mem _ (mem_cons_of_mem _ hclose)))

/-- An entry with a comma behind it is followed by the others. -/
theorem items_comma {line tail : List Char} {a : α} {as : List α} (hclose : IsClosing close)
    (h : Reads scan line a) (hskip : skip tail = some next) (hlength : next.length ≤ tail.length)
    (hitems : items close scan next = some (as, rest)) :
    items close scan (line ++ ',' :: tail) = some (a :: as, rest) := by
  have htakes := h.takes (',' :: tail) (ended_comma tail)
  obtain ⟨c, more, rfl, hne⟩ := h.begun.exists_cons hclose
  rw [cons_append] at htakes ⊢
  have hle : next.length ≤ (more ++ ',' :: tail).length := by
    simp only [length_append, length_cons]
    omega
  rw [items, if_neg hne, htakes]
  simp only [(ended_comma tail).skip, hskip, if_pos hle, hitems, Option.map_some]

/-- Lines with a comma behind each are read as the entries of a collection. -/
theorem items_lines (hclose : IsClosing close) (outer inner : Nat) (rest : List Char) {as : List α}
    (h : Forall₂ (Reads scan) lines as) :
    ∃ next, skip (lines.flatMap (fun line => newLine inner ++ line ++ [',']) ++ (newLine outer ++ close :: rest)) =
        some next ∧
      next.length ≤ (lines.flatMap (fun line => newLine inner ++ line ++ [',']) ++
        (newLine outer ++ close :: rest)).length ∧
      (∀ line ∈ lines.head?, ∃ tail, next = line ++ ',' :: tail) ∧
      items close scan next = some (as, rest) := by
  induction h with
  | nil =>
    refine ⟨close :: rest, ?_, by simp, by simp, items_close rest⟩
    rw [flatMap_nil, nil_append, skip_newLine, hclose.skip]
  | @cons line a lines as hline _ ih =>
    obtain ⟨next, hskip, hlength, -, hitems⟩ := ih
    generalize htail : lines.flatMap (fun line => newLine inner ++ line ++ [',']) ++
      (newLine outer ++ close :: rest) = tail at hskip hlength
    have htext : (line :: lines).flatMap (fun line => newLine inner ++ line ++ [',']) ++
        (newLine outer ++ close :: rest) = newLine inner ++ (line ++ ',' :: tail) := by
      rw [← htail]
      simp
    rw [htext, skip_newLine, (hline.begun.append _).skip]
    refine ⟨_, rfl, by simp, ?_, items_comma hclose hline hskip hlength hitems⟩
    rintro _ ⟨⟩
    exact ⟨tail, rfl⟩

/-- A block is an opening bracket and a text in which the entries are found. -/
theorem exists_block (hclose : IsClosing close) (depth : Nat) (left : Char) (rest : List Char) {as : List α}
    (h : Forall₂ (Reads scan) lines as) :
    ∃ tail next, block depth left close lines ++ rest = left :: tail ∧ skip tail = some next ∧
      (∀ line ∈ lines.head?, ∃ more, next = line ++ ',' :: more) ∧
      items close scan next = some (as, rest) := by
  cases lines with
  | nil =>
    cases h
    exact ⟨close :: rest, close :: rest, rfl, hclose.skip rest, by simp, items_close rest⟩
  | cons line lines =>
    obtain ⟨next, hskip, -, hfirst, hitems⟩ := items_lines hclose depth (depth + 1) rest h
    exact ⟨_, next, by simp [block], hskip, hfirst, hitems⟩

theorem begun_inline {as : List α} (hne : lines ≠ []) (h : Forall₂ (Reads scan) lines as) :
    Begun (inline lines) := by
  cases h with
  | nil => exact absurd rfl hne
  | @cons line a lines as hline htail =>
    cases htail with
    | nil => exact hline.begun
    | cons hsecond hothers =>
      rw [inline]
      · exact hline.begun.append _
      · simp

/-- Entries on one line, with a comma between them. -/
theorem items_inline (rest : List Char) {as : List α} (hne : lines ≠ []) (h : Forall₂ (Reads scan) lines as) :
    items ')' scan (inline lines ++ ')' :: rest) = some (as, rest) := by
  have hclose := closing_round
  induction h with
  | nil => exact absurd rfl hne
  | @cons line a lines as hline htail ih =>
    cases htail with
    | nil =>
      have htakes := hline.takes (')' :: rest) (ended_close rest)
      obtain ⟨c, more, rfl, hc⟩ := hline.begun.exists_cons hclose
      rw [cons_append] at htakes
      change items ')' scan (c :: (more ++ ')' :: rest)) = _
      rw [items, if_neg hc, htakes]
      simp only [(ended_close rest).skip]
      rfl
    | @cons second b others bs hsecond hothers =>
      have hnext := ih (by simp)
      have hbegun := (begun_inline (by simp) (.cons hsecond hothers)).append (')' :: rest)
      have htext : inline (line :: second :: others) ++ ')' :: rest =
          line ++ ',' :: (' ' :: (inline (second :: others) ++ ')' :: rest)) := by
        rw [inline]
        · simp
        · simp
      rw [htext]
      refine items_comma hclose hline ?_ (by simp) hnext
      rw [skip_blank _ rfl, hbegun.skip]

/-! ## Entries -/

variable {value : Scan Document} {line : List Char} {document : Document}

theorem isBlank_of_isWordStart (h : isWordStart c = true) : isBlank c = false := by
  have hblanks : ∀ n ∈ [0x9, 0xa, 0xb, 0xc, 0xd, 0x20, 0x85, 0x200e, 0x200f, 0x2028, 0x2029],
      isWordStart (Char.ofNat n) = false := by
    decide +kernel
  by_contra hblank
  rw [Bool.not_eq_false] at hblank
  have hmem : c.toNat ∈ [0x9, 0xa, 0xb, 0xc, 0xd, 0x20, 0x85, 0x200e, 0x200f, 0x2028, 0x2029] := by
    simp only [isBlank, Bool.or_eq_true, Bool.and_eq_true, decide_eq_true_eq] at hblank
    simp only [mem_cons, not_mem_nil, or_false]
    omega
  have hstart := hblanks _ hmem
  rw [Char.ofNat_toNat, h] at hstart
  cases hstart

theorem begun_word {name : List Char} (h : isWord name = true) : Begun name := by
  cases name with
  | nil => cases h
  | cons c rest =>
    rw [isWord, Bool.and_eq_true] at h
    refine ⟨c, rest, rfl, isBlank_of_isWordStart h.1, ?_⟩
    intro hmem
    simp only [marks, mem_cons, not_mem_nil, or_false] at hmem
    obtain rfl | rfl | rfl | rfl | rfl | rfl := hmem <;> exact absurd h.1 (by decide)

/-- What stands behind a colon is read as it would be without it. -/
theorem Reads.behind_colon (h : Reads value line document) (hrest : Ended rest) :
    (skip (' ' :: (line ++ rest))).bind value = some (document, rest) := by
  rw [skip_blank _ rfl, (h.begun.append rest).skip, Option.bind_some, h.takes rest hrest]

theorem Reads.field (h : Reads value line document) (hname : isWord name.toList = true) :
    Reads (namedField value) (name.toList ++ ':' :: ' ' :: line) (name, document) where
  begun := (begun_word hname).append _
  takes rest hrest := by
    have hvalue := h.behind_colon hrest
    simp only [namedField, append_assoc, cons_append, Option.bind_eq_bind,
      readWord_append hname (Or.inl (ended_colon _)), Option.bind_some, (ended_colon _).skip]
    rw [← Option.bind_assoc, hvalue]
    rfl

theorem Reads.entry (h : Reads value line document) {key : List Char} {keyDocument : Document}
    (hkey : Reads value key keyDocument) :
    Reads (mapEntry value) (key ++ ':' :: ' ' :: line) (keyDocument, document) where
  begun := hkey.begun.append _
  takes rest hrest := by
    have hvalue := h.behind_colon hrest
    simp only [mapEntry, append_assoc, cons_append, Option.bind_eq_bind,
      hkey.takes _ (ended_colon _), Option.bind_some, (ended_colon _).skip]
    rw [← Option.bind_assoc, hvalue]
    rfl

theorem Reads.entryOrGap (h : Reads value line document) : Reads (entryOrGap value) line (some document) where
  begun := h.begun
  takes rest hrest := by
    have htakes := h.takes rest hrest
    obtain ⟨c, more, rfl, -, hmark⟩ := h.begun
    rw [cons_append] at htakes ⊢
    unfold Document.entryOrGap
    split
    next heq => exact absurd (cons.inj heq).1 (fun hc => hmark (by simp [marks, hc]))
    next => rw [htakes, Option.map_some]

theorem settled?_map_some (documents : List Document) :
    settled? (documents.map some) = some (.plain, documents) := by
  have hall : (documents.map some).mapM id = some documents := by
    induction documents with
    | nil => rfl
    | cons document documents ih =>
      rw [map_cons, mapM_cons, ih]
      rfl
  unfold settled?
  split
  next h =>
    rw [getLast?_map, Option.map_eq_some_iff] at h
    obtain ⟨document, -, hnone⟩ := h
    cases hnone
  next => rw [hall, Option.map_some]

/-! ## Brackets -/

theorem bracketed_record {name : Option String} (hskip : skip text = some next) (hrecord : startsRecord next = true)
    (hitems : items ')' (namedField value) next = some (fields, rest)) :
    bracketed value name text = some (.record name fields, rest) := by
  simp [bracketed, hskip, hrecord, hitems]

theorem bracketed_tuple {name : Option String} {documents : List Document}
    (hskip : skip text = some text) (htuple : startsRecord text = false)
    (hitems : items ')' (entryOrGap value) text = some (documents.map some, rest)) :
    bracketed value name text = some (.tuple .plain name documents, rest) := by
  simp [bracketed, hskip, htuple, hitems, settled?_map_some]

/-! ## Words where a value may stand -/

theorem startsRecord_symbol (h : isWordStart c = false) (rest : List Char) : startsRecord (c :: rest) = false := by
  have hword : readWord (c :: rest) = none := by
    unfold readWord
    split
    next heq =>
      obtain ⟨rfl, -⟩ := cons.inj heq
      exact absurd h (by decide)
    next heq =>
      obtain ⟨rfl, rfl⟩ := cons.inj heq
      rw [h]
      rfl
    next => rfl
  rw [startsRecord, hword]

theorem startsRecord_word (hname : isWord name.toList = true)
    (hrest : ∃ c more, rest = c :: more ∧ (c = '(' ∨ c = ',' ∨ c = ')')) :
    startsRecord (name.toList ++ rest) = false := by
  obtain ⟨c, more, rfl, hc⟩ := hrest
  have hword : readWord (name.toList ++ c :: more) = some (name, c :: more) := by
    apply readWord_append hname
    obtain rfl | rfl | rfl := hc
    · exact Or.inr ⟨more, rfl⟩
    · exact Or.inl (ended_comma more)
    · exact Or.inl (ended_close more)
  have hskip : skip (c :: more) = some (c :: more) := by
    obtain rfl | rfl | rfl := hc <;> exact skip_cons (by decide) (by decide) more
  rw [startsRecord, hword]
  simp only [hskip]
  obtain rfl | rfl | rfl := hc <;> rfl

/-- A word is looked up first, and then what stands behind it counts. -/
theorem value_word
    (hname : isWord name.toList = true) (hb : name.toList.head? ≠ some 'b') (hr : name.toList.head? ≠ some 'r')
    (hrest : Ended rest ∨ ∃ more, rest = '(' :: more) :
    Document.value {} inner (name.toList ++ rest) =
      if name = "Some" then presence {} inner rest
      else
        match reserved? name with
        | some document => some (document, rest)
        | none => named inner name rest := by
  have hword := readWord_append hname hrest
  cases hchars : name.toList with
  | nil =>
    rw [hchars] at hname
    cases hname
  | cons c part =>
    rw [hchars] at hname hb hr hword
    rw [isWord, Bool.and_eq_true] at hname
    obtain ⟨hstart, -⟩ := hname
    rw [cons_append] at hword ⊢
    have hcb : c ≠ 'b' := fun h => hb (congrArg some h)
    have hcr : c ≠ 'r' := fun h => hr (congrArg some h)
    have hquote : c ≠ '"' := ne_of_test hstart rfl
    have htick : c ≠ '\'' := ne_of_test hstart rfl
    have hsquare : c ≠ '[' := ne_of_test hstart rfl
    have hbrace : c ≠ '\x7b' := ne_of_test hstart rfl
    have hround : c ≠ '(' := ne_of_test hstart rfl
    rw [Document.value.eq_def]
    split
    case h_14 heq =>
      obtain ⟨rfl, rfl⟩ := cons.inj heq
      rw [if_pos hstart, hword]
      rfl
    all_goals simp_all

theorem isPlainWord_iff : isPlainWord name = true ↔ isWord name.toList = true ∧
    name.toList.head? ≠ some 'b' ∧ name.toList.head? ≠ some 'r' ∧ reserved? name = none ∧ name ≠ "Some" := by
  simp [isPlainWord, and_assoc]

theorem value_plainWord (h : isPlainWord name = true) (hrest : Ended rest ∨ ∃ more, rest = '(' :: more) :
    Document.value {} inner (name.toList ++ rest) = named inner name rest := by
  obtain ⟨hname, hb, hr, hreserved, hsome⟩ := isPlainWord_iff.mp h
  rw [value_word hname hb hr hrest, if_neg hsome, hreserved]

/-! ## Values -/

section Values

variable {inner : Option (Scan Document)}

theorem reads_unit : Reads (Document.value {} inner) ['(', ')'] .unit :=
  ⟨⟨_, _, rfl, by decide, by decide⟩, fun _ _ => rfl⟩

theorem reads_text (text : String) :
    Reads (Document.value {} inner) (Text.quotedChars true text.toList) (.text text) where
  begun := ⟨_, _, rfl, by decide, by decide⟩
  takes rest _ := by
    have htext : Text.quotedChars true text.toList ++ rest =
        '"' :: (text.toList.flatMap (Text.escapeChar true) ++ '"' :: rest) := by
      simp [Text.quotedChars]
    rw [htext]
    exact quotedText_append text rest

/-- Words with a meaning of their own. -/
theorem reads_reserved (hname : isWord name.toList = true)
    (hb : name.toList.head? ≠ some 'b') (hr : name.toList.head? ≠ some 'r') (hsome : name ≠ "Some")
    (h : reserved? name = some document) : Reads (Document.value {} inner) name.toList document where
  begun := begun_word hname
  takes rest hrest := by rw [value_word hname hb hr (Or.inl hrest), if_neg hsome, h]

theorem reads_word (h : isPlainWord name = true) :
    Reads (Document.value {} inner) name.toList (.word name) where
  begun := begun_word (isPlainWord_iff.mp h).1
  takes rest hrest := by
    rw [value_plainWord h (Or.inl hrest), named, hrest.skip]
    simp only [Option.bind_eq_bind, Option.bind_some]
    split
    next more => obtain h | h | h := hrest '(' rfl <;> exact absurd h (by decide)
    next => rfl

theorem mem_numberStarts (h : c = '-' ∨ c.isDigit = true) : c ∈ numberStarts := by
  rcases h with rfl | h
  · decide
  · have hrange : 48 ≤ c.toNat ∧ c.toNat ≤ 57 := by
      simp only [Char.isDigit, Bool.and_eq_true, decide_eq_true_eq, ge_iff_le, UInt32.le_iff_toNat_le] at h
      exact h
    have hall : ∀ n ∈ range' 48 10, Char.ofNat n ∈ numberStarts := by decide
    rw [← Char.ofNat_toNat c]
    exact hall _ (mem_range'_1.mpr ⟨hrange.1, by omega⟩)

theorem value_numeral (h : c ∈ numberStarts) (rest : List Char) :
    Document.value {} inner (c :: rest) = readNumber (c :: rest) := by
  simp only [numberStarts, mem_cons, not_mem_nil, or_false] at h
  obtain rfl | rfl | rfl | rfl | rfl | rfl | rfl | rfl | rfl | rfl | rfl := h <;> rfl

theorem reads_number {digits : List Char} (h : isPlainNumber digits = true) :
    Reads (Document.value {} inner) digits (.number digits) := by
  simp only [isPlainNumber, Bool.or_eq_true, Bool.and_eq_true, decide_eq_true_eq, all_eq_true] at h
  obtain (rfl | rfl) | ⟨⟨hhead, hparts⟩, hnumeral⟩ := h
  · exact @reads_reserved "inf" _ inner (by decide) (by decide) (by decide) (by decide) rfl
  · exact @reads_reserved "NaN" _ inner (by decide) (by decide) (by decide) (by decide) rfl
  · cases digits with
    | nil => cases hhead
    | cons c more =>
      have hc : c ∈ numberStarts := by simpa using hhead
      have hbegun : (numberStarts.all fun c => !isBlank c && !marks.contains c) = true := by decide
      refine ⟨⟨c, more, rfl, by simpa using all_eq_true.mp hbegun c hc⟩, fun rest hrest => ?_⟩
      rw [cons_append, value_numeral hc, ← cons_append, readNumber_append hnumeral hparts hrest]

end Values

/-! ## Documents that hold others -/

section Collections

variable {depth : Nat} {lines : List (List Char)} {documents : List Document} {name : Option String}

theorem exists_block_eq (depth : Nat) (left right : Char) (lines : List (List Char)) :
    ∃ tail, block depth left right lines = left :: tail := by
  cases lines with
  | nil => exact ⟨_, rfl⟩
  | cons line lines => exact ⟨_, rfl⟩

theorem begun_block {left right : Char} (hblank : isBlank left = false)
    (hmark : left ∉ marks) : Begun (block depth left right lines) := by
  obtain ⟨tail, htext⟩ := exists_block_eq depth left right lines
  exact ⟨left, tail, htext, hblank, hmark⟩

theorem reads_list (h : Forall₂ (Reads value) lines documents) :
    Reads (Document.value {} (some value)) (block depth '[' ']' lines) (.list documents) where
  begun := begun_block (by decide) (by decide)
  takes rest _ := by
    obtain ⟨tail, next, htext, hskip, -, hitems⟩ := exists_block closing_square depth '[' rest h
    rw [htext]
    change ((skip tail).bind fun next => (items ']' value next).bind _) = _
    rw [hskip, Option.bind_some, hitems]
    rfl

theorem reads_map (h : Forall₂ (Reads (mapEntry value)) lines entries) :
    Reads (Document.value {} (some value)) (block depth '\x7b' '\x7d' lines) (.map entries) where
  begun := begun_block (by decide) (by decide)
  takes rest _ := by
    obtain ⟨tail, next, htext, hskip, -, hitems⟩ := exists_block closing_brace depth '\x7b' rest h
    rw [htext]
    change ((skip tail).bind fun next => (items '\x7d' (mapEntry value) next).bind _) = _
    rw [hskip, Option.bind_some, hitems]
    rfl

/-- What stands in round brackets, with or without a name in front. -/
theorem reads_bracketed {tail : List Char} (hname : name.all isPlainWord = true) (hc : c ≠ ')')
    (htail : ∀ rest, bracketed value name (c :: tail ++ rest) = some (document, rest)) :
    Reads (Document.value {} (some value)) (nameChars name ++ '(' :: c :: tail) document := by
  cases name with
  | none =>
    refine ⟨⟨'(', c :: tail, rfl, by decide, by decide⟩, fun rest _ => ?_⟩
    change Document.value {} (some value) ('(' :: (c :: tail ++ rest)) = _
    rw [Document.value]
    · exact htail rest
    · intro more heq
      exact hc (cons.inj heq).1
  | some name =>
    rw [Option.all_some] at hname
    refine ⟨(begun_word (isPlainWord_iff.mp hname).1).append _, fun rest _ => ?_⟩
    rw [nameChars, append_assoc, cons_append, value_plainWord hname (Or.inr ⟨_, rfl⟩), named,
      skip_cons (by decide) (by decide)]
    exact htail rest

theorem reads_record (hname : name.all isPlainWord = true) {first : String} (hfirst : isWord first.toList = true)
    (h : Forall₂ (Reads (namedField value)) ((first.toList ++ ':' :: line) :: lines) fields) :
    Reads (Document.value {} (some value))
      (nameChars name ++ block depth '(' ')' ((first.toList ++ ':' :: line) :: lines))
      (.record name fields) := by
  refine reads_bracketed hname (by decide) fun rest => ?_
  obtain ⟨tail, next, htext, hskip, hnext, hitems⟩ := exists_block closing_round depth '(' rest h
  obtain ⟨more, rfl⟩ := hnext _ rfl
  have hrecord : startsRecord ((first.toList ++ ':' :: line) ++ ',' :: more) = true := by
    rw [append_assoc, cons_append, startsRecord, readWord_append hfirst (Or.inl (ended_colon _))]
    simp only [(ended_colon _).skip]
  refine bracketed_record ?_ hrecord hitems
  rw [← hskip]
  exact congrArg skip (cons.inj htext).2

theorem reads_tuple (hname : name.all isPlainWord = true) (hne : lines ≠ [])
    (h : Forall₂ (Reads value) lines documents)
    (htuple : ∀ rest, startsRecord (inline lines ++ ')' :: rest) = false) :
    Reads (Document.value {} (some value)) (nameChars name ++ '(' :: (inline lines ++ [')']))
      (.tuple .plain name documents) := by
  have hentries : Forall₂ (Reads (entryOrGap value)) lines (documents.map some) := by
    rw [forall₂_map_right_iff]
    exact h.imp fun _ _ hline => hline.entryOrGap
  have hbegun := begun_inline hne h
  obtain ⟨c, more, hinline, hc⟩ := hbegun.exists_cons closing_round
  rw [hinline, cons_append]
  refine reads_bracketed hname hc fun rest => ?_
  have htext : c :: (more ++ [')']) ++ rest = inline lines ++ ')' :: rest := by simp [hinline]
  rw [htext]
  exact bracketed_tuple (hbegun.append _).skip (htuple rest) (items_inline rest hne hentries)

theorem reads_present (h : Reads value line document) :
    Reads (Document.value {} (some value)) ("Some(".toList ++ line ++ [')']) (.present .plain document) := by
  have hword : isWord "Some".toList = true := by decide
  have hchars : "Some(".toList ++ line ++ [')'] = "Some".toList ++ '(' :: (line ++ [')']) := by simp
  rw [hchars]
  refine ⟨(begun_word hword).append _, fun rest _ => ?_⟩
  have hitems : items ')' value (line ++ ')' :: rest) = some ([document], rest) :=
    items_inline rest (by simp) (.cons h .nil)
  have htext : "Some".toList ++ '(' :: (line ++ [')']) ++ rest =
      "Some".toList ++ '(' :: (line ++ ')' :: rest) := by simp
  rw [htext, value_word hword (by decide) (by decide) (Or.inr ⟨_, rfl⟩), if_pos rfl, presence,
    skip_cons (by decide) (by decide)]
  change strictContent value (line ++ ')' :: rest) = _
  rw [strictContent, (h.begun.append _).skip]
  simp [hitems]

end Collections

/-! ## Canonical documents read back -/

theorem startsRecord_named {name : Option String} (hname : name.all isPlainWord = true) (more : List Char) :
    startsRecord (nameChars name ++ '(' :: more) = false := by
  cases name with
  | none => exact startsRecord_symbol (by decide) _
  | some name =>
    rw [Option.all_some] at hname
    exact startsRecord_word (isPlainWord_iff.mp hname).1 ⟨'(', more, rfl, Or.inl rfl⟩

/-- What a tuple begins with is not taken for the first field of a record. -/
theorem startsRecord_write (h : document.isCanonical = true) (depth : Nat)
    (hrest : ∃ c more, rest = c :: more ∧ (c = ',' ∨ c = ')')) :
    startsRecord (document.write depth ++ rest) = false := by
  have hword : ∀ {name : String}, isWord name.toList = true → startsRecord (name.toList ++ rest) = false := by
    intro name hname
    obtain ⟨c, more, rfl, hc⟩ := hrest
    exact startsRecord_word hname ⟨c, more, rfl, Or.inr hc⟩
  cases document with
  | unit => exact startsRecord_symbol (by decide) _
  | flag value =>
    cases value with
    | true => exact @hword "true" (by decide)
    | false => exact @hword "false" (by decide)
  | absent => exact @hword "None" (by decide)
  | present brackets document =>
    simp only [isCanonical, Bool.and_eq_true, decide_eq_true_eq] at h
    rw [h.1, write, if_neg (by decide)]
    have htext : "Some(".toList ++ document.write depth ++ [')'] ++ rest =
        "Some".toList ++ '(' :: (document.write depth ++ ')' :: rest) := by simp
    rw [htext]
    exact startsRecord_word (by decide) ⟨'(', _, rfl, Or.inl rfl⟩
  | word name => exact hword (isPlainWord_iff.mp h).1
  | number digits =>
    simp only [isCanonical, isPlainNumber, Bool.or_eq_true, Bool.and_eq_true, decide_eq_true_eq] at h
    obtain (rfl | rfl) | ⟨⟨hhead, -⟩, -⟩ := h
    · exact @hword "inf" (by decide)
    · exact @hword "NaN" (by decide)
    · cases digits with
      | nil => cases hhead
      | cons c more =>
        have hstarts : (numberStarts.all fun c => !isWordStart c) = true := by decide
        have hc : c ∈ numberStarts := by simpa using hhead
        exact startsRecord_symbol (by simpa using all_eq_true.mp hstarts c hc) _
  | byte value => cases h
  | bytes values => cases h
  | text value => exact startsRecord_symbol (by decide) _
  | character value => cases h
  | list items =>
    obtain ⟨tail, htext⟩ := exists_block_eq depth '[' ']' (writeItems (depth + 1) items)
    rw [write, htext]
    exact startsRecord_symbol (by decide) _
  | map entries =>
    obtain ⟨tail, htext⟩ := exists_block_eq depth '\x7b' '\x7d' (writeEntries (depth + 1) entries)
    rw [write, htext]
    exact startsRecord_symbol (by decide) _
  | tuple brackets name items =>
    simp only [isCanonical, Bool.and_eq_true] at h
    rw [write, append_assoc, append_assoc, cons_append]
    exact startsRecord_named h.1.1.2 _
  | record name fields =>
    simp only [isCanonical, Bool.and_eq_true] at h
    obtain ⟨tail, htext⟩ := exists_block_eq depth '(' ')' (writeFields (depth + 1) fields)
    rw [write, htext, append_assoc]
    exact startsRecord_named h.1.1 _

theorem startsRecord_inline {items : List Document} (canonical : itemsCanonical items = true) (hne : items ≠ [])
    (depth : Nat) (rest : List Char) : startsRecord (inline (writeItems depth items) ++ ')' :: rest) = false := by
  cases items with
  | nil => exact absurd rfl hne
  | cons item others =>
    simp only [itemsCanonical, Bool.and_eq_true] at canonical
    cases others with
    | nil => exact startsRecord_write canonical.1 depth ⟨')', rest, rfl, Or.inr rfl⟩
    | cons second others =>
      simp only [writeItems, inline, append_assoc, cons_append]
      exact startsRecord_write canonical.1 depth ⟨',', _, rfl, Or.inl rfl⟩

mutual

/-- What is written of a canonical document is read as the document. -/
theorem reads_write {document : Document} (canonical : document.isCanonical = true) {n : Nat}
    (shallow : document.levels ≤ n) (depth : Nat) : Reads (nested {} n) (document.write depth) document := by
  obtain ⟨inner, hinner⟩ : ∃ inner, nested {} n = Document.value {} inner := by
    cases n with
    | zero => exact ⟨_, rfl⟩
    | succ n => exact ⟨_, rfl⟩
  cases document with
  | unit => exact hinner ▸ reads_unit
  | flag value =>
    rw [hinner]
    cases value with
    | true => exact @reads_reserved "true" _ inner (by decide) (by decide) (by decide) (by decide) rfl
    | false => exact @reads_reserved "false" _ inner (by decide) (by decide) (by decide) (by decide) rfl
  | absent => exact hinner ▸ @reads_reserved "None" _ inner (by decide) (by decide) (by decide) (by decide) rfl
  | present brackets document =>
    simp only [isCanonical, Bool.and_eq_true, decide_eq_true_eq] at canonical
    obtain ⟨rfl, canonical⟩ := canonical
    simp only [levels] at shallow
    obtain ⟨n, rfl⟩ : ∃ m, n = m + 1 := ⟨n - 1, by omega⟩
    rw [write, if_neg (by decide)]
    exact reads_present (reads_write canonical (by omega) depth)
  | word name => exact hinner ▸ reads_word canonical
  | number digits => exact hinner ▸ reads_number canonical
  | byte value => cases canonical
  | bytes values => cases canonical
  | text value => exact hinner ▸ reads_text value
  | character value => cases canonical
  | list items =>
    simp only [levels] at shallow
    obtain ⟨n, rfl⟩ : ∃ m, n = m + 1 := ⟨n - 1, by omega⟩
    exact reads_list (reads_writeItems canonical (by omega) (depth + 1))
  | map entries =>
    simp only [levels] at shallow
    obtain ⟨n, rfl⟩ : ∃ m, n = m + 1 := ⟨n - 1, by omega⟩
    exact reads_map (reads_writeEntries canonical (by omega) (depth + 1))
  | tuple brackets name items =>
    simp only [isCanonical, Bool.and_eq_true, decide_eq_true_eq, Bool.not_eq_true'] at canonical
    obtain ⟨⟨⟨rfl, hname⟩, hne⟩, canonical⟩ := canonical
    simp only [levels] at shallow
    obtain ⟨n, rfl⟩ : ∃ m, n = m + 1 := ⟨n - 1, by omega⟩
    have hitems := reads_writeItems canonical (n := n) (by omega) depth
    rw [isEmpty_eq_false_iff] at hne
    have hlines : writeItems depth items ≠ [] := by
      intro hnil
      rw [hnil] at hitems
      cases hitems
      exact hne rfl
    rw [write, if_neg (by decide), append_assoc, cons_append]
    exact reads_tuple hname hlines hitems fun rest => startsRecord_inline canonical hne depth rest
  | record name fields =>
    simp only [isCanonical, Bool.and_eq_true, Bool.not_eq_true'] at canonical
    obtain ⟨⟨hname, hne⟩, canonical⟩ := canonical
    simp only [levels] at shallow
    obtain ⟨n, rfl⟩ : ∃ m, n = m + 1 := ⟨n - 1, by omega⟩
    have hfields := reads_writeFields canonical (n := n) (by omega) (depth + 1)
    cases fields with
    | nil => cases hne
    | cons field rest =>
      simp only [fieldsCanonical, Bool.and_eq_true] at canonical
      exact reads_record hname canonical.1.1 hfields

theorem reads_writeItems {items : List Document} (canonical : itemsCanonical items = true) {n : Nat}
    (shallow : itemLevels items ≤ n) (depth : Nat) :
    Forall₂ (Reads (nested {} n)) (writeItems depth items) items := by
  cases items with
  | nil => exact .nil
  | cons item rest =>
    simp only [itemsCanonical, Bool.and_eq_true] at canonical
    simp only [itemLevels] at shallow
    exact .cons (reads_write canonical.1 (by omega) depth) (reads_writeItems canonical.2 (by omega) depth)

theorem reads_writeEntries {entries : List (Document × Document)} (canonical : entriesCanonical entries = true)
    {n : Nat} (shallow : entryLevels entries ≤ n) (depth : Nat) :
    Forall₂ (Reads (mapEntry (nested {} n))) (writeEntries depth entries) entries := by
  cases entries with
  | nil => exact .nil
  | cons entry rest =>
    obtain ⟨key, value⟩ := entry
    simp only [entriesCanonical, Bool.and_eq_true] at canonical
    simp only [entryLevels] at shallow
    exact .cons ((reads_write canonical.1.2 (by omega) depth).entry (reads_write canonical.1.1 (by omega) depth))
      (reads_writeEntries canonical.2 (by omega) depth)

theorem reads_writeFields {fields : List (String × Document)} (canonical : fieldsCanonical fields = true)
    {n : Nat} (shallow : fieldLevels fields ≤ n) (depth : Nat) :
    Forall₂ (Reads (namedField (nested {} n))) (writeFields depth fields) fields := by
  cases fields with
  | nil => exact .nil
  | cons field rest =>
    obtain ⟨name, value⟩ := field
    simp only [fieldsCanonical, Bool.and_eq_true] at canonical
    simp only [fieldLevels] at shallow
    exact .cons ((reads_write canonical.1.2 (by omega) depth).field canonical.1.1)
      (reads_writeFields canonical.2 (by omega) depth)

end

/-- The text of a canonical document is read as the document, with no extension switched on. -/
theorem parse?_render (canonical : document.isCanonical = true) (shallow : document.levels ≤ Reading.depthLimit) :
    parse? document.render = some ({}, document) := by
  have hreads := reads_write canonical shallow 0
  have htakes := hreads.takes [] ended_nil
  rw [append_nil] at htakes
  have hattributes : attributes {} (document.write 0) = some ({}, document.write 0) := by
    obtain ⟨c, rest, htext, -, hmark⟩ := hreads.begun
    rw [htext, attributes]
    intro more heq
    exact hmark (by simp [marks, (cons.inj heq).1])
  simp [parse?, render, hreads.begun.skip, hattributes, htakes, ended_nil.skip]

end NodeScript.Document
