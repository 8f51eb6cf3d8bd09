import Mathlib.Data.List.Basic
import NodeScript.Script.Grammar

/-!
# Readers on known texts

What the readers of tokens take off a text whose beginning is known. All of them skip leading
blanks, so a statement about a token is made for every input that starts with it behind blanks.
-/

namespace NodeScript.Script

open List Reader

variable {α β : Type} {text word : String} {input rest : List Char} {c : Char}

/-- What the first character of a text satisfies. -/
theorem forall_head {p : Char → Prop} (h : p c) : ∀ d ∈ (c :: rest).head?, p d := by
  rintro d ⟨⟩
  exact h

/-! ## Running readers -/

/-- The reader takes `a` off the input and leaves `rest`. -/
def Takes (reader : Reader α) (input : List Char) (a : α) (rest : List Char) : Prop :=
  reader input = .ok (a, rest)

/-- The reader takes nothing. -/
def Fails (reader : Reader α) (input : List Char) : Prop := ∃ place, reader input = .error place

/-- Two readers in a row: the second reads what the first leaves. -/
theorem Reader.bind_apply (reader : Reader α) (next : α → Reader β) (input : List Char) :
    (reader >>= next) input = match reader input with
      | .ok (a, rest) => next a rest
      | .error place => .error place := rfl

namespace Takes

variable {reader : Reader α} {next : α → Reader β} {input between rest : List Char} {a : α} {b : β}

theorem pure (a : α) (input : List Char) : Takes (Pure.pure a) input a input := rfl

theorem bind (first : Takes reader input a between) (second : Takes (next a) between b rest) :
    Takes (reader >>= next) input b rest := by
  unfold Takes at *
  rw [Reader.bind_apply, first]
  exact second

theorem orElse_left {other : Reader α} (h : Takes reader input a rest) :
    Takes (Reader.orElse reader other) input a rest := by
  unfold Takes Reader.orElse at *
  rw [h]

theorem orElse_right {other : Reader α} (fails : Fails reader input)
    (h : Takes other input a rest) : Takes (Reader.orElse reader other) input a rest := by
  obtain ⟨place, hplace⟩ := fails
  unfold Takes Reader.orElse at *
  rw [hplace]
  exact h

theorem optional_some (h : Takes reader input a rest) :
    Takes (Reader.optional reader) input (some a) rest := by
  unfold Takes Reader.optional at *
  rw [h]

theorem optional_none (fails : Fails reader input) :
    Takes (Reader.optional reader) input none input := by
  obtain ⟨place, hplace⟩ := fails
  unfold Takes Reader.optional
  rw [hplace]

theorem convert {f : α → Option β} (h : Takes reader input a rest) (hf : f a = some b) :
    Takes (Reader.convert reader f) input b rest := by
  unfold Takes Reader.convert at *
  simp only [h, hf]

theorem token {text : List Char} (hinput : skipBlank input = text) (h : Takes reader text a rest) :
    Takes (token reader) input a rest := by
  subst hinput
  exact h

end Takes

namespace Fails

variable {reader : Reader α} {next : α → Reader β} {input between : List Char} {a : α}

theorem bind_first (fails : Fails reader input) : Fails (reader >>= next) input := by
  obtain ⟨place, hplace⟩ := fails
  refine ⟨place, ?_⟩
  rw [Reader.bind_apply, hplace]

theorem bind_second (first : Takes reader input a between) (fails : Fails (next a) between) :
    Fails (reader >>= next) input := by
  obtain ⟨place, hplace⟩ := fails
  refine ⟨place, ?_⟩
  rw [Reader.bind_apply, first]
  exact hplace

theorem orElse {first second : Reader α} (h : Fails first input) (h' : Fails second input) :
    Fails (Reader.orElse first second) input := by
  obtain ⟨place, hplace⟩ := h
  obtain ⟨place', hplace'⟩ := h'
  exact ⟨place', by unfold Reader.orElse; rw [hplace]; exact hplace'⟩

theorem convert {f : α → Option β} (fails : Fails reader input) :
    Fails (Reader.convert reader f) input := by
  obtain ⟨place, hplace⟩ := fails
  exact ⟨place, by unfold Reader.convert; rw [hplace]⟩

theorem convert_none {f : α → Option β} (h : Takes reader input a between) (hf : f a = none) :
    Fails (Reader.convert reader f) input :=
  ⟨input, by unfold Reader.convert; rw [show reader input = _ from h]; simp [hf]⟩

theorem token (h : Fails reader (skipBlank input)) : Fails (token reader) input := h

end Fails

/-! ## Blanks -/

/-- A text that starts with a token. -/
def Solid (text : List Char) : Prop := ∃ c rest, text = c :: rest ∧ isSpace c = false ∧ c ≠ '#'

theorem Solid.append {text : List Char} (h : Solid text) (rest : List Char) : Solid (text ++ rest) := by
  obtain ⟨c, more, rfl, hspace, hcomment⟩ := h
  exact ⟨c, more ++ rest, rfl, hspace, hcomment⟩

@[simp] theorem skipBlank_nil : skipBlank [] = [] := by rw [skipBlank]

@[simp] theorem skipBlank_space (rest : List Char) : skipBlank (' ' :: rest) = skipBlank rest := by
  rw [skipBlank]
  rfl

@[simp] theorem skipBlank_newline (rest : List Char) : skipBlank ('\n' :: rest) = skipBlank rest := by
  rw [skipBlank]
  rfl

theorem Solid.skipBlank {text : List Char} (h : Solid text) : skipBlank text = text := by
  obtain ⟨c, rest, rfl, hspace, hcomment⟩ := h
  rw [Script.skipBlank, if_neg (by simp [hspace]), if_neg hcomment]

theorem solid_of_cons (rest : List Char) (h : (isSpace c || c == '#') = false) : Solid (c :: rest) := by
  simp only [Bool.or_eq_false_iff, beq_eq_false_iff_ne] at h
  exact ⟨c, rest, rfl, h⟩

theorem skipBlank_skipBlank (text : List Char) : skipBlank (skipBlank text) = skipBlank text := by
  fun_induction skipBlank text with
  | case1 => simp
  | case2 c rest hspace ih => exact ih
  | case3 rest after hafter hspace ih => exact ih
  | case4 rest hafter hspace =>
    rw [skipBlank, if_neg hspace, if_pos rfl]
    split
    next after hafter' => rw [hafter] at hafter'; cases hafter'
    next => rfl
  | case5 c rest hspace hcomment => exact Solid.skipBlank ⟨c, rest, rfl, by simpa using hspace, hcomment⟩

/-! ## Symbols -/

theorem char_takes (c : Char) (rest : List Char) : Takes (char c) (c :: rest) () rest := by
  simp [Takes, char]

theorem char_fails (h : ∀ d ∈ input.head?, d ≠ c) : Fails (char c) input := by
  cases input with
  | nil => exact ⟨[], rfl⟩
  | cons d rest =>
    have hne : d ≠ c := h d rfl
    exact ⟨d :: rest, by simp [char, hne]⟩

theorem symbol_takes (h : skipBlank input = c :: rest) : Takes (symbol c) input () rest :=
  Takes.token h (char_takes c rest)

theorem symbol_takes_cons (c : Char) (rest : List Char) (h : (isSpace c || c == '#') = false) :
    Takes (symbol c) (c :: rest) () rest :=
  symbol_takes (solid_of_cons rest h).skipBlank

theorem symbol_takes_space (c : Char) (rest : List Char) (h : (isSpace c || c == '#') = false) :
    Takes (symbol c) (' ' :: c :: rest) () rest :=
  symbol_takes ((skipBlank_space _).trans (solid_of_cons rest h).skipBlank)

theorem symbol_fails (h : ∀ d ∈ (skipBlank input).head?, d ≠ c) : Fails (symbol c) input :=
  Fails.token (char_fails h)

/-! ## Identifiers -/

/-- A letter or `_`, then letters, digits and `_`. -/
def isIdentifier (text : String) : Bool :=
  match text.toList with
  | [] => false
  | c :: rest => isLetter c && rest.all isWordChar

/-- The text ends here, as far as words and numbers are concerned. -/
def Delimited (rest : List Char) : Prop := ∀ c ∈ rest.head?, isWordChar c = false ∧ c ≠ '.'

theorem isWordChar_of_isLetter (h : isLetter c = true) : isWordChar c = true := by
  unfold isLetter at h
  unfold isWordChar Char.isAlphanum
  simp only [Bool.or_eq_true] at h ⊢
  exact h.imp_left Or.inl

theorem exists_of_isIdentifier (h : isIdentifier text = true) :
    ∃ c rest, text.toList = c :: rest ∧ isLetter c = true ∧ ∀ d ∈ rest, isWordChar d = true := by
  unfold isIdentifier at h
  split at h
  · cases h
  next c rest heq =>
    simp only [Bool.and_eq_true, all_eq_true] at h
    exact ⟨c, rest, heq, h.1, h.2⟩

theorem solid_of_isLetter (h : isLetter c = true) (rest : List Char) :
    Solid (c :: rest) := by
  refine ⟨c, rest, rfl, ?_, ?_⟩
  · rw [← Bool.not_eq_true]
    intro hspace
    simp only [isSpace, Bool.or_eq_true, beq_iff_eq] at hspace
    obtain ((rfl | rfl) | rfl) | rfl := hspace <;> exact absurd h (by decide)
  · rintro rfl
    exact absurd h (by decide)

theorem solid_of_isIdentifier (h : isIdentifier text = true) : Solid text.toList := by
  obtain ⟨c, rest, heq, hletter, -⟩ := exists_of_isIdentifier h
  rw [heq]
  exact solid_of_isLetter hletter rest

theorem skipBlank_word (rest : List Char) (h : isIdentifier word = true) :
    skipBlank (word.toList ++ rest) = word.toList ++ rest :=
  ((solid_of_isIdentifier h).append rest).skipBlank

/-- A run of one class continued by a run of a larger class is a run of the larger one. -/
theorem takeWhile_of_subset {p q : Char → Bool} (h : ∀ c, p c = true → q c = true)
    (text : List Char) :
    text.takeWhile p ++ (text.dropWhile p).takeWhile q = text.takeWhile q ∧
      (text.dropWhile p).dropWhile q = text.dropWhile q := by
  induction text with
  | nil => simp
  | cons c rest ih =>
    by_cases hp : p c = true
    · simp [hp, h c hp, ih]
    · simp [hp]

theorem identifier_takes (h : isIdentifier text = true) (hinput : skipBlank input = text.toList ++ rest)
    (hrest : ∀ c ∈ rest.head?, isWordChar c = false) : Takes identifier input text rest := by
  obtain ⟨c, more, heq, hletter, hmore⟩ := exists_of_isIdentifier h
  have hword : ∀ d ∈ text.toList, isWordChar d = true := by
    rw [heq]
    intro d hd
    rcases mem_cons.mp hd with rfl | hd
    · exact isWordChar_of_isLetter hletter
    · exact hmore d hd
  have hrun : (text.toList ++ rest).takeWhile isWordChar = text.toList ∧
      (text.toList ++ rest).dropWhile isWordChar = rest := by
    rw [takeWhile_append_of_pos hword, dropWhile_append_of_pos hword]
    cases rest with
    | nil => simp
    | cons d rest => simp [hrest d rfl]
  have hsplit := takeWhile_of_subset (fun c => @isWordChar_of_isLetter c) (text.toList ++ rest)
  rw [hrun.1, hrun.2] at hsplit
  have hfirst : Takes (runSome isLetter) (text.toList ++ rest)
      ((text.toList ++ rest).takeWhile isLetter) ((text.toList ++ rest).dropWhile isLetter) := by
    unfold Takes runSome
    rw [heq]
    simp [hletter]
  refine Takes.token hinput (hfirst.bind (Takes.bind rfl ?_))
  rw [hsplit.1, hsplit.2, String.ofList_toList]
  exact Takes.pure _ _

/-- No identifier starts with a character that is no letter. -/
theorem identifier_fails (h : ∀ c ∈ (skipBlank input).head?, isLetter c = false) : Fails identifier input := by
  apply Fails.token
  apply Fails.bind_first
  refine ⟨skipBlank input, ?_⟩
  unfold runSome
  cases hinput : skipBlank input with
  | nil => rfl
  | cons c rest =>
    have hc : isLetter c = false := h c (by rw [hinput]; rfl)
    simp [hc]

theorem keyword_takes (hinput : skipBlank input = word.toList ++ rest)
    (hrest : ∀ c ∈ rest.head?, isWordChar c = false) (h : isIdentifier word = true) :
    Takes (keyword word) input () rest :=
  Takes.convert (identifier_takes h hinput hrest) (if_pos rfl)

theorem keyword_fails (h : isIdentifier text = true) (hinput : skipBlank input = text.toList ++ rest)
    (hrest : ∀ c ∈ rest.head?, isWordChar c = false) (hne : text ≠ word) : Fails (keyword word) input :=
  Fails.convert_none (identifier_takes h hinput hrest) (if_neg hne)

/-! ## Lists -/

section Lists

variable {reader : Reader α} {f : α → String} {rest input tail : List Char}

/-- An element ends here: words and numbers do, and a comma or a closing bracket comes next. -/
structure Closed (rest : List Char) : Prop where
  delimited : Delimited rest
  next : ∃ c tail, skipBlank rest = c :: tail ∧ c ∈ [',', ')', ']', '\x7d']

theorem closed_cons (rest : List Char) (h : [',', ')', ']', '\x7d'].contains c = true) : Closed (c :: rest) := by
  rw [contains_iff_mem] at h
  have hc : isWordChar c = false ∧ c ≠ '.' ∧ isSpace c = false ∧ c ≠ '#' := by
    simp only [mem_cons, not_mem_nil, or_false] at h
    obtain rfl | rfl | rfl | rfl := h <;> decide
  exact ⟨forall_head ⟨hc.1, hc.2.1⟩, c, rest, Solid.skipBlank ⟨c, rest, rfl, hc.2.2⟩, h⟩

theorem Closed.not_equals (h : Closed rest) : Fails (symbol '=') rest := by
  obtain ⟨c, tail, heq, hc⟩ := h.next
  refine symbol_fails ?_
  rw [heq]
  rintro d ⟨⟩ rfl
  simp at hc

/-- Reading what `f` writes, wherever it is closed. -/
def Inverts (reader : Reader α) (f : α → String) (a : α) : Prop :=
  ∀ input rest, skipBlank input = (f a).toList ++ rest → Closed rest → Takes reader input a rest

theorem toList_join_cons (a : α) (items : List α) :
    (Text.join ", " ((a :: items).map f)).toList =
      (f a).toList ++ items.flatMap fun b => ',' :: ' ' :: (f b).toList := by
  induction items generalizing a with
  | nil => simp [Text.join]
  | cons b items ih =>
    have := ih b
    simp only [map_cons, Text.join, String.toList_append, flatMap_cons] at this ⊢
    rw [this]
    simp

theorem solid_join {items : List α} (hsolid : ∀ a ∈ items, Solid (f a).toList) (hrest : Solid rest) :
    Solid ((Text.join ", " (items.map f)).toList ++ rest) := by
  cases items with
  | nil => exact hrest
  | cons a items =>
    rw [toList_join_cons, append_assoc]
    exact (hsolid a (by simp)).append _

/-- Elements behind commas. -/
theorem separatedMore_eq {items : List α} (hreads : ∀ a ∈ items, Inverts reader f a)
    (hsolid : ∀ a ∈ items, Solid (f a).toList) (hclosed : Closed rest) (hstop : Fails comma rest) :
    separatedMore comma reader
      ((items.flatMap fun b => ',' :: ' ' :: (f b).toList) ++ rest) = (items, rest) := by
  induction items with
  | nil =>
    obtain ⟨place, hplace⟩ := hstop
    simp only [flatMap_nil, nil_append]
    rw [separatedMore, hplace]
  | cons a items ih =>
    have ih := ih (fun b hb => hreads b (mem_cons_of_mem a hb))
      (fun b hb => hsolid b (mem_cons_of_mem a hb))
    simp only [flatMap_cons, cons_append, append_assoc]
    generalize htail : (items.flatMap fun b => ',' :: ' ' :: (f b).toList) ++ rest = tail at ih ⊢
    have hcomma : Takes comma (',' :: ' ' :: ((f a).toList ++ tail)) () (' ' :: ((f a).toList ++ tail)) :=
      symbol_takes_cons ',' _ rfl
    have htail' : Closed tail := by
      rw [← htail]
      cases items with
      | nil => exact hclosed
      | cons b items => exact closed_cons _ rfl
    have hitem : Takes reader (' ' :: ((f a).toList ++ tail)) a tail := by
      refine hreads a (by simp) _ tail ?_ htail'
      rw [skipBlank_space, ((hsolid a (by simp)).append tail).skipBlank]
    rw [separatedMore, show comma _ = _ from hcomma]
    simp only [show reader _ = _ from hitem]
    rw [if_pos (by simp; omega), ih]

/-- At least one element, with commas between them. -/
theorem separatedSome_takes {a : α} {items : List α} (hreads : ∀ b ∈ a :: items, Inverts reader f b)
    (hsolid : ∀ b ∈ a :: items, Solid (f b).toList) (hclosed : Closed rest) (hstop : Fails comma rest)
    (hinput : skipBlank input = (Text.join ", " ((a :: items).map f)).toList ++ rest) :
    Takes (separatedSome comma reader) input (a :: items) rest := by
  rw [toList_join_cons, append_assoc] at hinput
  have hmore := separatedMore_eq (fun b hb => hreads b (mem_cons_of_mem a hb))
    (fun b hb => hsolid b (mem_cons_of_mem a hb)) hclosed hstop
  have hbetween : Closed ((items.flatMap fun b => ',' :: ' ' :: (f b).toList) ++ rest) := by
    cases items with
    | nil => exact hclosed
    | cons b items => exact closed_cons _ rfl
  have hfirst := hreads a (by simp) input _ hinput hbetween
  unfold Takes separatedSome
  rw [show reader input = _ from hfirst]
  simp only [hmore]

theorem separated_of_separatedSome {items : List α}
    (h : Takes (separatedSome comma reader) input items rest) :
    Takes (separated comma reader) input items rest := by
  unfold Takes separatedSome at h
  unfold Takes separated
  split at h
  next heq => cases h
  next a between heq => exact h

/-- Elements with commas between them. -/
theorem separated_takes {items : List α} {close : Char} (hreads : ∀ a ∈ items, Inverts reader f a)
    (hsolid : ∀ a ∈ items, Solid (f a).toList) (hclosed : Closed rest) (hclose : skipBlank rest = close :: tail)
    (hcomma : close ≠ ',') (hstop : ∀ input, skipBlank input = close :: tail → Fails reader input)
    (hinput : skipBlank input = (Text.join ", " (items.map f)).toList ++ rest) :
    ∃ last, Takes (separated comma reader) input items last ∧ skipBlank last = close :: tail := by
  cases items with
  | nil =>
    have hinput : skipBlank input = close :: tail := by
      rw [← hclose, ← skipBlank_skipBlank input, hinput]
      rfl
    obtain ⟨place, hplace⟩ := hstop input hinput
    refine ⟨input, ?_, hinput⟩
    unfold Takes separated
    rw [hplace]
  | cons a items =>
    have hend : Fails comma rest := symbol_fails (by rw [hclose]; exact forall_head hcomma)
    exact ⟨rest, separated_of_separatedSome
      (separatedSome_takes hreads hsolid hclosed hend hinput), hclose⟩

/-- Elements between brackets. -/
theorem enclosed_takes {items : List α} {after : List Char} {opening closing : Char}
    (hreads : ∀ a ∈ items, Inverts reader f a) (hsolid : ∀ a ∈ items, Solid (f a).toList)
    (hopening : skipBlank input = opening :: after)
    (hafter : skipBlank after = (Text.join ", " (items.map f)).toList ++ rest) (hclosed : Closed rest)
    (hclose : skipBlank rest = closing :: tail) (hcomma : closing ≠ ',')
    (hstop : ∀ input, skipBlank input = closing :: tail → Fails reader input) :
    Takes (enclosed opening closing reader) input items tail := by
  obtain ⟨last, hitems, hlast⟩ :=
    separated_takes hreads hsolid hclosed hclose hcomma hstop hafter
  refine (symbol_takes hopening).bind (hitems.bind (Takes.bind (Takes.optional_none ?_) ?_))
  · exact symbol_fails (by rw [hlast]; exact forall_head hcomma)
  · exact (symbol_takes hlast).bind (Takes.pure _ _)

end Lists

/-- Reading as often as possible, one step. -/
theorem many_cons {reader : Reader α} {last : List Char} {a : α} {as : List α} (first : Takes reader input a rest)
    (shorter : rest.length < input.length) (more : Takes (many reader) rest as last) :
    Takes (many reader) input (a :: as) last := by
  unfold Takes at *
  rw [many, first]
  simp only [if_pos shorter, more]

theorem many_nil {reader : Reader α} (fails : Fails reader input) : Takes (many reader) input [] input := by
  obtain ⟨place, hplace⟩ := fails
  unfold Takes
  rw [many, hplace]

end NodeScript.Script
