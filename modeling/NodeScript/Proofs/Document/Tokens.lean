import NodeScript.Document.Writer
import NodeScript.Document.Token
import NodeScript.Proofs.Number.ReadBack

/-!
# Tokens of documents read back

Blanks at the begin of a line are skipped; words, numbers and quoted texts are read up to the mark
that follows them.
-/

namespace NodeScript

open List

variable {c : Char}

/-! ## Digits -/

namespace Numeral

theorem digitValue_digitChar {n : Nat} (h : n < 16) : digitValue (Nat.digitChar n) = n := by
  revert n
  decide

theorem digitValue_lt_of_mem_toDigits {base n : Nat} (one : 1 < base) (sixteen : base ≤ 16)
    (h : c ∈ Nat.toDigits base n) : digitValue c < base := by
  induction n using Nat.strongRecOn with
  | ind n ih =>
    rcases Nat.lt_or_ge n base with hlt | hge
    · rw [Nat.toDigits_of_lt_base hlt, mem_singleton] at h
      rw [h, digitValue_digitChar (by omega)]
      exact hlt
    · rw [Nat.toDigits_of_base_le one hge, mem_append, mem_singleton] at h
      have hmod : n % base < base := Nat.mod_lt _ (by omega)
      rcases h with h | h
      · exact ih (n / base) (Nat.div_lt_self (by omega) one) h
      · rw [h, digitValue_digitChar (by omega)]
        exact hmod

/-- Digits stand for the number they were made from. -/
theorem foldl_toDigits {base : Nat} (one : 1 < base) (sixteen : base ≤ 16) (n : Nat) :
    (Nat.toDigits base n).foldl (fun n c => n * base + digitValue c) 0 = n := by
  induction n using Nat.strongRecOn with
  | ind n ih =>
    rcases Nat.lt_or_ge n base with hlt | hge
    · rw [Nat.toDigits_of_lt_base hlt]
      simp [digitValue_digitChar (Nat.lt_of_lt_of_le hlt sixteen)]
    · have hmod : n % base < base := Nat.mod_lt _ (by omega)
      rw [Nat.toDigits_of_base_le one hge, foldl_append,
        ih (n / base) (Nat.div_lt_self (by omega) one), foldl_cons, foldl_nil,
        digitValue_digitChar (by omega), Nat.mul_comm, Nat.div_add_mod]

end Numeral

namespace Document

/-! ## What stands around a value -/

variable {text rest : List Char}

/-- Nothing follows, or a mark that ends every value. -/
def Ended (rest : List Char) : Prop := ∀ c ∈ rest.head?, c = ',' ∨ c = ':' ∨ c = ')'

theorem ended_nil : Ended [] := by simp [Ended]

theorem ended_comma (rest : List Char) : Ended (',' :: rest) := by simp [Ended]

theorem ended_colon (rest : List Char) : Ended (':' :: rest) := by simp [Ended]

theorem ended_close (rest : List Char) : Ended (')' :: rest) := by simp [Ended]

/-- Characters that no value begins with: those of attributes and comments, and the ends of
entries. -/
def marks : List Char := ['#', '/', ',', ')', ']', '\x7d']

/-- A text that begins like a value. -/
def Begun (text : List Char) : Prop := ∃ c rest, text = c :: rest ∧ isBlank c = false ∧ c ∉ marks

theorem Begun.append (h : Begun text) (rest : List Char) : Begun (text ++ rest) := by
  obtain ⟨c, more, rfl, hblank, hmark⟩ := h
  exact ⟨c, more ++ rest, rfl, hblank, hmark⟩

theorem skip_of_ne_slash (hslash : c ≠ '/') (rest : List Char) :
    skip (c :: rest) = if isBlank c then skip rest else some (c :: rest) := by
  rw [skip.eq_def]
  split
  next h => cases h
  next h => exact absurd (cons.inj h).1 hslash
  next h => exact absurd (cons.inj h).1 hslash
  next h => exact absurd (cons.inj h).1 hslash
  next h =>
    obtain ⟨rfl, rfl⟩ := cons.inj h
    rfl

theorem skip_cons (hblank : isBlank c = false) (hslash : c ≠ '/') (rest : List Char) :
    skip (c :: rest) = some (c :: rest) := by
  rw [skip_of_ne_slash hslash, hblank]
  rfl

theorem skip_blank (rest : List Char) (h : (isBlank c && c != '/') = true) : skip (c :: rest) = skip rest := by
  rw [Bool.and_eq_true, bne_iff_ne] at h
  rw [skip_of_ne_slash h.2, if_pos h.1]

theorem Begun.skip (h : Begun text) : skip text = some text := by
  obtain ⟨c, rest, rfl, hblank, hmark⟩ := h
  exact skip_cons hblank (fun hc => hmark (by simp [marks, hc])) rest

theorem Ended.skip (h : Ended rest) : Document.skip rest = some rest := by
  cases rest with
  | nil => rw [Document.skip]
  | cons c rest => obtain rfl | rfl | rfl := h c rfl <;> exact skip_cons (by decide) (by decide) rest

theorem skip_newLine (depth : Nat) (text : List Char) : skip (newLine depth ++ text) = skip text := by
  have hblanks : ∀ n, skip (replicate n ' ' ++ text) = skip text := by
    intro n
    induction n with
    | zero => rfl
    | succ n ih =>
      rw [replicate_succ, cons_append, skip_blank _ rfl, ih]
  rw [newLine, cons_append, skip_blank _ rfl, hblanks]

/-! ## Words and numbers -/

/-- Characters of a run are taken up to the first one that is not of its kind. -/
theorem span_run {p : Char → Bool} {run rest : List Char} (h : ∀ c ∈ run, p c = true)
    (stop : ∀ c ∈ rest.head?, p c = false) :
    (run ++ rest).takeWhile p = run ∧ (run ++ rest).dropWhile p = rest := by
  rw [takeWhile_append_of_pos h, dropWhile_append_of_pos h]
  cases rest with
  | nil => simp
  | cons c rest => simp [stop c rfl]

theorem Ended.stops (h : Ended rest) {p : Char → Bool} (hp : p ',' = false ∧ p ':' = false ∧ p ')' = false) :
    ∀ c ∈ rest.head?, p c = false := by
  intro c hc
  obtain rfl | rfl | rfl := h c hc
  · exact hp.1
  · exact hp.2.1
  · exact hp.2.2

/-- Whether a text is an identifier that needs no mark in front. -/
def isWord (name : List Char) : Bool :=
  match name with
  | [] => false
  | c :: rest => isWordStart c && rest.all isWordPart

theorem readWord_append {name : String} (h : isWord name.toList = true)
    (hrest : Ended rest ∨ ∃ more, rest = '(' :: more) : readWord (name.toList ++ rest) = some (name, rest) := by
  have hstop : ∀ c ∈ rest.head?, isWordPart c = false := by
    rcases hrest with hrest | ⟨more, rfl⟩
    · exact hrest.stops (by decide)
    · rintro c ⟨⟩
      decide
  have hhash : ∀ c ∈ rest.head?, c ≠ '#' := by
    rcases hrest with hrest | ⟨more, rfl⟩
    · intro c hc
      obtain rfl | rfl | rfl := hrest c hc <;> decide
    · rintro c ⟨⟩
      decide
  cases hname : name.toList with
  | nil =>
    rw [hname] at h
    cases h
  | cons c part =>
    rw [hname, isWord, Bool.and_eq_true, all_eq_true] at h
    obtain ⟨hstart, hpart⟩ := h
    obtain ⟨htake, hdrop⟩ := span_run hpart hstop
    rw [cons_append]
    unfold readWord
    split
    next text heq =>
      -- A hash sign cannot stand second: it is no part of a word and does not follow one.
      obtain ⟨-, htail⟩ := cons.inj heq
      cases part with
      | nil => exact absurd rfl (hhash '#' (by rw [nil_append] at htail; rw [htail]; rfl))
      | cons d part =>
        obtain ⟨rfl, -⟩ := cons.inj htail
        exact absurd (hpart '#' (by simp)) (by decide)
    next heq =>
      obtain ⟨rfl, rfl⟩ := cons.inj heq
      rw [if_pos hstart, htake, hdrop, ← hname, String.ofList_toList]
    next heq => cases heq

theorem readNumber_append {digits : List Char} (hnumeral : Numeral.isNumeral digits = true)
    (hparts : ∀ c ∈ digits, isNumberPart c = true) (hrest : Ended rest) :
    readNumber (digits ++ rest) = some (.number digits, rest) := by
  obtain ⟨htake, hdrop⟩ := span_run hparts (hrest.stops (by decide))
  unfold readNumber
  simp only [htake, hdrop, hnumeral, if_true]

/-! ## Quoted texts -/

theorem codePoint_toDigits (c : Char) (rest : List Char) :
    codePoint ('\x7b' :: (Nat.toDigits 16 c.toNat ++ '\x7d' :: rest)) = some (c, rest) := by
  have hdigits : ∀ d ∈ Nat.toDigits 16 c.toNat, isHexDigit d = true := fun d hd =>
    decide_eq_true (Numeral.digitValue_lt_of_mem_toDigits (by decide) (by decide) hd)
  obtain ⟨htake, hdrop⟩ := @span_run isHexDigit _ ('\x7d' :: rest) hdigits (by rintro d ⟨⟩; decide)
  have hvalue : hexValue (Nat.toDigits 16 c.toNat) = c.toNat :=
    Numeral.foldl_toDigits (by decide) (by decide) _
  have hpos := @Nat.length_toDigits_pos 16 c.toNat
  have hvalid : c.toNat.isValidChar := c.valid
  have hlength : (Nat.toDigits 16 c.toNat).length ≤ 6 := by
    refine (Nat.length_toDigits_le_iff (by decide) (by decide)).mpr ?_
    rcases hvalid with h | ⟨-, h⟩ <;> omega
  unfold codePoint
  simp only [htake, hdrop, hvalue]
  rw [if_pos ⟨hpos, hlength, hvalid⟩, Char.ofNat_toNat]

theorem quotedRest_plain (hquote : c ≠ '"') (hslash : c ≠ '\\') (rest : List Char) :
    quotedRest id textEscape (c :: rest) =
      (quotedRest id textEscape rest).map fun (cs, last) => (c :: cs, last) := by
  rw [quotedRest.eq_def]
  split
  next h => cases h
  next h => exact absurd (cons.inj h).1 hquote
  next h => exact absurd (cons.inj h).1 hslash
  next h =>
    obtain ⟨rfl, rfl⟩ := cons.inj h
    rfl

theorem quotedRest_escaped {escape rest : List Char} (h : textEscape (escape ++ rest) = some (c, rest)) :
    quotedRest id textEscape ('\\' :: (escape ++ rest)) =
      (quotedRest id textEscape rest).map fun (cs, last) => (c :: cs, last) := by
  rw [quotedRest.eq_def]
  simp [h]

/-- Every character is read back from its form in quotes. -/
theorem quotedRest_escapeChar (c : Char) (rest : List Char) :
    quotedRest id textEscape (Text.escapeChar true c ++ rest) =
      (quotedRest id textEscape rest).map fun (cs, last) => (c :: cs, last) := by
  have hcode : quotedRest id textEscape (Text.codeEscape c ++ rest) =
      (quotedRest id textEscape rest).map fun (cs, last) => (c :: cs, last) := by
    have htext : Text.codeEscape c ++ rest =
        '\\' :: (('u' :: '\x7b' :: (Nat.toDigits 16 c.toNat ++ ['\x7d'])) ++ rest) := by
      simp [Text.codeEscape]
    rw [htext]
    apply quotedRest_escaped
    simpa [textEscape] using codePoint_toDigits c rest
  unfold Text.escapeChar
  split
  next h =>
    subst h
    exact @quotedRest_escaped _ ['0'] rest rfl
  split
  next h =>
    subst h
    exact @quotedRest_escaped _ ['t'] rest rfl
  split
  next h =>
    subst h
    exact @quotedRest_escaped _ ['r'] rest rfl
  split
  next h =>
    subst h
    exact @quotedRest_escaped _ ['n'] rest rfl
  split
  next h =>
    refine @quotedRest_escaped c [c] rest ?_
    obtain rfl | rfl | ⟨-, rfl⟩ := h <;> rfl
  next h =>
    have hslash : c ≠ '\\' := fun hc => h (Or.inl hc)
    have hquote : c ≠ '"' := fun hc => h (Or.inr (Or.inl hc))
    split
    · exact quotedRest_plain hquote hslash rest
    · split
      · exact hcode
      · exact quotedRest_plain hquote hslash rest

theorem quotedText_append (text : String) (rest : List Char) :
    quotedText (text.toList.flatMap (Text.escapeChar true) ++ '"' :: rest) = some (.text text, rest) := by
  have hread : ∀ cs : List Char, quotedRest id textEscape (cs.flatMap (Text.escapeChar true) ++ '"' :: rest) =
      some (cs, rest) := by
    intro cs
    induction cs with
    | nil => rw [flatMap_nil, nil_append, quotedRest]
    | cons c cs ih => rw [flatMap_cons, append_assoc, quotedRest_escapeChar, ih, Option.map_some]
  simp only [quotedText, hread, Option.map_some, String.ofList_toList]

end Document

end NodeScript
