import Mathlib.Data.List.Chain
import Mathlib.Data.List.Infix
import NodeScript.Text.Naming

/-!
# Names and titles

Making a title of an ASCII name and a name of the title again keeps the words of the name, in lower
case and with one `_` between neighbours. So a second title is the first one, and the names that
come back are those that are spelled this way already.
-/

namespace NodeScript

open List

variable {parts : List (List Char)}

/-! ## Words -/

namespace Naming

variable {c d separator : Char} {word text rest : List Char} {others : List (List Char)}

structure IsWord (word : List Char) : Prop where
  ne_nil : word ≠ []
  inner : ∀ c ∈ word, isSeparator c = false

theorem spaced_eq (words : List (List Char)) : spaced words = [' '].intercalate words := by
  induction words with
  | nil => rfl
  | cons word rest ih =>
    cases rest with
    | nil => simp [spaced]
    | cons next rest => rw [spaced, ih, intercalate_cons_cons, append_assoc, singleton_append]; nofun

theorem words_cons (c : Char) (rest : List Char) : words (c :: rest) =
    if isSeparator c then words rest
    else
      match rest, words rest with
      | d :: _, word :: others => if isSeparator d then [c] :: word :: others else (c :: word) :: others
      | _, others => [c] :: others := rfl

theorem words_cons_separator (hc : isSeparator c = true) (rest : List Char) : words (c :: rest) = words rest := by
  rw [words_cons, if_pos hc]

theorem words_cons_before (hc : isSeparator c = false) (hrest : ∀ d ∈ rest.head?, isSeparator d = true) :
    words (c :: rest) = [c] :: words rest := by
  rw [words_cons, if_neg (by simp [hc])]
  cases rest with
  | nil => rfl
  | cons d rest =>
    cases words (d :: rest) with
    | nil => rfl
    | cons word others => exact if_pos (hrest d rfl)

theorem words_cons_inside (hc : isSeparator c = false) (hd : isSeparator d = false) (rest : List Char) :
    ∃ word others, words (d :: rest) = word :: others ∧ words (c :: d :: rest) = (c :: word) :: others := by
  have hne : words (d :: rest) ≠ [] := by
    rw [words_cons, if_neg (by simp [hd])]
    split
    · split <;> exact cons_ne_nil _ _
    · exact cons_ne_nil _ _
  obtain ⟨word, others, h⟩ := exists_cons_of_ne_nil hne
  refine ⟨word, others, h, ?_⟩
  rw [words_cons, if_neg (by simp [hc]), h]
  exact if_neg (by simp [hd])

theorem isWord_of_mem_words (h : word ∈ words text) : IsWord word ∧ word ⊆ text := by
  induction text generalizing word with
  | nil => cases h
  | cons c rest ih =>
    have later : ∀ word ∈ words rest, IsWord word ∧ word ⊆ c :: rest :=
      fun _ h => ⟨(ih h).1, fun _ hx => mem_cons_of_mem _ ((ih h).2 hx)⟩
    cases hc : isSeparator c with
    | true => exact later word (words_cons_separator hc rest ▸ h)
    | false =>
      by_cases hrest : ∀ d ∈ rest.head?, isSeparator d = true
      · rw [words_cons_before hc hrest, mem_cons] at h
        rcases h with rfl | h
        · exact ⟨⟨cons_ne_nil _ _, by simp [hc]⟩, by simp⟩
        · exact later word h
      · obtain ⟨d, rest, rfl, hd⟩ : ∃ d rest', rest = d :: rest' ∧ isSeparator d = false := by
          cases rest <;> simp_all
        obtain ⟨first, others, hwords, hwords'⟩ := words_cons_inside hc hd rest
        rw [hwords', mem_cons] at h
        rw [hwords] at later
        rcases h with rfl | h
        · obtain ⟨isWord, hsub⟩ := later first mem_cons_self
          refine ⟨⟨cons_ne_nil _ _, fun x hx => ?_⟩, cons_subset.mpr ⟨mem_cons_self, hsub⟩⟩
          exact (mem_cons.mp hx).elim (· ▸ hc) (isWord.inner x)
        · exact later word (mem_cons_of_mem _ h)

theorem words_append (hword : IsWord word) (hrest : ∀ d ∈ rest.head?, isSeparator d = true) :
    words (word ++ rest) = word :: words rest := by
  obtain ⟨hne, inner⟩ := hword
  induction word with
  | nil => exact absurd rfl hne
  | cons c word ih =>
    have hc := inner c mem_cons_self
    cases word with
    | nil => exact words_cons_before hc hrest
    | cons d word =>
      have inner' := fun x hx => inner x (mem_cons_of_mem _ hx)
      obtain ⟨first, others, hwords, hwords'⟩ := words_cons_inside hc (inner' d mem_cons_self) (word ++ rest)
      obtain ⟨rfl, rfl⟩ := cons.inj (hwords.symm.trans (ih (cons_ne_nil _ _) inner'))
      exact hwords'

/-- Words with separators between them are found again. -/
theorem words_intercalate (hseparator : isSeparator separator = true)
    (h : ∀ word ∈ parts, IsWord word) : words ([separator].intercalate parts) = parts := by
  induction parts with
  | nil => rfl
  | cons word rest ih =>
    have hrest := fun part hpart => h part (mem_cons_of_mem _ hpart)
    cases rest with
    | nil => simpa [words] using @words_append word [] (h word mem_cons_self) (by simp)
    | cons next rest =>
      rw [intercalate_cons_cons, append_assoc, singleton_append,
        words_append (h word mem_cons_self) (by simpa using hseparator), words_cons_separator hseparator, ih hrest]

theorem map_intercalate (f : Char → Char) (separator : Char) (parts : List (List Char)) :
    ([separator].intercalate parts).map f = [f separator].intercalate (parts.map (map f)) := by
  induction parts with
  | nil => rfl
  | cons word rest ih =>
    cases rest with
    | nil => simp
    | cons next rest => simp only [intercalate_cons_cons, map_cons, map_append, map_nil] at ih ⊢; rw [ih]

theorem mem_of_mem_intercalate (h : c ∈ [separator].intercalate parts) :
    c = separator ∨ ∃ word ∈ parts, c ∈ word := by
  induction parts with
  | nil => cases h
  | cons word rest ih =>
    cases rest with
    | nil => exact .inr ⟨word, mem_cons_self, by rwa [intercalate_singleton] at h⟩
    | cons next rest =>
      rw [intercalate_cons_cons, append_assoc, singleton_append, mem_append, mem_cons] at h
      rcases h with h | h | h
      · exact .inr ⟨word, mem_cons_self, h⟩
      · exact .inl h
      · exact (ih h).imp_right fun ⟨found, hfound, h⟩ => ⟨found, mem_cons_of_mem _ hfound, h⟩

end Naming

/-! ## Case -/

/-- The text has ASCII characters only. -/
def IsAscii (text : List Char) : Prop := ∀ c ∈ text, c.toNat < 128

namespace Naming

variable {c : Char} {word text : List Char}

/-- How the case of an ASCII character changes. Separators have no case. -/
structure Cased (c : Char) : Prop where
  lower : Text.lowerChar c = [c.toLower]
  upper : Text.upperChar c = [c.toUpper]
  ascii : c.toLower.toNat < 128 ∧ c.toUpper.toNat < 128
  lower_upper : c.toUpper.toLower = c.toLower
  upper_lower : c.toLower.toUpper = c.toUpper
  lower_lower : c.toLower.toLower = c.toLower
  separator : isSeparator c.toLower = isSeparator c
  fixed : c.toLower = c ↔ c.isUpper = false

theorem cased (hc : c.toNat < 128) : Cased c := by
  -- Only 128 characters are to be looked at.
  have hcodes : ∀ n < 128, let c := Char.ofNat n
      c.toLower.toNat < 128 ∧ c.toUpper.toNat < 128 ∧ c.toUpper.toLower = c.toLower ∧ c.toLower.toUpper = c.toUpper ∧
        c.toLower.toLower = c.toLower ∧ isSeparator c.toLower = isSeparator c ∧
          (c.toLower = c ↔ c.isUpper = false) := by
    decide
  obtain ⟨hlower, hupper, hlu, hul, hll, hseparator, hfixed⟩ := Char.ofNat_toNat c ▸ hcodes c.toNat hc
  exact ⟨if_pos hc, if_pos hc, ⟨hlower, hupper⟩, hlu, hul, hll, hseparator, hfixed⟩

theorem capitalize_ascii (hword : IsAscii (c :: word)) :
    capitalize (c :: word) = c.toUpper :: word.map Char.toLower := by
  have hrest : word.flatMap Text.lowerChar = word.map Char.toLower := by
    rw [map_eq_flatMap]
    exact flatMap_congr fun d hd => (cased (hword d (mem_cons_of_mem _ hd))).lower
  rw [capitalize, (cased (hword c mem_cons_self)).upper, hrest, singleton_append]

theorem isAscii_lower (hword : IsAscii word) : IsAscii (word.map Char.toLower) := by
  intro c hc
  obtain ⟨d, hd, rfl⟩ := mem_map.mp hc
  exact (cased (hword d hd)).ascii.1

theorem lower_lower (hword : IsAscii word) : (word.map Char.toLower).map Char.toLower = word.map Char.toLower := by
  rw [map_map]
  exact map_congr_left fun c hc => (cased (hword c hc)).lower_lower

theorem lower_capitalize (hword : IsAscii word) : (capitalize word).map Char.toLower = word.map Char.toLower := by
  cases word with
  | nil => rfl
  | cons c rest =>
    rw [capitalize_ascii hword, map_cons, map_cons, (cased (hword c mem_cons_self)).lower_upper,
      lower_lower fun d hd => hword d (mem_cons_of_mem _ hd)]

theorem capitalize_lower (hword : IsAscii word) : capitalize (word.map Char.toLower) = capitalize word := by
  cases word with
  | nil => rfl
  | cons c rest =>
    rw [map_cons, capitalize_ascii (isAscii_lower hword), capitalize_ascii hword,
      (cased (hword c mem_cons_self)).upper_lower, lower_lower fun d hd => hword d (mem_cons_of_mem _ hd)]

theorem isAscii_capitalize (hword : IsAscii word) : IsAscii (capitalize word) := by
  cases word with
  | nil => exact hword
  | cons c rest =>
    rw [capitalize_ascii hword]
    intro d hd
    rcases mem_cons.mp hd with rfl | hd
    · exact (cased (hword c mem_cons_self)).ascii.2
    · exact isAscii_lower (fun e he => hword e (mem_cons_of_mem _ he)) d hd

theorem IsWord.lower (isWord : IsWord word) (hword : IsAscii word) : IsWord (word.map Char.toLower) := by
  refine ⟨mt map_eq_nil_iff.mp isWord.ne_nil, fun c hc => ?_⟩
  obtain ⟨d, hd, rfl⟩ := mem_map.mp hc
  exact (cased (hword d hd)).separator.trans (isWord.inner d hd)

theorem lowerAfter_ascii (htext : IsAscii text) (before : List Char) :
    Text.lowerAfter before text = text.map Char.toLower := by
  induction text generalizing before with
  | nil => rfl
  | cons c rest ih =>
    have hc := htext c mem_cons_self
    have hsigma : c ≠ 'Σ' := by
      rintro rfl
      exact absurd hc (by decide)
    rw [Text.lowerAfter, if_neg hsigma, (cased hc).lower, ih fun d hd => htext d (mem_cons_of_mem _ hd)]
    rfl

end Naming

/-! ## Names that come back -/

open Naming

variable {name : String}

theorem toList_titleCase (name : String) :
    (titleCase name).toList = [' '].intercalate ((words name.toList).map capitalize) := by
  rw [titleCase, String.toList_ofList, spaced_eq]

theorem isAscii_of_mem_words {text word : List Char} (htext : IsAscii text) (h : word ∈ words text) : IsAscii word :=
  fun c hc => htext c ((isWord_of_mem_words h).2 hc)

theorem isAscii_titleCase (hname : IsAscii name.toList) : IsAscii (titleCase name).toList := by
  intro c hc
  rw [toList_titleCase] at hc
  rcases mem_of_mem_intercalate hc with rfl | ⟨_, hword, hc⟩
  · decide
  · obtain ⟨word, hmem, rfl⟩ := mem_map.mp hword
    exact isAscii_capitalize (isAscii_of_mem_words hname hmem) c hc

/-- The name of a title has the words in lower case. -/
theorem toList_snakeCase_titleCase (hname : IsAscii name.toList) :
    (snakeCase (titleCase name)).toList = ['_'].intercalate ((words name.toList).map (map Char.toLower)) := by
  rw [snakeCase, String.toList_ofList, Text.lower,
    lowerAfter_ascii (isAscii_titleCase hname), map_map, toList_titleCase,
    map_intercalate, map_map]
  refine congrArg _ (map_congr_left fun word hword => ?_)
  have hascii := isAscii_of_mem_words hname hword
  have hlower := ((isWord_of_mem_words hword).1.lower hascii).inner
  rw [Function.comp_apply, ← map_map, lower_capitalize hascii]
  refine (map_congr_left fun c hc => if_neg ?_).trans (map_id _)
  rintro rfl
  exact absurd (hlower ' ' hc) (by decide)

/-- The words of a title do not change any more. -/
theorem titleCase_snakeCase_titleCase (hname : IsAscii name.toList) :
    titleCase (snakeCase (titleCase name)) = titleCase name := by
  refine String.toList_inj.mp ?_
  rw [toList_titleCase, toList_titleCase, toList_snakeCase_titleCase hname, words_intercalate (by decide), map_map]
  · exact congrArg _ (map_congr_left fun word hword => capitalize_lower (isAscii_of_mem_words hname hword))
  · intro word hword
    obtain ⟨old, hold, rfl⟩ := mem_map.mp hword
    exact (isWord_of_mem_words hold).1.lower (isAscii_of_mem_words hname hold)

/-- No capital, no blank, and `_` only between two other characters. -/
structure IsPlain (text : List Char) : Prop where
  lower : ∀ c ∈ text, c.isUpper = false
  blank : ' ' ∉ text
  first : text.head? ≠ some '_'
  last : text.getLast? ≠ some '_'
  apart : text.IsChain fun c d => ¬ (c = '_' ∧ d = '_')

theorem isPlain_word {word : List Char} (isWord : IsWord word) (hlower : ∀ c ∈ word, c.isUpper = false) :
    IsPlain word := by
  have hne : ∀ c ∈ word, c ≠ '_' := by
    rintro _ hc rfl
    exact absurd (isWord.inner _ hc) (by decide)
  refine ⟨hlower, fun h => absurd (isWord.inner _ h) (by decide), fun h => ?_, fun h => ?_, ?_⟩
  · exact hne _ (mem_of_head? h) rfl
  · exact hne _ (mem_of_getLast? h) rfl
  · exact Pairwise.isChain (pairwise_of_forall_mem_list fun c hc _ _ => fun h => hne c hc h.1)

theorem isPlain_intercalate
    (h : ∀ word ∈ parts, IsWord word ∧ ∀ c ∈ word, c.isUpper = false) : IsPlain (['_'].intercalate parts) := by
  induction parts with
  | nil => exact ⟨nofun, nofun, nofun, nofun, .nil⟩
  | cons word rest ih =>
    obtain ⟨isWord, hlower⟩ := h word mem_cons_self
    have plain := isPlain_word isWord hlower
    cases rest with
    | nil => rwa [intercalate_singleton]
    | cons next rest =>
      have plain' := ih fun part hpart => h part (mem_cons_of_mem _ hpart)
      have hne : ['_'].intercalate (next :: rest) ≠ [] := by
        have hnext := (h next (mem_cons_of_mem _ mem_cons_self)).1.ne_nil
        cases rest with
        | nil => rwa [intercalate_singleton]
        | cons _ _ =>
          exact fun h => hnext (append_eq_nil_iff.mp (append_eq_nil_iff.mp (intercalate_cons_cons ▸ h)).1).1
      rw [intercalate_cons_cons, append_assoc, singleton_append]
      generalize ['_'].intercalate (next :: rest) = text at plain' hne
      refine ⟨fun c hc => ?_, fun hblank => ?_, ?_, ?_, ?_⟩
      · simp only [mem_append, mem_cons] at hc
        rcases hc with hc | rfl | hc
        · exact hlower c hc
        · rfl
        · exact plain'.lower c hc
      · simp only [mem_append, mem_cons] at hblank
        rcases hblank with hblank | hblank | hblank
        · exact plain.blank hblank
        · cases hblank
        · exact plain'.blank hblank
      · rw [head?_append_of_ne_nil _ isWord.ne_nil]
        exact plain.first
      · rw [getLast?_append_of_ne_nil _ (cons_ne_nil _ _), getLast?_cons_of_ne_nil hne]
        exact plain'.last
      · refine isChain_append.mpr ⟨plain.apart, isChain_cons.mpr ⟨?_, plain'.apart⟩, ?_⟩
        · rintro c hc ⟨_, rfl⟩
          exact plain'.first hc
        · rintro c hc _ _ ⟨rfl, _⟩
          exact plain.last hc

theorem IsPlain.of_append (before : List Char) {text : List Char} (plain : IsPlain (before ++ text))
    (h : text.head? ≠ some '_') : IsPlain text where
  lower := fun c hc => plain.lower c (mem_append_right _ hc)
  blank := fun hblank => plain.blank (mem_append_right _ hblank)
  first := h
  last := fun hlast => plain.last (by rw [getLast?_append, hlast, Option.some_or])
  apart := (isChain_append.mp plain.apart).2.1

theorem IsPlain.inner {c : Char} {rest : List Char} (plain : IsPlain (c :: rest)) : isSeparator c = false := by
  have hunderscore : c ≠ '_' := fun h => plain.first (h ▸ rfl)
  have hblank : c ≠ ' ' := fun h => plain.blank (h ▸ mem_cons_self)
  simp [isSeparator, hunderscore, hblank]

/-- A plain name is made of its words. -/
theorem intercalate_words : ∀ {text : List Char}, IsPlain text → ['_'].intercalate (words text) = text
  | [], _ => rfl
  | [c], plain => by rw [words_cons_before plain.inner (by simp), words, intercalate_singleton]
  | c :: d :: rest, plain => by
    by_cases hd : d = '_'
    · subst hd
      have hrest : rest.head? ≠ some '_' := fun h =>
        (isChain_cons.mp (isChain_cons.mp plain.apart).2).1 '_' h ⟨rfl, rfl⟩
      have ih := intercalate_words (plain.of_append [c, '_'] hrest)
      rw [words_cons_before plain.inner (by simp [isSeparator]), words_cons_separator rfl]
      cases hwords : words rest with
      | nil =>
        rw [hwords] at ih
        exact absurd (ih ▸ rfl) plain.last
      | cons word others =>
        rw [intercalate_cons_cons, ← hwords, ih]
        rfl
    · have plain' := plain.of_append [c] fun h => hd (Option.some.inj h)
      have ih := intercalate_words plain'
      obtain ⟨word, others, hwords, hwords'⟩ := words_cons_inside plain.inner plain'.inner rest
      rw [hwords] at ih
      rw [hwords', ← ih]
      cases others with
      | nil => simp
      | cons next others => simp [intercalate_cons_cons]

/-- The names that come back from their titles. -/
theorem snakeCase_titleCase_eq_iff (hname : IsAscii name.toList) :
    snakeCase (titleCase name) = name ↔ IsPlain name.toList := by
  rw [← String.toList_inj, toList_snakeCase_titleCase hname]
  constructor
  · intro h
    rw [← h]
    refine isPlain_intercalate fun word hword => ?_
    obtain ⟨old, hold, rfl⟩ := mem_map.mp hword
    have hascii := isAscii_of_mem_words hname hold
    refine ⟨(isWord_of_mem_words hold).1.lower hascii, fun c hc => ?_⟩
    obtain ⟨d, hd, rfl⟩ := mem_map.mp hc
    have hd := hascii d hd
    exact (cased (cased hd).ascii.1).fixed.mp (cased hd).lower_lower
  · intro plain
    have hlower : (words name.toList).map (map Char.toLower) = words name.toList := by
      refine (map_congr_left fun word hword => ?_).trans (map_id _)
      refine (map_congr_left fun c hc => ?_).trans (map_id _)
      have hmem := (isWord_of_mem_words hword).2 hc
      exact (cased (hname c hmem)).fixed.mpr (plain.lower c hmem)
    rw [hlower, intercalate_words plain]

end NodeScript
