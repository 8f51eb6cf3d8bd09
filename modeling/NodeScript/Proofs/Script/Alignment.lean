import Mathlib
import NodeScript.Proofs.Script.Layouts

/-!
# Reading depends on tokens only

Readers are aligned if they do the same on texts with the same tokens. The readers of tokens are,
each combinator passes alignment on, and so the whole grammar is aligned with itself. The allowances
for nesting may differ as long as both exceed the lengths of the texts.
-/

namespace NodeScript.Script

variable {α β : Type} {n n' : Nat}

/-! ## Aligned readers -/

/-- A repetition fails where one of its rounds takes nothing. -/
theorem many_fails {reader : Reader α} {input rest : List Char} {a : α} (first : Takes reader input a rest)
    (shorter : rest.length < input.length) (fails : Fails (Reader.many reader) rest) :
    Fails (Reader.many reader) input := by
  obtain ⟨place, hplace⟩ := fails
  refine ⟨place, ?_⟩
  rw [Reader.many, show reader input = _ from first]
  simp only [if_pos shorter, hplace]

section Separated

variable {separator : Reader β} {reader : Reader α} {input between rest : List Char} {a : α} {b : β}

theorem separatedMore_stop (fails : Fails separator input) :
    Reader.separatedMore separator reader input = ([], input) := by
  obtain ⟨place, hplace⟩ := fails
  rw [Reader.separatedMore, hplace]

theorem separatedMore_none (first : Takes separator input b between) (fails : Fails reader between) :
    Reader.separatedMore separator reader input = ([], input) := by
  obtain ⟨place, hplace⟩ := fails
  rw [Reader.separatedMore, show separator input = _ from first]
  simp only [hplace]

theorem separatedMore_cons (first : Takes separator input b between) (second : Takes reader between a rest)
    (shorter : rest.length < input.length) : Reader.separatedMore separator reader input =
      (a :: (Reader.separatedMore separator reader rest).1, (Reader.separatedMore separator reader rest).2) := by
  rw [Reader.separatedMore, show separator input = _ from first]
  simp only [show reader between = _ from second, if_pos shorter]

theorem separatedSome_eq (first : Takes reader input a between) : Takes (Reader.separatedSome separator reader) input
    (a :: (Reader.separatedMore separator reader between).1) (Reader.separatedMore separator reader between).2 := by
  unfold Takes Reader.separatedSome
  rw [show reader input = _ from first]

theorem separatedSome_fails (fails : Fails reader input) : Fails (Reader.separatedSome separator reader) input := by
  obtain ⟨place, hplace⟩ := fails
  exact ⟨place, by unfold Reader.separatedSome; rw [hplace]⟩

theorem separated_eq (separator : Reader β) (reader : Reader α) : Reader.separated separator reader =
    Reader.orElse (Reader.separatedSome separator reader) (pure []) := by
  funext input
  unfold Reader.separated Reader.orElse Reader.separatedSome
  cases reader input with
  | error place => rfl
  | ok found => rfl

end Separated

/-- Both readers fail, or take the same value and at least `taken` characters off their texts and
leave texts with the same tokens. -/
inductive Alike (reader reader' : Reader α) (taken : Nat) (text text' : List Char) : Prop
  | fails (h : Fails reader text) (h' : Fails reader' text')
  | takes (a : α) (rest rest' : List Char) (h : Takes reader text a rest) (h' : Takes reader' text' a rest')
      (matched : Matched rest rest') (shorter : rest.length + taken ≤ text.length)
      (shorter' : rest'.length + taken ≤ text'.length)

/-- The readers do the same on texts with the same tokens that are shorter than the limits. -/
def Aligned (limit limit' taken : Nat) (reader reader' : Reader α) : Prop :=
  ∀ text text', text.length < limit → text'.length < limit' → Matched text text' →
    Alike reader reader' taken text text'

namespace Aligned

variable {n n' k : Nat} {reader reader' : Reader α}

theorem weaken {m m' j : Nat} (h : Aligned n n' k reader reader') (hm : m ≤ n) (hm' : m' ≤ n') (hj : j ≤ k) :
    Aligned m m' j reader reader' := by
  intro text text' hlength hlength' hmatched
  cases h text text' (by omega) (by omega) hmatched with
  | fails h h' => exact .fails h h'
  | takes a rest rest' h h' hrest hshorter hshorter' =>
    exact .takes a rest rest' h h' hrest (by omega) (by omega)

theorem pure (a : α) : Aligned n n' 0 (Pure.pure a) (Pure.pure a) := fun text text' _ _ hmatched =>
  .takes a text text' (.pure a text) (.pure a text') hmatched (Nat.le_refl _) (Nat.le_refl _)

theorem bind {j : Nat} {next next' : α → Reader β} (first : Aligned n n' k reader reader')
    (second : ∀ a, Aligned (n - k) (n' - k) j (next a) (next' a)) :
    Aligned n n' k (reader >>= next) (reader' >>= next') := by
  intro text text' hlength hlength' hmatched
  cases first text text' hlength hlength' hmatched with
  | fails h h' => exact .fails h.bind_first h'.bind_first
  | takes a rest rest' h h' hrest hshorter hshorter' =>
    cases second a rest rest' (by omega) (by omega) hrest with
    | fails g g' => exact .fails (.bind_second h g) (.bind_second h' g')
    | takes b last last' g g' hlast hless hless' =>
      exact .takes b last last' (h.bind g) (h'.bind g') hlast (by omega) (by omega)

theorem orElse {other other' : Reader α} (first : Aligned n n' k reader reader')
    (second : Aligned n n' k other other') :
    Aligned n n' k (Reader.orElse reader other) (Reader.orElse reader' other') := by
  intro text text' hlength hlength' hmatched
  cases first text text' hlength hlength' hmatched with
  | takes a rest rest' h h' hrest hshorter hshorter' =>
    exact .takes a rest rest' h.orElse_left h'.orElse_left hrest hshorter hshorter'
  | fails h h' =>
    cases second text text' hlength hlength' hmatched with
    | fails g g' => exact .fails (h.orElse g) (h'.orElse g')
    | takes a rest rest' g g' hrest hshorter hshorter' =>
      exact .takes a rest rest' (.orElse_right h g) (.orElse_right h' g') hrest hshorter hshorter'

theorem optional (h : Aligned n n' k reader reader') :
    Aligned n n' 0 (Reader.optional reader) (Reader.optional reader') := by
  intro text text' hlength hlength' hmatched
  cases h text text' hlength hlength' hmatched with
  | fails h h' =>
    exact .takes none text text' (.optional_none h) (.optional_none h') hmatched (Nat.le_refl _) (Nat.le_refl _)
  | takes a rest rest' h h' hrest hshorter hshorter' =>
    exact .takes (some a) rest rest' h.optional_some h'.optional_some hrest (by omega) (by omega)

theorem convert {f : α → Option β} (h : Aligned n n' k reader reader') :
    Aligned n n' k (Reader.convert reader f) (Reader.convert reader' f) := by
  intro text text' hlength hlength' hmatched
  cases h text text' hlength hlength' hmatched with
  | fails h h' => exact .fails h.convert h'.convert
  | takes a rest rest' h h' hrest hshorter hshorter' =>
    cases hf : f a with
    | none => exact .fails (.convert_none h hf) (.convert_none h' hf)
    | some b => exact .takes b rest rest' (h.convert hf) (h'.convert hf) hrest hshorter hshorter'

/-- Only the place of the error tells a conversion behind blanks from one in front of them. -/
theorem token_convert {f : α → Option β} (h : Aligned n n' k (token reader) (token reader')) :
    Aligned n n' k (token (Reader.convert reader f)) (token (Reader.convert reader' f)) := by
  intro text text' hlength hlength' hmatched
  cases h text text' hlength hlength' hmatched with
  | fails h h' => exact .fails (.token (Fails.convert h)) (.token (Fails.convert h'))
  | takes a rest rest' h h' hrest hshorter hshorter' =>
    cases hf : f a with
    | none => exact .fails (.token (.convert_none h hf)) (.token (.convert_none h' hf))
    | some b =>
      exact .takes b rest rest' (.token rfl (.convert h hf)) (.token rfl (.convert h' hf)) hrest hshorter hshorter'

/-- A repetition of readers that always take something. -/
theorem many (h : Aligned n n' 1 reader reader') : Aligned n n' 0 (Reader.many reader) (Reader.many reader') := by
  intro text text' hlength hlength' hmatched
  induction hsize : text.length using Nat.strong_induction_on generalizing text text' with
  | h size ih =>
    cases h text text' hlength hlength' hmatched with
    | fails h h' =>
      exact .takes [] text text' (many_nil h) (many_nil h') hmatched (Nat.le_refl _) (Nat.le_refl _)
    | takes a rest rest' h h' hrest hshorter hshorter' =>
      cases ih rest.length (by omega) rest rest' (by omega) (by omega) hrest rfl with
      | fails g g' => exact .fails (many_fails h (by omega) g) (many_fails h' (by omega) g')
      | takes as last last' g g' hlast hless hless' =>
        exact .takes (a :: as) last last' (many_cons h (by omega) g) (many_cons h' (by omega) g') hlast
          (by omega) (by omega)

section Separated

variable {separator separator' : Reader β}

section

variable (hseparator : Aligned n n' 1 separator separator') (h : Aligned n n' k reader reader')
include hseparator h

/-- Further elements are the same ones, and what is left has the same tokens. -/
theorem separatedMore {text text' : List Char} (hlength : text.length < n) (hlength' : text'.length < n')
    (hmatched : Matched text text') :
    (Reader.separatedMore separator reader text).1 = (Reader.separatedMore separator' reader' text').1 ∧
      Matched (Reader.separatedMore separator reader text).2 (Reader.separatedMore separator' reader' text').2 ∧
      (Reader.separatedMore separator reader text).2.length ≤ text.length ∧
      (Reader.separatedMore separator' reader' text').2.length ≤ text'.length := by
  induction hsize : text.length using Nat.strong_induction_on generalizing text text' with
  | h size ih =>
    cases hseparator text text' hlength hlength' hmatched with
    | fails g g' =>
      rw [separatedMore_stop g, separatedMore_stop g']
      exact ⟨rfl, hmatched, hsize.le, Nat.le_refl _⟩
    | takes b between between' g g' hbetween hshort hshort' =>
      cases h between between' (by omega) (by omega) hbetween with
      | fails h h' =>
        rw [separatedMore_none g h, separatedMore_none g' h']
        exact ⟨rfl, hmatched, hsize.le, Nat.le_refl _⟩
      | takes a rest rest' h h' hrest hless hless' =>
        obtain ⟨heq, hlast, hle, hle'⟩ := ih rest.length (by omega) (by omega) (by omega) hrest rfl
        rw [separatedMore_cons g h (by omega), separatedMore_cons g' h' (by omega)]
        exact ⟨congrArg (a :: ·) heq, hlast, hle.trans (by omega), hle'.trans (by omega)⟩

theorem separatedSome :
    Aligned n n' k (Reader.separatedSome separator reader) (Reader.separatedSome separator' reader') := by
  intro text text' hlength hlength' hmatched
  cases h text text' hlength hlength' hmatched with
  | fails g g' => exact .fails (separatedSome_fails g) (separatedSome_fails g')
  | takes a rest rest' g g' hrest hshorter hshorter' =>
    obtain ⟨heq, hlast, hle, hle'⟩ := @separatedMore _ _ _ _ _ _ _ _ _ hseparator h rest rest' (by omega)
      (by omega) hrest
    have htakes' := @separatedSome_eq _ _ separator' _ _ _ _ g'
    rw [← heq] at htakes'
    exact .takes _ _ _ (separatedSome_eq g) htakes' hlast (by omega) (by omega)

theorem separated : Aligned n n' 0 (Reader.separated separator reader) (Reader.separated separator' reader') := by
  rw [separated_eq, separated_eq]
  exact ((hseparator.separatedSome h).weaken (Nat.le_refl _) (Nat.le_refl _) (Nat.zero_le k)).orElse (pure [])

end

end Separated

end Aligned

/-! ## Readers of tokens -/

theorem token_skipBlank (reader : Reader α) (text : List Char) : token reader (skipBlank text) = token reader text :=
  congrArg reader (skipBlank_skipBlank text)

theorem Token.skipBlank_text {token : Token} (h : token.isProper = true) (rest : List Char) :
    skipBlank (token.text ++ rest) = token.text ++ rest := by
  obtain ⟨c, more, heq, hstart⟩ := exists_start h
  have hsolid : Solid token.text := ⟨c, more, heq, hstart.solid.1, hstart.solid.2.1⟩
  exact (hsolid.append rest).skipBlank

theorem Token.length_lt {token : Token} (h : token.isProper = true) (rest : List Char) :
    rest.length + 1 ≤ (token.text ++ rest).length := by
  obtain ⟨c, more, heq, -⟩ := exists_start h
  rw [heq]
  simp

/-- A reader behind blanks that fails unless the first character is of some class is aligned with
itself if it is so on the tokens that begin with that class. -/
theorem aligned_of_class {reader : Reader α} (p : Char → Prop)
    (hblank : ∀ text, reader (skipBlank text) = reader text)
    (hfails : ∀ text, (∀ c ∈ (skipBlank text).head?, ¬ p c) → Fails reader text) (hdot : ¬ p '.')
    (hread : ∀ (token : Token) (tokens : List Token) (rest rest' : List Char) (c : Char), token.isProper = true →
      token.StartsWith c → p c → token.EndsBefore rest → token.EndsBefore rest' → Laid tokens rest →
      Laid tokens rest' → Alike reader reader 1 (token.text ++ rest) (token.text ++ rest')) :
    Aligned n n' 1 reader reader := by
  have hend {text : List Char} (h : skipBlank text = []) : Fails reader text := hfails text (by simp [h])
  intro text text' _ _ hmatched
  cases hmatched with
  | dot =>
    have hdots (rest : List Char) : Fails reader ('.' :: rest) := by
      refine hfails _ ?_
      rw [(solid_of_cons rest rfl).skipBlank]
      exact forall_head hdot
    exact .fails (hdots _) (hdots _)
  | @laid tokens _ _ h h' =>
    cases tokens with
    | nil => exact .fails (hend h.nil) (hend h'.nil)
    | cons token tokens =>
      obtain ⟨hproper, rest, hskip, hends, hrest⟩ := h.cons
      obtain ⟨-, rest', hskip', hends', hrest'⟩ := h'.cons
      obtain ⟨c, more, heq, hstart⟩ := Token.exists_start hproper
      have hlength := length_skipBlank_le text
      have hlength' := length_skipBlank_le text'
      by_cases hc : p c
      · have htokens := hread token tokens rest rest' c hproper hstart hc hends hends' hrest hrest'
        rw [← hskip, ← hskip'] at htokens
        cases htokens with
        | fails g g' =>
          rw [Fails, hblank] at g g'
          exact .fails g g'
        | takes a last last' g g' hlast hshorter hshorter' =>
          rw [Takes, hblank] at g g'
          exact .takes a last last' g g' hlast (by omega) (by omega)
      · refine .fails (hfails text ?_) (hfails text' ?_)
        · rw [hskip, heq]
          exact forall_head hc
        · rw [hskip', heq]
          exact forall_head hc

theorem aligned_symbol (c : Char) (hc : isMark c = true) : Aligned n n' 1 (symbol c) (symbol c) := by
  obtain ⟨-, hword, -, hquote, hdot, hminus⟩ := isMark_iff.mp hc
  refine aligned_of_class (· = c) (token_skipBlank _) (fun _ => symbol_fails) hdot.symm ?_
  rintro token tokens rest rest' d hproper hstart rfl _ _ hrest hrest'
  have hskip := Token.skipBlank_text hproper
  cases token with
  | word | base => exact absurd hword (by rw [isWordChar_of_isLetter hstart]; decide)
  | number =>
    rcases hstart with hstart | hdigit
    · exact absurd hstart hminus
    · exact absurd hword (by simp [isWordChar, Char.isAlphanum, hdigit])
  | quoted => exact absurd hstart hquote
  | mark found =>
    obtain ⟨rfl, -⟩ := hstart
    exact .takes () rest rest' (symbol_takes (hskip rest)) (symbol_takes (hskip rest')) (.laid hrest hrest')
      (Nat.le_refl _) (Nat.le_refl _)

/-- A name is read up to the end of a word, or up to the dot of a selection. -/
theorem aligned_identifier : Aligned n n' 1 identifier identifier := by
  refine aligned_of_class (isLetter · = true) (token_skipBlank _)
    (fun _ h => identifier_fails fun c hc => Bool.eq_false_iff.mpr (h c hc)) (by decide) ?_
  intro token tokens rest rest' c hproper hstart hletter hends hends' hrest hrest'
  have hskip := Token.skipBlank_text hproper
  cases token with
  | word name =>
    exact .takes name rest rest' (identifier_takes hproper (hskip rest) fun d hd => (hends d hd).1)
      (identifier_takes hproper (hskip rest') fun d hd => (hends' d hd).1) (.laid hrest hrest')
      (Token.length_lt hproper rest) (Token.length_lt hproper rest')
  | base name =>
    have htakes (rest : List Char) : Takes identifier ((Token.base name).text ++ rest) name ('.' :: rest) := by
      refine identifier_takes hproper ?_ (forall_head rfl)
      rw [hskip rest, Token.text, List.append_assoc]
      rfl
    have hlength (rest : List Char) : ('.' :: rest).length + 1 ≤ ((Token.base name).text ++ rest).length := by
      have := @Token.length_lt (.word name) hproper ('.' :: rest)
      simpa [Token.text] using this
    exact .takes name ('.' :: rest) ('.' :: rest') (htakes rest) (htakes rest') (.dot hrest hrest') (hlength rest)
      (hlength rest')
  | number =>
    rcases hstart with rfl | hdigit
    · exact absurd hletter (by decide)
    · exact absurd hdigit (by rw [not_digit_of_isLetter hletter]; decide)
  | quoted => exact absurd hstart (ne_of_test hletter rfl)
  | mark => exact absurd (isMark_iff.mp hstart.2).2.1 (by rw [isWordChar_of_isLetter hletter]; decide)

/-- The escapes of a quoted text are read, whatever comes behind its closing quote. -/
theorem exists_string_takes {inner : List Char} (h : isQuotable inner = true) :
    ∃ text, ∀ rest, Takes string ('"' :: inner ++ '"' :: rest) text rest := by
  have hmany : ∃ chars, ∀ rest, Takes (Reader.many stringChar) (inner ++ '"' :: rest) chars ('"' :: rest) := by
    fun_induction isQuotable inner with
    | case1 => exact ⟨[], fun rest => many_nil (stringChar_fails rest)⟩
    | case2 => cases h
    | case3 c more ih =>
      simp only [Bool.and_eq_true, Bool.or_eq_true, decide_eq_true_eq] at h
      obtain ⟨chars, hchars⟩ := ih h.2
      have hshorter : ∀ (c : Char) (rest : List Char),
          (more ++ '"' :: rest).length < ('\\' :: c :: more ++ '"' :: rest).length := by
        intro c rest
        simp only [List.length_append, List.length_cons]
        omega
      obtain ⟨((rfl | rfl) | rfl) | rfl, -⟩ := h
      · exact ⟨'\n' :: chars, fun rest => many_cons rfl (hshorter _ rest) (hchars rest)⟩
      · exact ⟨'\t' :: chars, fun rest => many_cons rfl (hshorter _ rest) (hchars rest)⟩
      · exact ⟨'\\' :: chars, fun rest => many_cons rfl (hshorter _ rest) (hchars rest)⟩
      · exact ⟨'"' :: chars, fun rest => many_cons rfl (hshorter _ rest) (hchars rest)⟩
    | case4 c more hlast hescape ih =>
      simp only [Bool.and_eq_true, decide_eq_true_eq] at h
      obtain ⟨chars, hchars⟩ := ih h.2
      have hslash : c ≠ '\\' := by
        rintro rfl
        cases more with
        | nil => exact hlast rfl rfl
        | cons d more => exact hescape d more rfl rfl
      have hplain (text : List Char) : Takes stringChar (c :: text) c text := by
        unfold Takes stringChar
        split <;> simp_all
      refine ⟨c :: chars, fun rest => many_cons (hplain _) (by simp) (hchars rest)⟩
  obtain ⟨chars, hchars⟩ := hmany
  exact ⟨String.ofList chars, fun rest => (char_takes '"' _).bind ((hchars rest).bind
    ((char_takes '"' rest).bind (.pure _ _)))⟩

theorem aligned_string : Aligned n n' 1 (token string) (token string) := by
  refine aligned_of_class (· = '"') (token_skipBlank _) (fun _ h => .token (string_fails h)) (by decide) ?_
  rintro token tokens rest rest' c hproper hstart rfl _ _ hrest hrest'
  cases token with
  | word | base => exact absurd rfl (ne_of_test hstart rfl)
  | number => rcases hstart with h | h <;> exact absurd h (by decide)
  | mark => exact absurd hstart.2 (by decide)
  | quoted inner =>
    obtain ⟨text, htext⟩ := exists_string_takes hproper
    have htakes (rest : List Char) : Takes (token string) ((Token.quoted inner).text ++ rest) text rest := by
      refine .token (Token.skipBlank_text hproper rest) ?_
      rw [Token.text, List.append_assoc]
      exact htext rest
    exact .takes text rest rest' (htakes rest) (htakes rest') (.laid hrest hrest') (Token.length_lt hproper rest)
      (Token.length_lt hproper rest')

theorem aligned_number : Aligned n n' 1 (token number) (token number) := by
  have htext : Aligned n n' 1 (token numberText) (token numberText) := by
    refine aligned_of_class (fun c => c = '-' ∨ c.isDigit = true) (token_skipBlank _)
      (fun _ h => .token (numberText_fails fun c hc => ?_)) (by decide) ?_
    · have := h c hc
      rw [not_or] at this
      exact ⟨this.1, Bool.eq_false_iff.mpr this.2⟩
    intro token tokens rest rest' c hproper hstart hfirst hends hends' hrest hrest'
    cases token with
    | word | base =>
      rcases hfirst with hminus | hdigit
      · exact absurd hminus (ne_of_test hstart rfl)
      · exact absurd hdigit (by rw [not_digit_of_isLetter hstart]; decide)
    | quoted =>
      cases hstart
      exact absurd hfirst (by decide)
    | mark found =>
      obtain ⟨-, hword, -, -, -, hminus⟩ := isMark_iff.mp hstart.2
      rcases hfirst with hfirst | hdigit
      · exact absurd hfirst hminus
      · exact absurd hword (by simp [isWordChar, Char.isAlphanum, hdigit])
    | number spelling =>
      have htakes {rest : List Char} (hends : Delimited rest) :
          Takes (Script.token numberText) (spelling.text ++ rest) spelling.text rest :=
        .token (Token.skipBlank_text hproper rest) (numberText_takes hproper hends)
      exact .takes spelling.text rest rest' (htakes hends) (htakes hends') (.laid hrest hrest')
        (Token.length_lt hproper rest) (Token.length_lt hproper rest')
  exact htext.token_convert

/-- A dot goes on with a selection only where nothing stands in front of it. -/
theorem aligned_dot : Aligned n n' 1 (Reader.char '.') (Reader.char '.') := by
  intro text text' _ _ hmatched
  cases hmatched with
  | laid h h' => exact .fails (char_fails h.head_ne) (char_fails h'.head_ne)
  | dot h h' =>
    exact .takes () _ _ (char_takes '.' _) (char_takes '.' _) (.laid h h') (Nat.le_refl _) (Nat.le_refl _)

theorem aligned_blank : Aligned n n' 0 blank blank := by
  intro text text' _ _ hmatched
  refine .takes () (skipBlank text) (skipBlank text') rfl rfl ?_ (length_skipBlank_le _) (length_skipBlank_le _)
  cases hmatched with
  | laid h h' => exact .laid h.skipped h'.skipped
  | dot h h' =>
    rw [(solid_of_cons _ rfl).skipBlank, (solid_of_cons _ rfl).skipBlank]
    exact .dot h h'

theorem aligned_keyword (word : String) : Aligned n n' 1 (keyword word) (keyword word) :=
  aligned_identifier.convert

theorem aligned_comma : Aligned n n' 1 comma comma := aligned_symbol _ rfl

/-! ## The grammar -/

theorem aligned_enclosed {k : Nat} {reader reader' : Reader α} {opening closing : Char}
    (hopening : isMark opening = true) (hclosing : isMark closing = true)
    (h : Aligned (n - 1) (n' - 1) k reader reader') :
    Aligned n n' 1 (enclosed opening closing reader) (enclosed opening closing reader') :=
  (aligned_symbol _ hopening).bind fun _ => (aligned_comma.separated h).bind fun _ =>
    aligned_comma.optional.bind fun _ => (aligned_symbol _ hclosing).bind fun _ => .pure _

theorem aligned_component : Aligned n n' 1 component component := aligned_number.convert

theorem token_orElse (reader other : Reader α) :
    token (Reader.orElse reader other) = Reader.orElse (token reader) (token other) := rfl

theorem token_bind (reader : Reader α) (next : α → Reader β) :
    token (reader >>= next) = token reader >>= next := rfl

theorem aligned_tupleLiteral : Aligned n n' 1 (token tupleLiteral) (token tupleLiteral) := by
  refine Aligned.token_convert ?_
  rw [token_bind]
  exact (aligned_symbol _ rfl).bind fun _ => (aligned_comma.separatedSome aligned_component).bind fun _ =>
    aligned_comma.optional.bind fun _ => (aligned_symbol _ rfl).bind fun _ => .pure _

theorem aligned_nameValue : Aligned n n' 1 nameValue nameValue :=
  aligned_identifier.bind fun _ => (aligned_dot.bind fun _ => aligned_identifier).optional.bind fun _ => .pure _

theorem token_nameValue : token nameValue = nameValue := by
  have hname : token identifier = identifier := funext (token_skipBlank _)
  unfold nameValue
  rw [token_bind, hname]

section Depths

variable {n n' depth depth' : Nat} (h : n ≤ depth) (h' : n' ≤ depth')
include h h'

/-- A reader whose every level takes a character is aligned for any two allowances for long enough
texts. -/
theorem Aligned.of_depths {reader : Nat → Reader α}
    (step : ∀ {n n' depth depth'}, n ≤ depth + 1 → n' ≤ depth' + 1 →
      (∀ {n n'}, n ≤ depth → n' ≤ depth' → Aligned n n' 1 (reader depth) (reader depth')) →
      Aligned n n' 1 (reader (depth + 1)) (reader (depth' + 1))) :
    Aligned n n' 1 (reader depth) (reader depth') := by
  induction depth generalizing n n' depth' with
  | zero =>
    intro text _ hlength
    omega
  | succ depth ih =>
    cases depth' with
    | zero =>
      intro text _ hlength
      omega
    | succ depth' => exact step h h' ih

theorem aligned_value : Aligned n n' 1 (value depth) (value depth') := by
  refine .of_depths h h' fun h h' ih => ?_
  rw [value, value]
  simp only [token_orElse, token_bind, token_nameValue]
  refine .orElse (aligned_string.bind fun _ => .pure _) (.orElse (aligned_tupleLiteral.bind fun _ => .pure _)
    (.orElse ?_ (.orElse (aligned_number.bind fun _ => .pure _) aligned_nameValue)))
  exact (aligned_symbol _ rfl).bind fun _ => (aligned_comma.separated (ih (by omega) (by omega))).bind
    fun _ => aligned_comma.optional.bind fun _ => (aligned_symbol _ rfl).bind fun _ => .pure _

theorem aligned_parameter : Aligned n n' 1 (parameter depth) (parameter depth') :=
  aligned_identifier.bind fun _ => (aligned_symbol _ rfl).bind fun _ => aligned_identifier.bind fun _ =>
    ((aligned_symbol _ rfl).bind fun _ => aligned_value (by omega) (by omega)).optional.bind fun _ => .pure _

theorem aligned_arguments : Aligned n n' 1 (arguments depth) (arguments depth') :=
  aligned_enclosed rfl rfl (aligned_identifier.bind fun _ => (aligned_symbol _ rfl).bind
    fun _ => (aligned_value (by omega) (by omega)).bind fun _ => .pure _)

theorem aligned_callStatement : Aligned n n' 1 (callStatement depth) (callStatement depth') :=
  aligned_identifier.bind fun _ => (aligned_symbol _ rfl).bind fun _ => aligned_identifier.bind fun _ =>
    (aligned_arguments (by omega) (by omega)).bind fun _ => .pure _

omit h h' in
theorem aligned_zoneKind : Aligned n n' 1 zoneKind zoneKind :=
  (aligned_symbol _ rfl).bind fun _ => .orElse ((aligned_keyword _).bind fun _ => .pure _)
    ((aligned_keyword _).bind fun _ => .pure _)

theorem aligned_statement : Aligned n n' 1 (statement depth) (statement depth') := by
  refine .of_depths h h' fun h h' ih => ?_
  rw [statement, statement]
  refine .orElse (aligned_callStatement h h') ?_
  exact aligned_zoneKind.bind fun _ => (aligned_keyword _).bind fun _ => aligned_identifier.bind fun _ =>
    (aligned_enclosed rfl rfl (aligned_parameter (by omega) (by omega))).bind fun _ =>
    (aligned_symbol _ rfl).bind fun _ => (ih (by omega) (by omega)).many.bind fun _ =>
    (aligned_keyword _).bind fun _ =>
    (aligned_enclosed rfl rfl (aligned_value (by omega) (by omega))).bind fun _ =>
    aligned_identifier.bind fun _ => (aligned_symbol _ rfl).bind fun _ =>
    (aligned_keyword _).bind fun _ => (aligned_arguments (by omega) (by omega)).bind fun _ => .pure _

theorem aligned_returnEntry : Aligned n n' 1 (returnEntry depth) (returnEntry depth') :=
  aligned_string.bind fun _ => (aligned_symbol _ rfl).bind fun _ =>
    (aligned_value (by omega) (by omega)).bind fun _ => .pure _

theorem aligned_program : Aligned n n' 1 (program depth) (program depth') := by
  unfold program
  exact (aligned_keyword _).bind fun _ => (aligned_keyword _).bind fun _ => (aligned_keyword _).bind fun _ =>
    (aligned_symbol _ rfl).bind fun _ => (aligned_symbol _ rfl).bind fun _ =>
    (aligned_keyword _).bind fun _ => (aligned_symbol _ rfl).bind fun _ => aligned_string.bind fun _ =>
    (aligned_symbol _ rfl).bind fun _ => aligned_blank.bind fun _ => (aligned_keyword _).bind fun _ =>
    aligned_identifier.bind fun _ =>
    (aligned_enclosed rfl rfl (aligned_parameter (by omega) (by omega))).bind fun _ =>
    (aligned_symbol _ rfl).bind fun _ => (aligned_statement (by omega) (by omega)).many.bind fun _ =>
    (aligned_keyword _).bind fun _ =>
    (aligned_enclosed rfl rfl (aligned_returnEntry (by omega) (by omega))).bind fun _ => .pure _

end Depths

/-- No token is left over in one text if none is in the other. -/
theorem Matched.skipBlank_eq_nil_iff {text text' : List Char} (h : Matched text text') :
    skipBlank text = [] ↔ skipBlank text' = [] := by
  cases h with
  | dot h h' =>
    rw [(solid_of_cons _ rfl).skipBlank, (solid_of_cons _ rfl).skipBlank]
    simp
  | @laid tokens _ _ h h' =>
    cases tokens with
    | nil => simp [h.nil, h'.nil]
    | cons token tokens =>
      obtain ⟨hproper, rest, hskip, -⟩ := h.cons
      obtain ⟨-, rest', hskip', -⟩ := h'.cons
      obtain ⟨c, more, heq, -⟩ := Token.exists_start hproper
      simp [hskip, hskip', heq]

theorem Program.parse_eq_ok_iff {text : String} {result : Program} : Program.parse text = .ok result ↔
    ∃ rest, Takes (program (text.toList.length + 1)) text.toList result rest ∧ skipBlank rest = [] := by
  unfold Program.parse Takes
  cases hprogram : program (text.toList.length + 1) text.toList with
  | error place => simp [hprogram]
  | ok found =>
    obtain ⟨found, rest⟩ := found
    cases hrest : skipBlank rest <;> simp [hprogram, hrest]

/-- **Layout carries no meaning**: texts of the same tokens are read as the same program, whatever
blanks and comments stand around the tokens, or none of them is read. -/
theorem Program.parse_eq_ok_iff_of_tokens_eq {layout layout' : Layout} (h : layout.tokens = layout'.tokens)
    (result : Program) : Program.parse layout.text = .ok result ↔ Program.parse layout'.text = .ok result := by
  rw [Program.parse_eq_ok_iff, Program.parse_eq_ok_iff]
  have hmatched : Matched layout.text.toList layout'.text.toList := .laid layout.laid (h ▸ layout'.laid)
  cases aligned_program (Nat.le_refl _) (Nat.le_refl _) _ _ (Nat.lt_succ_self _) (Nat.lt_succ_self _) hmatched with
  | fails g g' =>
    obtain ⟨place, hplace⟩ := g
    obtain ⟨place', hplace'⟩ := g'
    simp [Takes, hplace, hplace']
  | takes found rest rest' g g' hrest =>
    unfold Takes at g g'
    simp [Takes, g, g', hrest.skipBlank_eq_nil_iff]

/-- A program that takes an output of a node by its name. -/
def selection : Program :=
  ⟨"Spot", [⟨"size", "Float", some (.literal (.float Single.zero))⟩], [.call "sum" "math" [("a", .name "size")]],
    [("Value", .select "sum" "value")]⟩

def selectionTokens : List Token :=
  [.word "from", .word "geometry_script", .word "import", .mark '*', .mark '@', .word "tree", .mark '(',
    .quoted "Spot".toList, .mark ')', .word "def", .word "spot", .mark '(', .word "size", .mark ':', .word "Float",
    .mark '=', .number ⟨false, ['0'], some [], some ⟨'E', some '+', ['1']⟩⟩, .mark ')', .mark ':', .word "sum",
    .mark '=', .word "math", .mark '(', .word "a", .mark '=', .word "size", .mark ')', .word "return",
    .mark '\x7b', .quoted "Value".toList, .mark ':', .base "sum", .word "value", .mark '\x7d']

def selectionInBlanks : Layout := ⟨selectionTokens.map (Piece.mk [' ']), [], by decide⟩

def selectionInComments : Layout :=
  ⟨selectionTokens.map (Piece.mk "# note\r\n\t".toList), "\n# end".toList, by decide⟩

theorem Program.parse_selection_in_comments : selectionInBlanks.tokens = selectionInComments.tokens ∧
    Program.parse selectionInBlanks.text = .ok selection ∧
    Program.parse selectionInComments.text = .ok selection := by
  have hblanks : Program.parse selectionInBlanks.text = .ok selection := by cbv
  have htokens : selectionInBlanks.tokens = selectionInComments.tokens := by decide
  exact ⟨htokens, hblanks, (Program.parse_eq_ok_iff_of_tokens_eq htokens selection).mp hblanks⟩

end NodeScript.Script
