import NodeScript.Proofs.Number.ReadBack
import NodeScript.Proofs.Script.Reading
import NodeScript.Script.Printer

/-!
# Literals read back

Quoted texts, numbers and tuples of numbers are read as what was written.
-/

namespace NodeScript.Script

open List

/-! ## Quoted texts -/

variable {input rest digits : List Char} {exponent : ExponentSpelling} {n : Numeral} {x : Single}

theorem stringChar_takes (c : Char) (rest : List Char) :
    Takes stringChar (escapeChar c ++ rest) c rest := by
  unfold escapeChar
  split
  next h =>
    obtain rfl | rfl := h
    · rfl
    · rfl
  next h =>
    split
    next hnewline =>
      subst hnewline
      rfl
    next =>
      rw [not_or] at h
      change stringChar (c :: rest) = _
      unfold stringChar
      split <;> simp_all

theorem stringChar_fails (rest : List Char) : Fails stringChar ('"' :: rest) := ⟨_, rfl⟩

theorem escapeChar_ne_nil (c : Char) : escapeChar c ≠ [] := by
  unfold escapeChar
  split
  · simp
  · split <;> simp

theorem many_stringChar_takes (text rest : List Char) :
    Takes (Reader.many stringChar) (text.flatMap escapeChar ++ '"' :: rest) text ('"' :: rest) := by
  induction text with
  | nil => exact many_nil (stringChar_fails rest)
  | cons c text ih =>
    rw [flatMap_cons, append_assoc]
    refine many_cons (stringChar_takes c _) ?_ ih
    have := length_pos_iff.mpr (escapeChar_ne_nil c)
    simp only [length_append]
    omega

theorem string_takes (text : String) (rest : List Char) :
    Takes string ((quote text).toList ++ rest) text rest := by
  have htext : (quote text).toList ++ rest =
      '"' :: (text.toList.flatMap escapeChar ++ '"' :: rest) := by
    simp [quote]
  rw [htext]
  refine (char_takes '"' _).bind ((many_stringChar_takes text.toList rest).bind
    ((char_takes '"' _).bind ?_))
  rw [String.ofList_toList]
  exact Takes.pure _ _

theorem solid_quote (text : String) : Solid (quote text).toList :=
  ⟨'"', text.toList.flatMap escapeChar ++ ['"'], by simp [quote], by decide, by decide⟩

theorem string_fails (h : ∀ c ∈ input.head?, c ≠ '"') : Fails string input :=
  Fails.bind_first (char_fails h)

/-! ## Numbers -/

/-- The exponent of a number as it is spelled. -/
structure ExponentSpelling where
  mark : Char
  sign : Option Char
  digits : List Char
deriving DecidableEq, Repr

namespace ExponentSpelling

def text (exponent : ExponentSpelling) : List Char :=
  exponent.mark :: exponent.sign.toList ++ exponent.digits

def isProper (exponent : ExponentSpelling) : Bool :=
  (exponent.mark = 'e' || exponent.mark = 'E') && exponent.sign.all (fun c => c = '+' || c = '-') &&
    !exponent.digits.isEmpty && exponent.digits.all Char.isDigit

theorem isProper_iff : exponent.isProper = true ↔
    (exponent.mark = 'e' ∨ exponent.mark = 'E') ∧ (∀ c ∈ exponent.sign, c = '+' ∨ c = '-') ∧
      exponent.digits ≠ [] ∧ Numeral.Digits exponent.digits := by
  simp [isProper, Numeral.Digits, Option.all_eq_true, and_assoc]

end ExponentSpelling

/-- A number as it is spelled. -/
structure NumberSpelling where
  negative : Bool
  whole : List Char
  fraction : Option (List Char)
  exponent : Option ExponentSpelling
deriving DecidableEq, Repr

namespace NumberSpelling

def text (number : NumberSpelling) : List Char :=
  Numeral.sign number.negative ++ number.whole ++ Numeral.fractionText number.fraction ++
    (number.exponent.map ExponentSpelling.text).getD []

def isProper (number : NumberSpelling) : Bool :=
  !number.whole.isEmpty && number.whole.all Char.isDigit &&
    number.fraction.all (fun digits => digits.all Char.isDigit) &&
    number.exponent.all ExponentSpelling.isProper

theorem isProper_iff {number : NumberSpelling} : number.isProper = true ↔
    number.whole ≠ [] ∧ Numeral.Digits number.whole ∧ (∀ digits ∈ number.fraction, Numeral.Digits digits) ∧
      ∀ part ∈ number.exponent, part.isProper = true := by
  simp [isProper, Numeral.Digits, Option.all_eq_true, and_assoc]

end NumberSpelling

theorem Delimited.not_digit (h : Delimited rest) : ∀ c ∈ rest.head?, c.isDigit = false := by
  intro c hc
  have := (h c hc).1
  simp only [isWordChar, Char.isAlphanum, Bool.or_eq_false_iff] at this
  exact this.1.2

theorem Delimited.ne (h : Delimited rest) {d : Char} (hd : isWordChar d = true) : ∀ c ∈ rest.head?, c ≠ d := by
  rintro c hc rfl
  rw [(h c hc).1] at hd
  cases hd

theorem runSome_digits_takes (hne : digits ≠ []) (hdigits : Numeral.Digits digits)
    (hrest : ∀ c ∈ rest.head?, c.isDigit = false) :
    Takes (Reader.runSome Char.isDigit) (digits ++ rest) digits rest := by
  obtain ⟨htake, hdrop⟩ := takeWhile_digits hdigits hrest
  unfold Takes Reader.runSome
  rw [htake, hdrop]
  cases digits with
  | nil => exact absurd rfl hne
  | cons c digits => rfl

theorem optional_minus_takes {whole : List Char} (negative : Bool)
    (hne : whole ≠ []) (hwhole : Numeral.Digits whole) :
    Takes (Reader.optional (Reader.char '-')) (Numeral.sign negative ++ (whole ++ rest))
      (if negative then some () else none) (whole ++ rest) := by
  cases negative with
  | true => exact Takes.optional_some (char_takes '-' _)
  | false =>
    refine Takes.optional_none (char_fails ?_)
    cases whole with
    | nil => exact absurd rfl hne
    | cons c whole => exact forall_head (ne_of_test (hwhole c (by simp)) rfl)

theorem optional_fraction_takes {fraction : Option (List Char)}
    (hfraction : ∀ digits ∈ fraction, Numeral.Digits digits)
    (hrest : ∀ c ∈ rest.head?, c.isDigit = false ∧ c ≠ '.') :
    Takes (Reader.optional do Reader.char '.'; Reader.run Char.isDigit)
      (Numeral.fractionText fraction ++ rest) fraction rest := by
  cases fraction with
  | none => exact Takes.optional_none (Fails.bind_first (char_fails fun c hc => (hrest c hc).2))
  | some digits =>
    obtain ⟨htake, hdrop⟩ := takeWhile_digits (hfraction digits rfl) fun c hc => (hrest c hc).1
    refine Takes.optional_some ((char_takes '.' _).bind ?_)
    change Except.ok (List.takeWhile _ (digits ++ rest), List.dropWhile _ (digits ++ rest)) = _
    rw [htake, hdrop]

theorem optional_sign_takes {sign : Option Char} (hsign : ∀ c ∈ sign, c = '+' ∨ c = '-')
    (hne : digits ≠ []) (hdigits : Numeral.Digits digits) :
    Takes (Reader.optional (Reader.orElse (do Reader.char '+'; return '+') (do Reader.char '-'; return '-')))
      (sign.toList ++ (digits ++ rest)) sign (digits ++ rest) := by
  cases sign with
  | none =>
    have hfirst (sign : Char) (hsign : sign.isDigit = false) :
        ∀ c ∈ (digits ++ rest).head?, c ≠ sign := by
      cases digits with
      | nil => exact absurd rfl hne
      | cons c digits => exact forall_head (ne_of_test (hdigits c (by simp)) hsign)
    refine Takes.optional_none (Fails.orElse ?_ ?_)
    · exact Fails.bind_first (char_fails (hfirst '+' (by decide)))
    · exact Fails.bind_first (char_fails (hfirst '-' (by decide)))
  | some c =>
    refine Takes.optional_some ?_
    rcases hsign c rfl with rfl | rfl
    · exact Takes.orElse_left ((char_takes '+' _).bind (Takes.pure '+' _))
    · refine Takes.orElse_right ?_ ((char_takes '-' _).bind (Takes.pure '-' _))
      exact Fails.bind_first (char_fails (forall_head (by decide)))

theorem exponentText_takes (h : exponent.isProper = true) (hrest : ∀ c ∈ rest.head?, c.isDigit = false) :
    Takes exponentText (exponent.text ++ rest) exponent.text rest := by
  obtain ⟨mark, sign, digits⟩ := exponent
  obtain ⟨hmark, hsign, hne, hdigits⟩ := ExponentSpelling.isProper_iff.mp h
  have htext : ExponentSpelling.text ⟨mark, sign, digits⟩ ++ rest = mark :: (sign.toList ++ (digits ++ rest)) := by
    simp [ExponentSpelling.text]
  have hfirst : Takes (Reader.orElse (do Reader.char 'e'; return 'e') (do Reader.char 'E'; return 'E'))
      (mark :: (sign.toList ++ (digits ++ rest))) mark (sign.toList ++ (digits ++ rest)) := by
    rcases hmark with rfl | rfl
    · exact Takes.orElse_left ((char_takes 'e' _).bind (Takes.pure 'e' _))
    · refine Takes.orElse_right ?_ ((char_takes 'E' _).bind (Takes.pure 'E' _))
      exact Fails.bind_first (char_fails (forall_head (by decide)))
  rw [htext]
  exact hfirst.bind ((optional_sign_takes hsign hne hdigits).bind
    ((runSome_digits_takes hne hdigits hrest).bind (Takes.pure _ _)))

theorem optional_exponent_takes {exponent : Option ExponentSpelling}
    (hexponent : ∀ part ∈ exponent, part.isProper = true) (hrest : Delimited rest) :
    Takes (Reader.optional exponentText) ((exponent.map ExponentSpelling.text).getD [] ++ rest)
      (exponent.map ExponentSpelling.text) rest := by
  cases exponent with
  | none =>
    refine Takes.optional_none (Fails.bind_first (Fails.orElse ?_ ?_))
    · exact Fails.bind_first (char_fails (hrest.ne (by decide)))
    · exact Fails.bind_first (char_fails (hrest.ne (by decide)))
  | some part => exact Takes.optional_some (exponentText_takes (hexponent part rfl) hrest.not_digit)

theorem ExponentSpelling.head_text (h : exponent.isProper = true) :
    ∀ c ∈ exponent.text.head?, c.isDigit = false ∧ c ≠ '.' := by
  rintro c ⟨⟩
  rcases (isProper_iff.mp h).1 with hmark | hmark
  · rw [hmark]; decide
  · rw [hmark]; decide

/-- The parts of a number are found in its text. -/
theorem numberText_takes {n : NumberSpelling} (h : n.isProper = true) (hrest : Delimited rest) :
    Takes numberText (n.text ++ rest) n.text rest := by
  obtain ⟨negative, whole, fraction, exponent⟩ := n
  obtain ⟨hne, hdigits, hfractions, hexponents⟩ := NumberSpelling.isProper_iff.mp h
  have hexponent := optional_exponent_takes hexponents hrest
  have hstart : ∀ c ∈ ((exponent.map ExponentSpelling.text).getD [] ++ rest).head?,
      c.isDigit = false ∧ c ≠ '.' := by
    cases exponent with
    | none => exact fun c hc => ⟨hrest.not_digit c hc, (hrest c hc).2⟩
    | some part => exact fun c hc => part.head_text (hexponents part rfl) c hc
  have hfraction := optional_fraction_takes hfractions hstart
  have hwhole : Takes (Reader.runSome Char.isDigit)
      (whole ++ (Numeral.fractionText fraction ++ ((exponent.map ExponentSpelling.text).getD [] ++ rest))) whole
      (Numeral.fractionText fraction ++ ((exponent.map ExponentSpelling.text).getD [] ++ rest)) := by
    refine runSome_digits_takes hne hdigits ?_
    cases fraction with
    | none => exact fun c hc => (hstart c hc).1
    | some digits => exact forall_head rfl
  have htext : NumberSpelling.text ⟨negative, whole, fraction, exponent⟩ ++ rest = Numeral.sign negative ++
      (whole ++ (Numeral.fractionText fraction ++ ((exponent.map ExponentSpelling.text).getD [] ++ rest))) := by
    simp [NumberSpelling.text]
  rw [htext]
  refine (optional_minus_takes negative hne hdigits).bind (hwhole.bind (hfraction.bind
    (hexponent.bind ?_)))
  have hresult : NumberSpelling.text ⟨negative, whole, fraction, exponent⟩ =
      ((if negative then some () else none).map fun _ => '-').toList ++ whole ++
        (fraction.map ('.' :: ·)).getD [] ++ (exponent.map ExponentSpelling.text).getD [] := by
    cases negative <;> cases fraction <;> simp [NumberSpelling.text, Numeral.sign, Numeral.fractionText]
  rw [hresult]
  exact Takes.pure _ _

/-- A number starts with a sign or a digit. -/
theorem NumberSpelling.exists_head {n : NumberSpelling} (h : n.isProper = true) :
    ∃ c rest, n.text = c :: rest ∧ (c = '-' ∨ c.isDigit = true) := by
  obtain ⟨negative, whole, fraction, exponent⟩ := n
  obtain ⟨hne, hdigits, -, -⟩ := isProper_iff.mp h
  cases negative with
  | true => exact ⟨'-', _, rfl, Or.inl rfl⟩
  | false =>
    cases whole with
    | nil => exact absurd rfl hne
    | cons c whole => exact ⟨c, _, rfl, Or.inr (hdigits c (by simp))⟩

/-- The spelling of a numeral as it is written. -/
def NumberSpelling.ofNumeral (n : Numeral) : NumberSpelling :=
  ⟨n.negative, n.whole, n.fraction, n.exponent.map fun part => ⟨'e', if part.1 then some '-' else none, part.2⟩⟩

theorem NumberSpelling.text_ofNumeral (n : Numeral) : (ofNumeral n).text = n.text := by
  obtain ⟨negative, whole, fraction, exponent⟩ := n
  cases exponent with
  | none => simp [ofNumeral, text, Numeral.text, Numeral.exponentText]
  | some part =>
    obtain ⟨negative', digits⟩ := part
    cases negative' <;>
      simp [ofNumeral, text, ExponentSpelling.text, Numeral.text, Numeral.exponentText, Numeral.sign]

theorem NumberSpelling.isProper_ofNumeral (h : n.Proper) : (ofNumeral n).isProper = true := by
  refine isProper_iff.mpr ⟨h.whole_ne, h.whole, h.fraction, ?_⟩
  intro part hpart
  obtain ⟨⟨negative, digits⟩, hfound, rfl⟩ := Option.map_eq_some_iff.mp hpart
  obtain ⟨hne, hdigits⟩ := h.exponent _ hfound
  refine ExponentSpelling.isProper_iff.mpr ⟨Or.inl rfl, ?_, hne, hdigits⟩
  cases negative with
  | true => rintro c ⟨⟩; exact Or.inr rfl
  | false => rintro c ⟨⟩

theorem numeral_takes (h : n.Proper) (hrest : Delimited rest) : Takes numberText (n.text ++ rest) n.text rest := by
  rw [← NumberSpelling.text_ofNumeral]
  exact numberText_takes (NumberSpelling.isProper_ofNumeral h) hrest

theorem numberText_fails (h : ∀ c ∈ input.head?, c ≠ '-' ∧ c.isDigit = false) : Fails numberText input := by
  refine Fails.bind_second (Takes.optional_none (char_fails fun c hc => (h c hc).1)) (Fails.bind_first ?_)
  refine ⟨input, ?_⟩
  unfold Reader.runSome
  cases input with
  | nil => rfl
  | cons c rest => simp [(h c rfl).2]

theorem number_fails (h : ∀ c ∈ input.head?, c ≠ '-' ∧ c.isDigit = false) : Fails number input :=
  Fails.convert (numberText_fails h)

theorem numberLiteral_marked (hmarked : n.fraction.isSome ∨ n.exponent.isSome) :
    numberLiteral n.text = (Single.read? n.text).map .float := by
  unfold numberLiteral
  refine if_pos (any_eq_true.mpr ?_)
  obtain ⟨negative, whole, fraction, exponent⟩ := n
  rcases hmarked with hfraction | hexponent
  · obtain ⟨digits, rfl⟩ := Option.isSome_iff_exists.mp hfraction
    exact ⟨'.', by simp [Numeral.text, Numeral.fractionText], by decide⟩
  · obtain ⟨part, rfl⟩ := Option.isSome_iff_exists.mp hexponent
    exact ⟨'e', by simp [Numeral.text, Numeral.exponentText], by decide⟩

theorem marked_script : NumberStyle.script.Marked := ⟨rfl, rfl⟩

theorem number_takes_float (h : x.isFinite = true) (hrest : Delimited rest) :
    Takes number ((NumberStyle.script.text x).toList ++ rest) (.float x) rest := by
  cases x with
  | infinite => cases h
  | nan => cases h
  | finite negative code =>
    obtain ⟨n, hproper, hmarked, htext, hread⟩ :=
      NumberStyle.exists_numeral marked_script negative code
    rw [htext]
    refine (numeral_takes hproper hrest).convert ?_
    rw [numberLiteral_marked hmarked, hread]
    rfl

theorem text_ofInt_plain (i : Int) :
    ((Numeral.ofInt i).text.any fun c => c == '.' || c == 'e' || c == 'E') = false := by
  have hdigits := NumberStyle.digits_toDigits i.natAbs
  rw [any_eq_false]
  intro c hc
  have hcase : c = '-' ∨ c.isDigit = true := by
    rcases lt_or_ge i 0 with hneg | hpos
    · rw [Numeral.text_ofInt_neg hneg] at hc
      exact (mem_cons.mp hc).imp_right (hdigits c)
    · rw [Numeral.text_ofInt_nonneg hpos] at hc
      exact Or.inr (hdigits c hc)
  rcases hcase with rfl | hdigit
  · decide
  · have hpoint : c ≠ '.' := ne_of_test hdigit rfl
    have hlower : c ≠ 'e' := ne_of_test hdigit rfl
    have hupper : c ≠ 'E' := ne_of_test hdigit rfl
    simp [hpoint, hlower, hupper]

theorem numberLiteral_whole (v : Int32) :
    numberLiteral (Numeral.ofInt v.toInt).text = some (.int v) := by
  have hvalue := Single.digitsValue_toDigits v.toInt.natAbs
  have hrange : -2147483648 ≤ v.toInt ∧ v.toInt ≤ 2147483647 := by
    have hlow := v.le_toInt
    have hhigh := v.toInt_lt
    omega
  unfold numberLiteral
  rw [if_neg (Bool.eq_false_iff.mp (text_ofInt_plain v.toInt))]
  rcases lt_or_ge v.toInt 0 with hneg | hpos
  · have hsigned : -(v.toInt.natAbs : Int) = v.toInt := by omega
    rw [Numeral.text_ofInt_neg hneg]
    simp only [hvalue, if_true, hsigned, if_pos hrange, Int32.ofInt_toInt]
  · have hsigned : (v.toInt.natAbs : Int) = v.toInt := by omega
    have hminus : ∀ rest, Nat.toDigits 10 v.toInt.natAbs ≠ '-' :: rest := by
      intro rest heq
      have := NumberStyle.digits_toDigits v.toInt.natAbs '-' (by rw [heq]; simp)
      exact absurd this (by decide)
    rw [Numeral.text_ofInt_nonneg hpos]
    split
    next negative digits heq =>
      split at heq
      next rest hlist => exact absurd hlist (hminus rest)
      next =>
        cases heq
        simp only [hvalue, Bool.false_eq_true, if_false, hsigned, if_pos hrange,
          Int32.ofInt_toInt]

theorem number_takes_int (v : Int32) (hrest : Delimited rest) :
    Takes number ((Literal.intText v).toList ++ rest) (.int v) rest := by
  rw [Literal.intText, Numeral.toList_toString]
  exact (numeral_takes (Numeral.ofInt_proper _) hrest).convert (numberLiteral_whole v)

/-! ## Tuples -/

theorem exists_head_float (h : x.isFinite = true) :
    ∃ c rest, (NumberStyle.script.text x).toList = c :: rest ∧ (c = '-' ∨ c.isDigit = true) := by
  cases x with
  | infinite => cases h
  | nan => cases h
  | finite negative code =>
    obtain ⟨n, hproper, -, htext, -⟩ := NumberStyle.exists_numeral marked_script negative code
    rw [htext]
    exact Numeral.exists_head_text hproper

theorem solid_of_digit {c : Char} (rest : List Char) (h : c = '-' ∨ c.isDigit = true) :
    Solid (c :: rest) := by
  rcases h with rfl | hdigit
  · exact solid_of_cons rest rfl
  · refine ⟨c, rest, rfl, ?_, ne_of_test hdigit rfl⟩
    have hblank : c ≠ ' ' := ne_of_test hdigit rfl
    have htab : c ≠ '\t' := ne_of_test hdigit rfl
    have hreturn : c ≠ '\r' := ne_of_test hdigit rfl
    have hnewline : c ≠ '\n' := ne_of_test hdigit rfl
    simp [isSpace, hblank, htab, hreturn, hnewline]

theorem solid_float (h : x.isFinite = true) : Solid (NumberStyle.script.text x).toList := by
  obtain ⟨c, rest, heq, hc⟩ := exists_head_float h
  rw [heq]
  exact solid_of_digit rest hc

theorem component_inverts (h : x.isFinite = true) : Inverts component NumberStyle.script.text x := by
  intro input rest hinput hrest
  exact (Takes.token hinput (number_takes_float h hrest.delimited)).convert rfl

theorem tupleLiteral_takes {values : List Single} {literal : Literal} (hfinite : ∀ x ∈ values, x.isFinite = true)
    (hliteral : (∃ x y z, values = [x, y, z] ∧ literal = .vector x y z) ∨
      ∃ r g b a, values = [r, g, b, a] ∧ literal = .color r g b a) :
    Takes tupleLiteral ((floats values).toList ++ rest) literal rest := by
  have htext : (floats values).toList ++ rest =
      '(' :: ((Text.join ", " (values.map NumberStyle.script.text)).toList ++ ')' :: rest) := by
    simp [floats]
  have hclose : skipBlank (')' :: rest) = ')' :: rest :=
    (solid_of_cons rest rfl).skipBlank
  have hstop : Fails comma (')' :: rest) := symbol_fails (by rw [hclose]; exact forall_head (by decide))
  have hitems : Takes (Reader.separatedSome comma component)
      ((Text.join ", " (values.map NumberStyle.script.text)).toList ++ ')' :: rest) values
      (')' :: rest) := by
    cases values with
    | nil => simp at hliteral
    | cons x values =>
      refine separatedSome_takes (fun y hy => component_inverts (hfinite y hy))
        (fun y hy => solid_float (hfinite y hy)) (closed_cons rest rfl) hstop ?_
      rw [toList_join_cons, append_assoc]
      exact ((solid_float (hfinite x (by simp))).append _).skipBlank
  rw [htext]
  refine Takes.convert ((char_takes '(' _).bind (hitems.bind ((Takes.optional_none hstop).bind
    ((symbol_takes hclose).bind (Takes.pure _ _))))) ?_
  obtain ⟨x, y, z, rfl, rfl⟩ | ⟨r, g, b, a, rfl, rfl⟩ := hliteral
  · rfl
  · rfl

theorem tupleLiteral_fails (h : ∀ c ∈ input.head?, c ≠ '(') : Fails tupleLiteral input :=
  Fails.convert (Fails.bind_first (char_fails h))

end NodeScript.Script
