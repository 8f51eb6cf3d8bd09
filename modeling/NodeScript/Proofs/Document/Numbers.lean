import NodeScript.Document.Codec
import NodeScript.Proofs.Document.ReadBack

/-!
# Numbers and identities of documents read back

Integers, binary32 numbers and identities are understood as what was written.
-/

namespace NodeScript

open List

variable {c : Char} {i : Int}

namespace Numeral

/-! ## Integers -/

variable {digits : List Char} {n : Numeral}

theorem splitSign_ofInt (i : Int) : splitSign (ofInt i).text = (decide (i < 0), Nat.toDigits 10 i.natAbs) := by
  rcases lt_or_ge i 0 with hneg | hpos
  · rw [text_ofInt_neg hneg, decide_eq_true hneg]
    rfl
  · rw [text_ofInt_nonneg hpos, decide_eq_false (not_lt.mpr hpos)]
    have hdigits := NumberStyle.digits_toDigits i.natAbs
    unfold splitSign
    split
    next heq => exact absurd (hdigits '-' (by rw [heq]; simp)) (by decide)
    next heq => exact absurd (hdigits '+' (by rw [heq]; simp)) (by decide)
    next => rfl

theorem splitBase_digits (h : Digits digits) : splitBase digits = (10, digits) := by
  unfold splitBase
  split
  next => exact absurd (h 'x' (by simp)) (by decide)
  next => exact absurd (h 'o' (by simp)) (by decide)
  next => exact absurd (h 'b' (by simp)) (by decide)
  next => rfl

theorem digitsIn?_toDigits (n : Nat) : digitsIn? 10 (Nat.toDigits 10 n) = some n := by
  have hvalues : ∀ c ∈ Nat.toDigits 10 n, digitValue c < 10 := fun c hc =>
    digitValue_lt_of_mem_toDigits (by decide) (by decide) hc
  have hne : ∀ c ∈ Nat.toDigits 10 n, c ≠ '_' := fun c hc =>
    ne_of_test (NumberStyle.digits_toDigits n c hc) rfl
  have hall : ((Nat.toDigits 10 n).all fun c => c = '_' || digitValue c < 10) = true := by
    rw [all_eq_true]
    intro c hc
    simp [hvalues c hc]
  have hfilter : (Nat.toDigits 10 n).filter (· ≠ '_') = Nat.toDigits 10 n := by
    rw [filter_eq_self]
    intro c hc
    exact decide_eq_true (hne c hc)
  unfold digitsIn?
  split
  next hnil => exact absurd hnil Nat.toDigits_ne_nil
  next heq => exact absurd rfl (hne '_' (by rw [heq]; simp))
  next => rw [if_pos hall, hfilter, foldl_toDigits (by decide) (by decide)]

theorem plainInteger?_ofInt (i : Int) : plainInteger? (ofInt i).text = some i := by
  have hvalue : (if decide (i < 0) = true then -(i.natAbs : Int) else i.natAbs) = i := by
    simp only [decide_eq_true_eq]
    split <;> omega
  simp only [plainInteger?, splitSign_ofInt, splitBase_digits (NumberStyle.digits_toDigits _), digitsIn?_toDigits]
  exact congrArg some hvalue

theorem splitWidth_ofInt (i : Int) : splitWidth (ofInt i).text = ((ofInt i).text, none) := by
  have hhex : ∀ c ∈ Nat.toDigits 10 i.natAbs, (decide (c = '_') || decide (digitValue c < 16)) = true := by
    intro c hc
    have hvalue := digitValue_lt_of_mem_toDigits (by decide) (by decide) hc
    simp only [Bool.or_eq_true, decide_eq_true_eq]
    omega
  have hmark := (@Document.span_run _ _ [] hhex (by simp)).2
  rw [append_nil] at hmark
  have hnone : (Width.all.find? fun width => width.mark.toList = []) = none := by decide +kernel
  simp only [splitWidth, splitSign_ofInt, hmark, hnone]

theorem integer?_ofInt {width : Width} (h : width.holds i = true) :
    integer? width (ofInt i).text = some i := by
  simp [integer?, splitWidth_ofInt, plainInteger?_ofInt, h]

theorem isInteger_ofInt (h : (Width.signed 64).holds i = true) : isInteger (ofInt i).text = true := by
  simp [isInteger, splitWidth_ofInt, plainInteger?_ofInt, h]

/-! ## Binary32 numbers -/

theorem mem_sign {negative : Bool} (h : c ∈ sign negative) : c = '-' := by
  cases negative with
  | true => exact mem_singleton.mp h
  | false => cases h

/-- Characters of a numeral. -/
theorem mem_text (h : n.Proper) (hc : c ∈ n.text) : c = '-' ∨ c = '.' ∨ c = 'e' ∨ c.isDigit = true := by
  simp only [text, mem_append] at hc
  rcases hc with hc | hc | hc | hc
  · exact Or.inl (mem_sign hc)
  · exact Or.inr (Or.inr (Or.inr (h.whole c hc)))
  · cases hfraction : n.fraction with
    | none =>
      rw [hfraction] at hc
      cases hc
    | some digits =>
      rw [hfraction] at hc
      rcases mem_cons.mp hc with hc | hc
      · exact Or.inr (Or.inl hc)
      · exact Or.inr (Or.inr (Or.inr (h.fraction digits hfraction c hc)))
  · cases hexponent : n.exponent with
    | none =>
      rw [hexponent] at hc
      cases hc
    | some part =>
      rw [hexponent] at hc
      rcases mem_cons.mp hc with hc | hc
      · exact Or.inr (Or.inr (Or.inl hc))
      · rcases mem_append.mp hc with hc | hc
        · exact Or.inl (mem_sign hc)
        · exact Or.inr (Or.inr (Or.inr ((h.exponent part hexponent).2 c hc)))

/-- A letter other than that of exponents does not occur in a numeral. -/
theorem not_mem_text (h : n.Proper) {d : Char}
    (hd : d ≠ '-' ∧ d ≠ '.' ∧ d ≠ 'e' ∧ d.isDigit = false) : d ∉ n.text := by
  intro hmem
  rcases mem_text h hmem with hc | hc | hc | hc
  · exact hd.1 hc
  · exact hd.2.1 hc
  · exact hd.2.2.1 hc
  · rw [hd.2.2.2] at hc
    cases hc

theorem withoutUnderscores_eq (h : '_' ∉ digits) (allowed : Bool) :
    withoutUnderscores allowed digits = some digits := by
  induction digits generalizing allowed with
  | nil => rw [withoutUnderscores]
  | cons c rest ih =>
    obtain ⟨hc, hrest⟩ := ne_and_not_mem_of_not_mem_cons h
    rw [withoutUnderscores]
    · simp only [ih hrest, Option.map_some]
    · exact fun heq => hc heq.symm

theorem special?_eq_none (hlower : 'n' ∉ digits) (hupper : 'N' ∉ digits) : special? digits = none := by
  unfold special?
  split <;> simp_all

theorem endsIn_singleMark (h : 'f' ∉ digits) : endsIn singleMark digits = false := by
  rw [endsIn, Bool.eq_false_iff]
  intro hends
  have hleading := isPrefixOf_iff_prefix.mp hends
  exact h (mem_reverse.mp (hleading.subset (by decide)))

theorem single?_text (h : n.Proper) : single? n.text = Single.read? n.text := by
  have hmark := endsIn_singleMark (not_mem_text h (d := 'f') (by decide))
  have hspecial := special?_eq_none (not_mem_text h (d := 'n') (by decide)) (not_mem_text h (d := 'N') (by decide))
  have hplain := withoutUnderscores_eq (not_mem_text h (d := '_') (by decide)) false
  simp [single?, withoutMark, hmark, plainSingle?, hspecial, hplain]

end Numeral

theorem NumberStyle.marked_document : NumberStyle.document.Marked := ⟨rfl, rfl⟩

/-- A number of a document is read as the number that was written. -/
theorem Numeral.single?_document (value : Single) :
    Numeral.single? (NumberStyle.document.text value).toList = some value := by
  cases value with
  | finite negative code =>
    obtain ⟨n, hproper, -, htext, hread⟩ := NumberStyle.exists_numeral NumberStyle.marked_document negative code
    rw [htext, single?_text hproper, hread]
  | infinite negative => cases negative <;> rfl
  | nan negative => cases negative <;> rfl

namespace Document

theorem isPlainNumber_text {n : Numeral} (h : n.Proper) (hnumeral : Numeral.isNumeral n.text = true) :
    isPlainNumber n.text = true := by
  have hparts : ∀ c ∈ n.text, isNumberPart c = true := by
    intro c hc
    rcases Numeral.mem_text h hc with rfl | rfl | rfl | hdigit
    · decide
    · decide
    · decide
    · simp [isNumberPart, Char.isAlphanum, hdigit]
  obtain ⟨c, rest, htext, hc⟩ := Numeral.exists_head_text h
  have hhead : n.text.head?.any (· ∈ numberStarts) = true := by
    rw [htext]
    simpa using mem_numberStarts hc
  simp only [isPlainNumber, hhead, hnumeral, all_eq_true.mpr hparts, Bool.and_self, Bool.or_true]

theorem isPlainNumber_ofInt (h : (Numeral.Width.signed 64).holds i = true) :
    isPlainNumber (Numeral.ofInt i).text = true := by
  apply isPlainNumber_text (Numeral.ofInt_proper i)
  simp [Numeral.isNumeral, Numeral.isInteger_ofInt h]

theorem isPlainNumber_document (value : Single) :
    isPlainNumber (NumberStyle.document.text value).toList = true := by
  have hread := Numeral.single?_document value
  cases value with
  | finite negative code =>
    obtain ⟨n, hproper, -, htext, -⟩ := NumberStyle.exists_numeral NumberStyle.marked_document negative code
    rw [htext] at hread ⊢
    apply isPlainNumber_text hproper
    simp [Numeral.isNumeral, hread]
  | infinite negative => cases negative <;> decide +kernel
  | nan negative => cases negative <;> decide +kernel

end Document

/-! ## Identities -/

namespace Identity

variable {identity : Identity}

/-- Whether an identity has a text of its own. -/
def Fits (identity : Identity) : Prop := identity.code < 2 ^ 128

instance (identity : Identity) : Decidable identity.Fits := inferInstanceAs (Decidable (identity.code < 2 ^ 128))

theorem length_hexDigits (n value : Nat) : (hexDigits n value).length = n := by
  induction n generalizing value with
  | zero => rfl
  | succ n ih => simp [hexDigits, ih]

theorem digitValue_of_mem_hexDigits {n value : Nat} (h : c ∈ hexDigits n value) :
    Numeral.digitValue c < 16 := by
  induction n generalizing value with
  | zero => cases h
  | succ n ih =>
    rcases mem_append.mp h with h | h
    · exact ih h
    · have hmod : value % 16 < 16 := Nat.mod_lt _ (by decide)
      rw [mem_singleton.mp h, Numeral.digitValue_digitChar hmod]
      exact hmod

theorem foldl_hexDigits (n value : Nat) :
    (hexDigits n value).foldl (fun n c => n * 16 + Numeral.digitValue c) 0 = value % 16 ^ n := by
  induction n generalizing value with
  | zero => simp [hexDigits, Nat.mod_one]
  | succ n ih =>
    rw [hexDigits, foldl_append, ih, foldl_cons, foldl_nil,
      Numeral.digitValue_digitChar (Nat.mod_lt _ (by decide)), pow_succ, Nat.mul_comm (16 ^ n) 16, Nat.mod_mul]
    omega

theorem ofHex?_hexDigits (h : identity.Fits) : ofHex? (hexDigits 32 identity.code) = some identity := by
  have hall : ((hexDigits 32 identity.code).all fun c => Numeral.digitValue c < 16) = true := by
    rw [all_eq_true]
    intro c hc
    exact decide_eq_true (digitValue_of_mem_hexDigits hc)
  have hcode : identity.code % 16 ^ 32 = identity.code := Nat.mod_eq_of_lt (by simpa [Fits] using h)
  rw [ofHex?, if_pos ⟨length_hexDigits _ _, hall⟩, foldl_hexDigits, hcode]

/-- Groups with dashes between them are put together again. -/
theorem ofGroups?_append {a b c d e : List Char} (ha : a.length = 8) (hb : b.length = 4) (hc : c.length = 4)
    (hd : d.length = 4) (he : e.length = 12) :
    ofGroups? (a ++ '-' :: b ++ '-' :: c ++ '-' :: d ++ '-' :: e) = ofHex? (a ++ b ++ c ++ d ++ e) := by
  simp [ofGroups?, drop_append, drop_eq_nil_of_le, take_of_length_le, ha, hb, hc, hd, he]

/-- The text of an identity of 128 bits is read as the identity. -/
theorem ofText?_text (h : identity.Fits) : ofText? identity.text = some identity := by
  have hlength := length_hexDigits 32 identity.code
  have hhex := ofHex?_hexDigits h
  unfold ofText? text
  generalize hexDigits 32 identity.code = digits at hlength hhex
  have hgroups : (digits.drop 0).take 8 ++ (digits.drop 8).take 4 ++ (digits.drop 12).take 4 ++
      (digits.drop 16).take 4 ++ (digits.drop 20).take 12 = digits := by
    rw [drop_zero, ← take_add, ← take_add, ← take_add, ← take_add,
      take_of_length_le (by omega)]
  have hread := ofGroups?_append (a := (digits.drop 0).take 8) (b := (digits.drop 8).take 4)
    (c := (digits.drop 12).take 4) (d := (digits.drop 16).take 4) (e := (digits.drop 20).take 12)
    (by simp [hlength]) (by simp [hlength]) (by simp [hlength]) (by simp [hlength]) (by simp [hlength])
  rw [hgroups, hhex] at hread
  have htotal : ((digits.drop 0).take 8 ++ '-' :: (digits.drop 8).take 4 ++ '-' :: (digits.drop 12).take 4 ++
      '-' :: (digits.drop 16).take 4 ++ '-' :: (digits.drop 20).take 12).length = 36 := by
    simp [hlength]
  simp only [String.toList_ofList]
  rw [if_neg (by rw [htotal]; decide), if_pos htotal, hread]

end Identity

end NodeScript
