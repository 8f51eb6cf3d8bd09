import NodeScript.Proofs.Script.Literals

/-!
# Script texts read back

A program whose names are identifiers and whose numbers are finite is read back from its script text
without change. The texts in it (string literals, the graph name, the keys of the results) may be
any.

## Implementation notes

Readers of values and statements recurse on a nesting allowance. The length of a text bounds the
nesting of what it shows, so every statement here asks for an allowance above the length of its
text.
-/

namespace NodeScript.Script

open List

/-! ## What can be printed -/

variable {l : Literal} {v : Value} {depth level : Nat} {input rest tail : List Char} {c : Char} {values : List Value}
  {param : Parameter} {args : List (String × Value)} {function target word : String} {body : List Statement}
  {s : Statement} {α : Type}

def finiteLiteral : Literal → Bool
  | .float x => x.isFinite
  | .vector x y z => x.isFinite && y.isFinite && z.isFinite
  | .color r g b a => r.isFinite && g.isFinite && b.isFinite && a.isFinite
  | _ => true

mutual

/-- Names are identifiers other than the truth values, and numbers are finite. -/
def Value.printable : Value → Bool
  | .literal v => finiteLiteral v
  | .list items => Value.allPrintable items
  | .name n => isIdentifier n && n != "True" && n != "False"
  | .select base output => isIdentifier base && isIdentifier output

def Value.allPrintable : List Value → Bool
  | [] => true
  | value :: values => value.printable && Value.allPrintable values

end

def Parameter.printable (param : Parameter) : Bool :=
  isIdentifier param.name && isIdentifier param.typeName && param.default.all Value.printable

def printableArgs (args : List (String × Value)) : Bool :=
  args.all fun (name, value) => isIdentifier name && value.printable

mutual

/-- Every name in the statement and in the statements inside is an identifier. -/
def Statement.printable : Statement → Bool
  | .call target function args =>
    isIdentifier target && isIdentifier function && printableArgs args
  | .zone target _ items args body next =>
    isIdentifier target && items.all Parameter.printable && printableArgs args &&
      Statement.allPrintable body && Value.allPrintable next

def Statement.allPrintable : List Statement → Bool
  | [] => true
  | statement :: rest => statement.printable && Statement.allPrintable rest

end

/-- Every name in the program is an identifier, and so is the name its function is declared
under. -/
def Program.printable (program : Program) : Bool :=
  isIdentifier program.functionName && program.params.all Parameter.printable &&
    Statement.allPrintable program.statements && program.returns.all fun entry => entry.2.printable

/-! ## Values -/

theorem Value.renderAll_eq (values : List Value) : Value.renderAll values = values.map Value.render := by
  induction values with
  | nil => rfl
  | cons value values ih => rw [Value.renderAll, ih, map_cons]

/-- A text between commas is no longer than the whole. -/
theorem length_le_join {f : α → String} {items : List α} {a : α} (h : a ∈ items) :
    (f a).toList.length ≤ (Text.join ", " (items.map f)).toList.length := by
  induction items with
  | nil => cases h
  | cons b items ih =>
    rw [toList_join_cons, length_append]
    rcases mem_cons.mp h with rfl | hmem
    · omega
    · have := ih hmem
      cases items with
      | nil => cases hmem
      | cons c items =>
        rw [toList_join_cons] at this
        simp only [flatMap_cons, length_append, length_cons] at this ⊢
        omega

theorem solid_literal (h : finiteLiteral l = true) : Solid (literalText l).toList := by
  cases l with
  | bool v =>
    cases v with
    | true => exact @solid_of_isIdentifier "True" (by decide)
    | false => exact @solid_of_isIdentifier "False" (by decide)
  | int v =>
    obtain ⟨c, rest, heq, hc⟩ := Numeral.exists_head_text (Numeral.ofInt_proper v.toInt)
    rw [literalText, Literal.intText, Numeral.toList_toString, heq]
    exact solid_of_digit rest hc
  | float x => exact solid_float h
  | vector x y z => exact ⟨'(', _, by simp [literalText, floats]; rfl, by decide, by decide⟩
  | color r g b a => exact ⟨'(', _, by simp [literalText, floats]; rfl, by decide, by decide⟩
  | text v => exact solid_quote v

theorem Value.solid (h : v.printable = true) : Solid v.render.toList := by
  cases v with
  | literal l => exact solid_literal h
  | list items => exact ⟨'[', _, by simp [Value.render]; rfl, by decide, by decide⟩
  | name n =>
    simp only [Value.printable, Bool.and_eq_true] at h
    exact solid_of_isIdentifier h.1.1
  | select base output =>
    simp only [Value.printable, Bool.and_eq_true] at h
    rw [Value.render, String.toList_append, String.toList_append, append_assoc]
    exact (solid_of_isIdentifier h.1).append _

/-- The readers of quoted texts, tuples and lists leave other texts to the readers of numbers and
names. -/
theorem value_takes_plain {more : List Char}
    (hinput : skipBlank input = c :: more) (hquote : c ≠ '"') (hround : c ≠ '(') (hsquare : c ≠ '[')
    (h : Takes (Reader.orElse (do return .literal (← number)) nameValue) (c :: more) v rest) :
    Takes (value (depth + 1)) input v rest :=
  Takes.token hinput (Takes.orElse_right (Fails.bind_first (string_fails (forall_head hquote)))
    (Takes.orElse_right (Fails.bind_first (tupleLiteral_fails (forall_head hround)))
      (Takes.orElse_right (Fails.bind_first (char_fails (forall_head hsquare))) h)))

theorem value_takes_number {text : List Char} (hinput : skipBlank input = text ++ rest)
    (hhead : ∃ c more, text = c :: more ∧ (c = '-' ∨ c.isDigit = true)) (h : Takes number (text ++ rest) l rest) :
    Takes (value (depth + 1)) input (.literal l) rest := by
  obtain ⟨c, more, rfl, hc⟩ := hhead
  have hne (d : Char) (hminus : '-' ≠ d) (hd : d.isDigit = false) : c ≠ d :=
    hc.elim (fun h => h ▸ hminus) fun h => ne_of_test h hd
  exact value_takes_plain hinput (hne '"' (by decide) (by decide)) (hne '(' (by decide) (by decide))
    (hne '[' (by decide) (by decide)) (Takes.orElse_left (h.bind (Takes.pure _ _)))

theorem not_digit_of_isLetter (h : isLetter c = true) : c.isDigit = false := by
  simp only [isLetter, Bool.or_eq_true, beq_iff_eq] at h
  rcases h with halpha | rfl
  · have hletter : c.isAlpha = (c.isUpper || c.isLower) := rfl
    have hupper : c.isUpper = decide (c.val ≥ 65 ∧ c.val ≤ 90) := rfl
    have hlower : c.isLower = (decide (c.val ≥ 97) && decide (c.val ≤ 122)) := rfl
    have hdigit : c.isDigit = (decide (c.val ≥ 48) && decide (c.val ≤ 57)) := rfl
    grind
  · decide

theorem value_takes_name {base : String}
    (hbase : isIdentifier base = true) (hinput : skipBlank input = base.toList ++ rest)
    {last : List Char} (h : Takes nameValue (base.toList ++ rest) v last) :
    Takes (value (depth + 1)) input v last := by
  obtain ⟨c, more, heq, hletter, -⟩ := exists_of_isIdentifier hbase
  rw [heq, cons_append] at hinput h
  refine value_takes_plain hinput (ne_of_test hletter rfl) (ne_of_test hletter rfl)
    (ne_of_test hletter rfl) (Takes.orElse_right (Fails.bind_first (number_fails (forall_head ?_))) h)
  exact ⟨ne_of_test hletter rfl, not_digit_of_isLetter hletter⟩

theorem nameValue_takes_name {n : String} (h : isIdentifier n = true) (hrest : Delimited rest) :
    Takes nameValue (n.toList ++ rest)
      (if n = "True" then .literal (.bool true)
        else if n = "False" then .literal (.bool false) else .name n) rest := by
  refine (identifier_takes h (skipBlank_word rest h) fun c hc => (hrest c hc).1).bind
    (Takes.bind (Takes.optional_none (Fails.bind_first ?_))
    (Takes.pure _ _))
  exact char_fails fun c hc => (hrest c hc).2

theorem nameValue_takes_select {base output : String} (hbase : isIdentifier base = true)
    (houtput : isIdentifier output = true) (hrest : Delimited rest) :
    Takes nameValue (base.toList ++ ('.' :: (output.toList ++ rest))) (.select base output) rest := by
  have hfirst : Takes identifier (base.toList ++ ('.' :: (output.toList ++ rest))) base
      ('.' :: (output.toList ++ rest)) :=
    identifier_takes hbase (skipBlank_word _ hbase) (forall_head rfl)
  have hsecond : Takes identifier (output.toList ++ rest) output rest :=
    identifier_takes houtput (skipBlank_word _ houtput) fun c hc => (hrest c hc).1
  exact hfirst.bind ((Takes.optional_some ((char_takes '.' _).bind hsecond)).bind (Takes.pure _ _))

theorem value_takes_tuple {values : List Single} (hinput : skipBlank input = (floats values).toList ++ rest)
    (h : Takes tupleLiteral ((floats values).toList ++ rest) l rest) :
    Takes (value (depth + 1)) input (.literal l) rest := by
  refine Takes.token hinput (Takes.orElse_right (Fails.bind_first (string_fails ?_))
    (Takes.orElse_left (h.bind (Takes.pure _ _))))
  simp [floats]

theorem literal_inverts (h : finiteLiteral l = true) (depth : Nat) :
    Inverts (value (depth + 1)) Value.render (.literal l) := by
  intro input rest hinput hrest
  rw [Value.render] at hinput
  have hdelimited := hrest.delimited
  cases l with
  | bool v =>
    cases v with
    | true =>
      exact @value_takes_name _ depth input rest "True" (by decide) hinput _
        (nameValue_takes_name (by decide) hdelimited)
    | false =>
      exact @value_takes_name _ depth input rest "False" (by decide) hinput _
        (nameValue_takes_name (by decide) hdelimited)
  | int v =>
    refine value_takes_number hinput ?_ (number_takes_int v hdelimited)
    rw [literalText, Literal.intText, Numeral.toList_toString]
    exact Numeral.exists_head_text (Numeral.ofInt_proper v.toInt)
  | float x => exact value_takes_number hinput (exists_head_float h) (number_takes_float h hdelimited)
  | vector x y z =>
    exact value_takes_tuple hinput (tupleLiteral_takes (by simpa [finiteLiteral, and_assoc] using h)
      (Or.inl ⟨x, y, z, rfl, rfl⟩))
  | color r g b a =>
    exact value_takes_tuple hinput (tupleLiteral_takes (by simpa [finiteLiteral, and_assoc] using h)
      (Or.inr ⟨r, g, b, a, rfl, rfl⟩))
  | text v => exact Takes.token hinput (Takes.orElse_left ((string_takes v rest).bind (Takes.pure _ _)))

/-- No value starts with a closing bracket. -/
theorem value_fails (h : skipBlank input = c :: tail) (hc : c = ')' ∨ c = ']') : Fails (value depth) input := by
  cases depth with
  | zero => exact ⟨input, rfl⟩
  | succ depth =>
    apply Fails.token
    rw [h]
    refine Fails.orElse (Fails.bind_first (string_fails (forall_head ?_))) (Fails.orElse
      (Fails.bind_first (tupleLiteral_fails (forall_head ?_))) (Fails.orElse
      (Fails.bind_first (char_fails (forall_head ?_))) (Fails.orElse
      (Fails.bind_first (number_fails (forall_head ?_))) (Fails.bind_first (identifier_fails ?_)))))
    any_goals obtain rfl | rfl := hc <;> decide
    rw [← h, skipBlank_skipBlank, h]
    refine forall_head ?_
    obtain rfl | rfl := hc <;> decide

theorem list_takes {items : List Value} (hreads : ∀ v ∈ items, Inverts (value depth) Value.render v)
    (hprintable : ∀ v ∈ items, v.printable = true)
    (hinput : skipBlank input = (Value.render (.list items)).toList ++ rest) :
    Takes (value (depth + 1)) input (.list items) rest := by
  have htext : (Value.render (.list items)).toList ++ rest =
      '[' :: ((Text.join ", " (items.map Value.render)).toList ++ ']' :: rest) := by
    simp [Value.render, Value.renderAll_eq]
  have hsolid : ∀ v ∈ items, Solid v.render.toList := fun v hv => Value.solid (hprintable v hv)
  have hend : Solid (']' :: rest) := solid_of_cons rest rfl
  obtain ⟨last, hitems, hlast⟩ := separated_takes hreads hsolid (closed_cons rest rfl)
    hend.skipBlank (by decide) (fun input h => value_fails h (Or.inr rfl)) (solid_join hsolid hend).skipBlank
  have hcomma : Fails comma last := symbol_fails (by rw [hlast]; exact forall_head (by decide))
  exact Takes.token (hinput.trans htext)
    (Takes.orElse_right (Fails.bind_first (string_fails (forall_head (by decide))))
    (Takes.orElse_right (Fails.bind_first (tupleLiteral_fails (forall_head (by decide))))
      (Takes.orElse_left ((char_takes '[' _).bind
    (hitems.bind ((Takes.optional_none hcomma).bind ((symbol_takes hlast).bind (Takes.pure _ _))))))))

theorem Value.allPrintable_iff : Value.allPrintable values = true ↔ ∀ v ∈ values, v.printable = true := by
  induction values with
  | nil => simp [Value.allPrintable]
  | cons value values ih => simp [Value.allPrintable, ih]

/-- A printable value is read back from its text. -/
theorem value_inverts (h : v.printable = true) (hdepth : v.render.toList.length < depth) :
    Inverts (value depth) Value.render v := by
  -- A list inside a list has a shorter text, so the allowance of the level below is enough for it.
  induction depth generalizing v with
  | zero => omega
  | succ depth ih =>
    intro input rest hinput hrest
    cases v with
    | literal l => exact literal_inverts h depth input rest hinput hrest
    | list items =>
      have hprintable := Value.allPrintable_iff.mp h
      refine list_takes (fun v hv => ih (hprintable v hv) ?_) hprintable hinput
      have hitem := @length_le_join _ Value.render items v hv
      simp only [Value.render, Value.renderAll_eq, String.toList_append, length_append] at hdepth
      have hopen : ("[" : String).toList.length = 1 := rfl
      omega
    | name n =>
      simp only [Value.printable, Bool.and_eq_true, bne_iff_ne, ne_eq] at h
      have hname := nameValue_takes_name h.1.1 hrest.delimited
      rw [if_neg h.1.2, if_neg h.2] at hname
      exact value_takes_name h.1.1 hinput hname
    | select base output =>
      simp only [Value.printable, Bool.and_eq_true] at h
      have htext : (Value.render (.select base output)).toList ++ rest =
          base.toList ++ ('.' :: (output.toList ++ rest)) := by
        simp [Value.render]
      rw [htext] at hinput
      exact value_takes_name h.1 hinput (nameValue_takes_select h.1 h.2 hrest.delimited)

/-! ## Parameters, arguments and results -/

theorem identifier_takes_space {text : String} (h : isIdentifier text = true)
    (hrest : ∀ c ∈ rest.head?, isWordChar c = false) :
    Takes identifier (' ' :: (text.toList ++ rest)) text rest := by
  refine identifier_takes h ?_ hrest
  rw [skipBlank_space, skipBlank_word rest h]

theorem value_takes_space (h : v.printable = true) (hdepth : v.render.toList.length < depth) (hrest : Closed rest) :
    Takes (value depth) (' ' :: (v.render.toList ++ rest)) v rest := by
  refine value_inverts h hdepth _ rest ?_ hrest
  rw [skipBlank_space, ((Value.solid h).append rest).skipBlank]

/-- The text of a parameter's default. -/
def defaultText : Option Value → List Char
  | none => []
  | some v => ' ' :: '=' :: ' ' :: v.render.toList

theorem Parameter.toList_render (param : Parameter) : param.render.toList =
    param.name.toList ++ (':' :: ' ' :: (param.typeName.toList ++ defaultText param.default)) := by
  obtain ⟨name, typeName, default⟩ := param
  cases default <;> simp [Parameter.render, defaultText]

theorem default_takes {default : Option Value}
    (h : default.all Value.printable = true) (hdepth : (defaultText default).length < depth)
    (hrest : Closed rest) :
    Takes (Reader.optional do symbol '='; value depth) (defaultText default ++ rest) default rest := by
  cases default with
  | none => exact Takes.optional_none (Fails.bind_first hrest.not_equals)
  | some v =>
    refine Takes.optional_some ((symbol_takes_space '=' _ rfl).bind (value_takes_space h ?_ hrest))
    simp only [defaultText, length_cons] at hdepth
    omega

theorem parameter_inverts (h : param.printable = true) (hdepth : param.render.toList.length < depth) :
    Inverts (parameter depth) Parameter.render param := by
  intro input rest hinput hrest
  rw [Parameter.toList_render] at hinput hdepth
  obtain ⟨name, typeName, default⟩ := param
  simp only [Parameter.printable, Bool.and_eq_true] at h
  obtain ⟨⟨hname, htype⟩, hdefault⟩ := h
  simp only [length_append, length_cons] at hdepth
  simp only [append_assoc, cons_append] at hinput
  have htail : ∀ c ∈ (defaultText default ++ rest).head?, isWordChar c = false := by
    cases default with
    | none => exact fun c hc => (hrest.delimited c hc).1
    | some v => exact forall_head rfl
  have hfirst := identifier_takes hname hinput (forall_head rfl)
  have hcolon := symbol_takes_cons ':' (' ' :: (typeName.toList ++ (defaultText default ++ rest))) rfl
  have hsecond := identifier_takes_space htype htail
  have hlast := default_takes hdefault (show (defaultText default).length < depth by omega) hrest
  exact hfirst.bind (hcolon.bind (hsecond.bind (hlast.bind (Takes.pure _ _))))

theorem Parameter.solid (h : param.printable = true) : Solid param.render.toList := by
  simp only [Parameter.printable, Bool.and_eq_true] at h
  rw [Parameter.toList_render]
  exact (solid_of_isIdentifier h.1.1).append _

/-- The text of an argument. -/
def renderArg (arg : String × Value) : String := arg.1 ++ "=" ++ arg.2.render

theorem argument_inverts {arg : String × Value} (hname : isIdentifier arg.1 = true) (hvalue : arg.2.printable = true)
    (hdepth : (renderArg arg).toList.length < depth) : Inverts (argument depth) renderArg arg := by
  intro input rest hinput hrest
  obtain ⟨name, v⟩ := arg
  simp only [renderArg, String.toList_append, length_append] at hdepth
  have hinput : skipBlank input = name.toList ++ '=' :: (v.render.toList ++ rest) := by
    rw [hinput]
    simp [renderArg]
  have hfirst := identifier_takes hname hinput (forall_head rfl)
  have hequals := symbol_takes_cons '=' (v.render.toList ++ rest) rfl
  have hlast := value_inverts hvalue (show v.render.toList.length < depth by omega)
    (v.render.toList ++ rest) rest ((Value.solid hvalue).append rest).skipBlank hrest
  exact hfirst.bind (hequals.bind (hlast.bind (Takes.pure _ _)))

/-- The text of a result. -/
def renderEntry (entry : String × Value) : String := quote entry.1 ++ ": " ++ entry.2.render

theorem returnEntry_inverts {entry : String × Value} (h : entry.2.printable = true)
    (hdepth : (renderEntry entry).toList.length < depth) : Inverts (returnEntry depth) renderEntry entry := by
  intro input rest hinput hrest
  obtain ⟨key, v⟩ := entry
  simp only [renderEntry, String.toList_append, length_append] at hdepth
  have hinput : skipBlank input = (quote key).toList ++ ':' :: ' ' :: (v.render.toList ++ rest) := by
    rw [hinput]
    simp [renderEntry]
  have hkey : Takes (token string) input key (':' :: ' ' :: (v.render.toList ++ rest)) :=
    Takes.token hinput (string_takes key _)
  have hcolon := symbol_takes_cons ':' (' ' :: (v.render.toList ++ rest)) rfl
  have hlast := value_takes_space h (show v.render.toList.length < depth by omega) hrest
  exact hkey.bind (hcolon.bind (hlast.bind (Takes.pure _ _)))

/-- Elements between round brackets. -/
theorem round_takes {reader : Reader α} {f : α → String} {items : List α} (hreads : ∀ a ∈ items, Inverts reader f a)
    (hsolid : ∀ a ∈ items, Solid (f a).toList)
    (hstop : ∀ input, skipBlank input = ')' :: tail → Fails reader input)
    (hinput : skipBlank input = '(' :: ((Text.join ", " (items.map f)).toList ++ ')' :: tail)) :
    Takes (enclosed '(' ')' reader) input items tail := by
  have hend : Solid (')' :: tail) := solid_of_cons tail rfl
  exact enclosed_takes hreads hsolid hinput (solid_join hsolid hend).skipBlank
    (closed_cons tail rfl) hend.skipBlank (by decide) hstop

theorem identifier_fails_close (h : skipBlank input = ')' :: tail) : Fails identifier input := by
  refine identifier_fails ?_
  rw [h]
  exact forall_head rfl

theorem params_take {params : List Parameter} (h : params.all Parameter.printable = true)
    (hdepth : (renderParams params).toList.length < depth)
    (hinput : skipBlank input = '(' :: ((renderParams params).toList ++ ')' :: tail)) :
    Takes (enclosed '(' ')' (parameter depth)) input params tail := by
  rw [all_eq_true] at h
  refine round_takes (fun param hparam => parameter_inverts (h param hparam) ?_)
    (fun param hparam => Parameter.solid (h param hparam))
    (fun input hclose => Fails.bind_first (identifier_fails_close hclose)) hinput
  exact lt_of_le_of_lt (length_le_join hparam) hdepth

theorem arguments_take (h : printableArgs args = true) (hdepth : (renderArgs args).toList.length < depth)
    (hinput : skipBlank input = '(' :: ((renderArgs args).toList ++ ')' :: tail)) :
    Takes (arguments depth) input args tail := by
  have harg : ∀ arg ∈ args, isIdentifier arg.1 = true ∧ arg.2.printable = true := by
    intro arg hmem
    simpa using all_eq_true.mp h arg hmem
  refine round_takes (f := renderArg)
    (fun arg hmem => argument_inverts (harg arg hmem).1 (harg arg hmem).2 ?_) (fun arg hmem => ?_)
    (fun input hclose => Fails.bind_first (identifier_fails_close hclose)) hinput
  · exact lt_of_le_of_lt (@length_le_join _ renderArg args arg hmem) hdepth
  · rw [renderArg, String.toList_append, String.toList_append, append_assoc]
    exact (solid_of_isIdentifier (harg arg hmem).1).append _

theorem values_take (h : Value.allPrintable values = true)
    (hdepth : (Text.join ", " (Value.renderAll values)).toList.length < depth)
    (hinput : skipBlank input = '(' :: ((Text.join ", " (Value.renderAll values)).toList ++ ')' :: tail)) :
    Takes (enclosed '(' ')' (value depth)) input values tail := by
  rw [Value.renderAll_eq] at hdepth hinput
  have hprintable := Value.allPrintable_iff.mp h
  refine round_takes (fun v hv => value_inverts (hprintable v hv) ?_)
    (fun v hv => Value.solid (hprintable v hv)) (fun input hclose => value_fails hclose (Or.inl rfl)) hinput
  exact lt_of_le_of_lt (length_le_join hv) hdepth

/-! ## Statements -/

@[simp] theorem skipBlank_indent (level : Nat) (rest : List Char) :
    skipBlank ((indent level).toList ++ rest) = skipBlank rest := by
  induction level with
  | zero => simp [indent]
  | succ level ih => simpa [indent] using ih

theorem length_skipBlank_le (text : List Char) : (skipBlank text).length ≤ text.length := by
  fun_induction skipBlank text with
  | case1 => simp
  | case2 c rest hspace ih => exact ih.trans (by simp)
  | case3 rest after hafter hspace ih =>
    have := afterComment_length hafter
    simp only [length_cons]
    omega
  | case4 rest hafter hspace => exact le_refl _
  | case5 c rest hspace hcomment => exact le_refl _

/-- Reading a text that ends in a line end, up to that line end and wherever the text starts. -/
def TakesLine (reader : Reader Statement) (text : List Char) (s : Statement) : Prop :=
  ∀ input rest, skipBlank input = skipBlank (text ++ rest) →
    Takes reader input s ('\n' :: rest) ∧ rest.length + 1 < input.length

/-- What follows the target of a call, up to the closing bracket. -/
def callText (function : String) (args : List (String × Value)) (rest : List Char) : List Char :=
  ' ' :: '=' :: ' ' :: (function.toList ++ '(' :: ((renderArgs args).toList ++ ')' :: rest))

theorem toList_renderCall (level : Nat) (target function : String) (args : List (String × Value))
    (rest : List Char) : (renderCall level target function args).toList ++ rest =
      (indent level).toList ++ (target.toList ++ callText function args ('\n' :: rest)) := by
  simp [renderCall, callText]

theorem head_callText : ∀ c ∈ (callText function args rest).head?, isWordChar c = false := forall_head rfl

theorem symbol_equals_takes (function : String) (args : List (String × Value)) (rest : List Char) :
    Takes (symbol '=') (callText function args rest) ()
      (' ' :: (function.toList ++ '(' :: ((renderArgs args).toList ++ ')' :: rest))) := symbol_takes_space '=' _ rfl

section Calls

variable {args : List (String × Value)} {depth : Nat} {rest : List Char}

theorem arguments_take_cons (h : printableArgs args = true)
    (hdepth : (renderArgs args).toList.length < depth) :
    Takes (arguments depth) ('(' :: ((renderArgs args).toList ++ ')' :: rest)) args rest :=
  arguments_take h hdepth (solid_of_cons _ rfl).skipBlank

theorem callStatement_takes (htarget : isIdentifier target = true) (hfunction : isIdentifier function = true)
    (hargs : printableArgs args = true) (hdepth : (renderArgs args).toList.length < depth)
    (hinput : skipBlank input = target.toList ++ callText function args rest) :
    Takes (callStatement depth) input (.call target function args) rest := by
  have hfirst := identifier_takes htarget hinput head_callText
  have hequals := symbol_equals_takes function args rest
  have hcalled : Takes identifier
      (' ' :: (function.toList ++ '(' :: ((renderArgs args).toList ++ ')' :: rest))) function
      ('(' :: ((renderArgs args).toList ++ ')' :: rest)) :=
    identifier_takes_space hfunction (forall_head rfl)
  exact hfirst.bind (hequals.bind (hcalled.bind ((arguments_take_cons hargs hdepth).bind
    (Takes.pure _ _))))

end Calls

theorem call_takesLine (h : (Statement.call target function args).printable = true)
    (hdepth : (renderCall level target function args).toList.length < depth + 1) :
    TakesLine (statement (depth + 1)) (renderCall level target function args).toList
      (.call target function args) := by
  intro input rest hinput
  simp only [Statement.printable, Bool.and_eq_true] at h
  rw [toList_renderCall, skipBlank_indent, skipBlank_word _ h.1.1] at hinput
  constructor
  · refine Takes.orElse_left (callStatement_takes h.1.1 h.1.2 h.2 ?_ hinput)
    simp only [renderCall, String.toList_append, length_append] at hdepth
    omega
  · have hlength := length_skipBlank_le input
    rw [hinput] at hlength
    simp only [callText, length_append, length_cons] at hlength
    omega

/-- A body ends where no statement starts. -/
theorem body_takes {stop : List Char} (hbody : ∀ s ∈ body, TakesLine (statement depth) (s.render level).toList s)
    (hstop : ∀ input, skipBlank input = skipBlank stop → Fails (statement depth) input)
    (hinput : skipBlank input = skipBlank ((Statement.renderBody level body).toList ++ stop)) :
    ∃ last, Takes (Reader.many (statement depth)) input body last ∧ skipBlank last = skipBlank stop := by
  induction body generalizing input with
  | nil => exact ⟨input, many_nil (hstop input hinput), hinput⟩
  | cons s body ih =>
    rw [Statement.renderBody, String.toList_append, append_assoc] at hinput
    obtain ⟨hfirst, hshorter⟩ := hbody s (by simp) input _ hinput
    obtain ⟨last, hmore, hlast⟩ := ih (fun t ht => hbody t (mem_cons_of_mem s ht))
      (skipBlank_newline ((Statement.renderBody level body).toList ++ stop))
    exact ⟨last, many_cons hfirst (by simpa using hshorter) hmore, hlast⟩

/-- No statement starts with a return. -/
theorem statement_fails_return (h : skipBlank input = "return".toList ++ ' ' :: c :: tail)
    (hspace : isSpace c = false)
    (hcomment : c ≠ '#') (hequals : c ≠ '=') : Fails (statement depth) input := by
  cases depth with
  | zero => exact ⟨input, rfl⟩
  | succ depth =>
    refine Fails.orElse (Fails.bind_second
      (identifier_takes (by decide) h (forall_head rfl)) (Fails.bind_first (symbol_fails ?_)))
      (Fails.bind_first (Fails.bind_first (symbol_fails ?_)))
    · rw [skipBlank_space, Solid.skipBlank ⟨_, _, rfl, hspace, hcomment⟩]
      exact forall_head hequals
    · rw [h]
      exact forall_head (by decide)

theorem isIdentifier_stepName (h : isIdentifier target = true) : isIdentifier (stepName target) = true := by
  obtain ⟨c, rest, heq, hletter, hrest⟩ := exists_of_isIdentifier h
  have htext : (stepName target).toList = c :: (rest ++ "_step".toList) := by
    rw [stepName, String.toList_append, heq, cons_append]
  unfold isIdentifier
  rw [htext]
  simp only [Bool.and_eq_true, all_append, all_eq_true]
  exact ⟨hletter, hrest, all_eq_true.mp (by decide)⟩

theorem zoneKind_takes (kind : ZoneKind)
    (hinput : skipBlank input = '@' :: (kind.decorator.toList ++ '\n' :: rest)) :
    Takes zoneKind input kind ('\n' :: rest) := by
  refine (symbol_takes hinput).bind ?_
  cases kind with
  | repetition =>
    exact Takes.orElse_left ((keyword_takes (skipBlank_word _ rfl) (forall_head rfl) rfl).bind (Takes.pure _ _))
  | simulation =>
    exact Takes.orElse_right (Fails.bind_first
      (keyword_fails rfl (skipBlank_word _ rfl) (forall_head rfl) (by decide)))
      ((keyword_takes (skipBlank_word _ rfl) (forall_head rfl) rfl).bind (Takes.pure _ _))

theorem stepItems_stepParams (kind : ZoneKind) (items : List Parameter) :
    stepItems kind (stepParams kind items) = items := by
  cases kind with
  | repetition => rfl
  | simulation => simp [stepParams, stepItems]

theorem printable_stepParams (kind : ZoneKind) {items : List Parameter}
    (h : items.all Parameter.printable = true) :
    (stepParams kind items).all Parameter.printable = true := by
  cases kind with
  | repetition => exact h
  | simulation =>
    rw [stepParams, all_cons, h, Bool.and_true]
    decide

/-- The head of a zone's step function behind its keyword, up to the line end. -/
def stepText (target : String) (kind : ZoneKind) (items : List Parameter) (rest : List Char) :
    List Char :=
  ' ' :: ((stepName target).toList ++ '(' :: ((renderParams (stepParams kind items)).toList ++ ')' ::
    ':' :: '\n' :: rest))

/-- The return of a zone behind its keyword, and the call that binds the zone's outputs. -/
def returnText (level : Nat) (target : String) (args : List (String × Value)) (next : List Value)
    (rest : List Char) : List Char :=
  ' ' :: '(' :: ((Text.join ", " (Value.renderAll next)).toList ++ ')' :: '\n' ::
    ((renderCall level target (stepName target) args).toList ++ rest))

section Zones

variable {target : String} {kind : ZoneKind} {items : List Parameter} {args : List (String × Value)}
  {body : List Statement} {next : List Value} {depth level : Nat} {rest : List Char}

theorem toList_renderZone (body : String) :
    (renderZone level target kind items args body next).toList ++ rest =
      (indent level).toList ++ '@' :: (kind.decorator.toList ++ '\n' :: ((indent level).toList ++
        ("def".toList ++ stepText target kind items (body.toList ++ ((indent level).toList ++
          ((indent 1).toList ++ ("return".toList ++ returnText level target args next rest))))))) := by
  unfold renderZone
  simp only [String.toList_append, append_assoc]
  simp [stepText, returnText, indent]

theorem keyword_def_takes : Takes (keyword "def")
    ('\n' :: ((indent level).toList ++ ("def".toList ++ stepText target kind items rest))) ()
    (stepText target kind items rest) := by
  refine keyword_takes ?_ (forall_head rfl) rfl
  rw [skipBlank_newline, skipBlank_indent, skipBlank_word _ rfl]

theorem stepParams_take (h : items.all Parameter.printable = true)
    (hdepth : (renderParams (stepParams kind items)).toList.length < depth) :
    Takes (enclosed '(' ')' (parameter depth))
      ('(' :: ((renderParams (stepParams kind items)).toList ++ ')' :: rest)) (stepParams kind items)
      rest :=
  params_take (printable_stepParams kind h) hdepth (solid_of_cons _ rfl).skipBlank

theorem returned_take (h : Value.allPrintable next = true)
    (hdepth : (Text.join ", " (Value.renderAll next)).toList.length < depth)
    (hinput : skipBlank input = "return".toList ++ returnText level target args next rest) :
    Takes (keyword "return") input () (returnText level target args next rest) ∧
      Takes (enclosed '(' ')' (value depth)) (returnText level target args next rest) next
        ('\n' :: ((renderCall level target (stepName target) args).toList ++ rest)) := by
  refine ⟨keyword_takes hinput (forall_head rfl) rfl, values_take h hdepth ?_⟩
  rw [returnText, skipBlank_space, (solid_of_cons _ rfl).skipBlank]

theorem zone_takesLine (h : (Statement.zone target kind items args body next).printable = true)
    (hdepth : (renderZone level target kind items args (Statement.renderBody (level + 1) body)
      next).toList.length < depth + 1)
    (hbody : ∀ s ∈ body, TakesLine (statement depth) (s.render (level + 1)).toList s) :
    TakesLine (statement (depth + 1)) (renderZone level target kind items args
      (Statement.renderBody (level + 1) body) next).toList (.zone target kind items args body next) := by
  intro input rest hinput
  simp only [Statement.printable, Bool.and_eq_true] at h
  obtain ⟨⟨⟨⟨htarget, hitems⟩, hargs⟩, -⟩, hnext⟩ := h
  have hstep := isIdentifier_stepName htarget
  unfold renderZone renderCall at hdepth
  simp only [String.toList_append, length_append] at hdepth
  rw [toList_renderZone, skipBlank_indent, (solid_of_cons _ rfl).skipBlank] at hinput
  constructor
  · have hnocall : Fails (callStatement (depth + 1)) input := by
      refine Fails.bind_first (identifier_fails ?_)
      rw [hinput]
      exact forall_head rfl
    have hname (after : List Char) : Takes identifier (' ' :: ((stepName target).toList ++ '(' :: after))
        (stepName target) ('(' :: after) := identifier_takes_space hstep (forall_head rfl)
    have hend : skipBlank ((indent level).toList ++ ((indent 1).toList ++ ("return".toList ++
        returnText level target args next rest))) =
        "return".toList ++ returnText level target args next rest := by
      rw [skipBlank_indent, skipBlank_indent, skipBlank_word _ rfl]
    obtain ⟨last, hmany, hlast⟩ := body_takes hbody
      (fun input h => statement_fails_return (h.trans hend) (by decide) (by decide) (by decide))
      (skipBlank_newline _)
    have hreturned : (Text.join ", " (Value.renderAll next)).toList.length < depth + 1 := by omega
    obtain ⟨hreturn, hvalues⟩ := returned_take hnext hreturned (hlast.trans hend)
    have hbound : Takes identifier
        ('\n' :: ((renderCall level target (stepName target) args).toList ++ rest)) target
        (callText (stepName target) args ('\n' :: rest)) := by
      refine identifier_takes htarget ?_ head_callText
      rw [skipBlank_newline, toList_renderCall, skipBlank_indent, skipBlank_word _ htarget]
    have hcalled (after : List Char) : Takes (keyword (stepName target))
        (' ' :: ((stepName target).toList ++ '(' :: after)) () ('(' :: after) :=
      (hname after).convert (if_pos rfl)
    refine Takes.orElse_right hnocall ((zoneKind_takes kind hinput).bind (keyword_def_takes.bind
      ((hname _).bind ((stepParams_take hitems (by omega)).bind
        ((symbol_takes_cons ':' _ rfl).bind (hmany.bind (hreturn.bind (hvalues.bind (hbound.bind
      ((symbol_equals_takes _ _ _).bind ((hcalled _).bind ((arguments_take_cons hargs (by omega)).bind
      ?_))))))))))))
    rw [stepItems_stepParams]
    exact Takes.pure _ _
  · have hlength := length_skipBlank_le input
    rw [hinput] at hlength
    simp only [stepText, returnText, length_append, length_cons] at hlength
    omega

end Zones

theorem Statement.allPrintable_iff : Statement.allPrintable body = true ↔ ∀ s ∈ body, s.printable = true := by
  induction body with
  | nil => simp [Statement.allPrintable]
  | cons s body ih => simp [Statement.allPrintable, ih]

theorem length_le_renderBody (h : s ∈ body) :
    (s.render level).toList.length ≤ (Statement.renderBody level body).toList.length := by
  induction body with
  | nil => cases h
  | cons t body ih =>
    rw [Statement.renderBody, String.toList_append, length_append]
    rcases mem_cons.mp h with rfl | hmem
    · omega
    · have := ih hmem
      omega

/-- A printable statement is read back from its text, at any indentation. -/
theorem statement_takesLine (h : s.printable = true) (hdepth : (s.render level).toList.length < depth) :
    TakesLine (statement depth) (s.render level).toList s := by
  induction depth generalizing s level with
  | zero => omega
  | succ depth ih =>
    cases s with
    | call target function args =>
      rw [Statement.render] at hdepth ⊢
      exact call_takesLine h hdepth
    | zone target kind items args body next =>
      rw [Statement.render] at hdepth ⊢
      refine zone_takesLine h hdepth fun s hs => ih ?_ ?_
      · simp only [Statement.printable, Bool.and_eq_true] at h
        exact Statement.allPrintable_iff.mp h.1.2 s hs
      · have hbody := @length_le_renderBody (level + 1) body s hs
        have hmark : ("@" : String).toList.length = 1 := rfl
        unfold renderZone at hdepth
        simp only [String.toList_append, length_append] at hdepth
        omega

/-! ## Programs -/

/-- The results of a program, from the opening bracket on. -/
def entriesText (returns : List (String × Value)) : List Char :=
  match returns with
  | [] => ['\x7b', '\x7d', '\n']
  | returns => '\x7b' :: ' ' :: ((Text.join ", " (returns.map renderEntry)).toList ++ [' ', '\x7d', '\n'])

theorem toList_renderReturns (returns : List (String × Value)) :
    (renderReturns returns).toList = (indent 1).toList ++ ("return".toList ++ ' ' :: entriesText returns) := by
  cases returns with
  | nil => decide
  | cons entry returns => simp [renderReturns, entriesText, indent]; rfl

theorem entriesText_cons (returns : List (String × Value)) :
    ∃ rest, entriesText returns = '\x7b' :: rest := by
  cases returns with
  | nil => exact ⟨_, rfl⟩
  | cons entry returns => exact ⟨_, rfl⟩

theorem length_le_entriesText (returns : List (String × Value)) :
    (Text.join ", " (returns.map renderEntry)).toList.length ≤ (entriesText returns).length := by
  cases returns with
  | nil => simp [Text.join]
  | cons entry returns =>
    simp only [entriesText, length_cons, length_append]
    omega

theorem entries_take {returns : List (String × Value)} (h : ∀ entry ∈ returns, entry.2.printable = true)
    (hdepth : (Text.join ", " (returns.map renderEntry)).toList.length < depth) :
    Takes (enclosed '\x7b' '\x7d' (returnEntry depth)) (' ' :: entriesText returns) returns ['\n'] := by
  have hreads : ∀ entry ∈ returns, Inverts (returnEntry depth) renderEntry entry := fun entry hmem =>
    returnEntry_inverts (h entry hmem) (lt_of_le_of_lt (length_le_join hmem) hdepth)
  have hsolid : ∀ entry ∈ returns, Solid (renderEntry entry).toList := by
    intro entry _
    rw [renderEntry, String.toList_append, String.toList_append, append_assoc]
    exact (solid_quote entry.1).append _
  have hstop : ∀ input, skipBlank input = ['\x7d', '\n'] → Fails (returnEntry depth) input := by
    intro input hinput
    refine Fails.bind_first (Fails.token (string_fails ?_))
    rw [hinput]
    exact forall_head (by decide)
  have hopening (after : List Char) : skipBlank (' ' :: '\x7b' :: after) = '\x7b' :: after := by
    rw [skipBlank_space, (solid_of_cons after rfl).skipBlank]
  have hend : skipBlank ['\x7d', '\n'] = ['\x7d', '\n'] := (solid_of_cons _ rfl).skipBlank
  cases returns with
  | nil =>
    exact enclosed_takes hreads hsolid (hopening _) hend (closed_cons _ rfl) hend (by decide) hstop
  | cons entry returns =>
    have hclosed : Closed [' ', '\x7d', '\n'] := by
      exact ⟨forall_head (by decide), '\x7d', ['\n'], by rw [skipBlank_space, hend], by simp⟩
    refine enclosed_takes hreads hsolid (hopening _) ?_ hclosed (by rw [skipBlank_space, hend])
      (by decide) hstop
    rw [skipBlank_space, toList_join_cons, append_assoc]
    exact ((hsolid entry (by simp)).append _).skipBlank

/-- The head of a program behind its first keyword, up to the line end. -/
def headText (program : Program) (rest : List Char) : List Char :=
  ' ' :: ("geometry_script".toList ++ ' ' :: ("import".toList ++ ' ' :: '*' :: '\n' ::
    '\n' :: '@' :: ("tree".toList ++ '(' :: ((quote program.name).toList ++ ')' :: '\n' ::
      ("def".toList ++ ' ' :: (program.functionName.toList ++ '(' ::
        ((renderParams program.params).toList ++ ')' :: ':' :: '\n' :: rest)))))))

theorem Program.toList_render (program : Program) : program.render.toList =
    "from".toList ++ headText program ((Statement.renderBody 1 program.statements).toList ++
      ((indent 1).toList ++ ("return".toList ++ ' ' :: entriesText program.returns))) := by
  unfold Program.render
  simp only [String.toList_append, toList_renderReturns]
  simp [headText]

theorem keyword_takes_space (hrest : ∀ c ∈ rest.head?, isWordChar c = false)
    (h : isIdentifier word = true) : Takes (keyword word) (' ' :: (word.toList ++ rest)) () rest :=
  (identifier_takes_space h hrest).convert (if_pos rfl)

theorem keyword_takes_first (hrest : ∀ c ∈ rest.head?, isWordChar c = false)
    (h : isIdentifier word = true) : Takes (keyword word) (word.toList ++ rest) () rest :=
  keyword_takes (skipBlank_word rest h) hrest h

theorem program_takes {p : Program} (h : p.printable = true) (hdepth : p.render.toList.length < depth) :
    Takes (program depth) p.render.toList p ['\n'] := by
  simp only [Program.printable, Bool.and_eq_true, all_eq_true] at h
  obtain ⟨⟨⟨hname, hparams⟩, hstatements⟩, hreturns⟩ := h
  have hlengths : (renderParams p.params).toList.length < depth ∧
      (Statement.renderBody 1 p.statements).toList.length < depth ∧
      (Text.join ", " (p.returns.map renderEntry)).toList.length < depth := by
    have hentries := length_le_entriesText p.returns
    rw [Program.toList_render] at hdepth
    simp only [headText, length_append, length_cons] at hdepth
    omega
  obtain ⟨hparamsDepth, hbodyDepth, hreturnsDepth⟩ := hlengths
  rw [Program.toList_render]
  -- The decorator.
  have hat (after : List Char) : Takes (symbol '@') ('\n' :: '\n' :: '@' :: after) () after :=
    symbol_takes (by rw [skipBlank_newline, skipBlank_newline, (solid_of_cons after rfl).skipBlank])
  have htitle (after : List Char) : Takes (token string) ((quote p.name).toList ++ after) p.name after :=
    Takes.token ((solid_quote p.name).append after).skipBlank (string_takes p.name after)
  have hblank (after : List Char) : Takes blank ('\n' :: ("def".toList ++ after)) () ("def".toList ++ after) := by
    unfold Takes blank
    rw [skipBlank_newline, skipBlank_word _ rfl]
  -- The function.
  have hparamsTake (after : List Char) : Takes (enclosed '(' ')' (parameter depth))
      ('(' :: ((renderParams p.params).toList ++ ')' :: after)) p.params after :=
    params_take (all_eq_true.mpr hparams) hparamsDepth (solid_of_cons _ rfl).skipBlank
  have hend : skipBlank ((indent 1).toList ++ ("return".toList ++ ' ' :: entriesText p.returns)) =
      "return".toList ++ ' ' :: entriesText p.returns := by
    rw [skipBlank_indent, skipBlank_word _ rfl]
  have hstop : ∀ input, skipBlank input =
      skipBlank ((indent 1).toList ++ ("return".toList ++ ' ' :: entriesText p.returns)) →
      Fails (statement depth) input := by
    intro input hinput
    obtain ⟨more, hmore⟩ := entriesText_cons p.returns
    rw [hend, hmore] at hinput
    exact statement_fails_return hinput (by decide) (by decide) (by decide)
  obtain ⟨last, hmany, hlast⟩ := body_takes
    (fun s hs => statement_takesLine (Statement.allPrintable_iff.mp hstatements s hs)
      (lt_of_le_of_lt (length_le_renderBody hs) hbodyDepth)) hstop (skipBlank_newline _)
  have hreturn : Takes (keyword "return") last () (' ' :: entriesText p.returns) :=
    keyword_takes (hlast.trans hend) (forall_head rfl) rfl
  exact (keyword_takes_first (forall_head rfl) rfl).bind
    ((keyword_takes_space (forall_head rfl) rfl).bind
    ((keyword_takes_space (forall_head rfl) rfl).bind
    ((symbol_takes_space '*' _ rfl).bind ((hat _).bind ((keyword_takes_first (forall_head rfl) rfl).bind
    ((symbol_takes_cons '(' _ rfl).bind ((htitle _).bind
    ((symbol_takes_cons ')' _ rfl).bind ((hblank _).bind
    ((keyword_takes_first (forall_head rfl) rfl).bind
    ((identifier_takes_space hname (forall_head rfl)).bind ((hparamsTake _).bind
    ((symbol_takes_cons ':' _ rfl).bind (hmany.bind (hreturn.bind
    ((entries_take hreturns hreturnsDepth).bind (Takes.pure _ _)))))))))))))))))

/-- Printing and reading are inverse. -/
theorem Program.parse_render (p : Program) (h : p.printable = true) :
    Program.parse p.render = .ok p := by
  have hread := program_takes h (Nat.lt_succ_self p.render.toList.length)
  have hend : skipBlank ['\n'] = [] := by rw [skipBlank_newline, skipBlank_nil]
  unfold Program.parse
  simp only [show program (p.render.toList.length + 1) p.render.toList = _ from hread, hend]

/-- A simulation around a repetition, with nested lists and texts that need escapes. -/
def nestedProgram : Program where
  name := "Slow Drift"
  params := [⟨"size", "Vector", some (.literal (.vector Single.zero Single.zero (.ofCode true 1)))⟩]
  statements := [.zone "drift1" .simulation [⟨"a", "Float", none⟩] [("a", .literal (.float Single.zero))]
    [.zone "turn1" .repetition [⟨"b", "Float", none⟩]
      [("iterations", .literal (.int (-3))), ("b", .name "a")]
      [.call "math1" "math" [("value", .list [.list [.name "b"], .literal (.bool true), .list []])]]
      [.select "math1" "value"]]
    [.name "turn1"]]
  returns := [("line\n\\\"end", .name "drift1"), ("", .literal (.text "#"))]

theorem nestedProgram_printable : nestedProgram.printable = true := by decide

theorem Program.parse_render_nested : nestedProgram.printable = true ∧
    Program.parse nestedProgram.render = .ok nestedProgram :=
  ⟨nestedProgram_printable, Program.parse_render nestedProgram nestedProgram_printable⟩

end NodeScript.Script
