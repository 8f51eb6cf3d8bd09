import NodeScript.Proofs.Script.Parts
import NodeScript.Proofs.Script.Reading

/-!
# Names in accepted texts

Every name in a program that was read from a text is an identifier: parameters and items with their
types, targets, functions, arguments, and the names and selections in values. The readers are put
together from a few combinators, and each of these passes on what the readers in it promise,
together with the promise that reading stays within the text: what a reader leaves, and the place
where it fails, is a final part of it.
-/

namespace NodeScript.Script

open List

variable {α β : Type}

/-! ## Spelling -/

/-- All names in the value are identifiers. -/
def Value.Spelled (value : Value) : Prop :=
  ∀ leaf ∈ value.leaves, match leaf with
    | .name found => isIdentifier found = true
    | .select base output => isIdentifier base = true ∧ isIdentifier output = true
    | _ => True

/-- The parameter, its type and the names in its default are identifiers. -/
structure Parameter.Spelled (parameter : Parameter) : Prop where
  name : isIdentifier parameter.name = true
  typeName : isIdentifier parameter.typeName = true
  default : ∀ value, parameter.default = some value → value.Spelled

/-- The argument and the names in its value are identifiers. -/
structure ArgumentSpelled (arg : String × Value) : Prop where
  name : isIdentifier arg.1 = true
  value : arg.2.Spelled

/-- All names in the statement itself are identifiers. -/
def Statement.Spelled : Statement → Prop
  | .call target function args =>
    isIdentifier target = true ∧ isIdentifier function = true ∧ ∀ arg ∈ args, ArgumentSpelled arg
  | .zone target _ items args _ next =>
    isIdentifier target = true ∧ (∀ item ∈ items, item.Spelled) ∧ (∀ arg ∈ args, ArgumentSpelled arg) ∧
      ∀ value ∈ next, value.Spelled

/-- All names in the program are identifiers. The name of its graph is none of them. -/
structure Program.Spelled (program : Program) : Prop where
  params : ∀ param ∈ program.params, param.Spelled
  statements : ∀ statement ∈ program.parts, statement.Spelled
  returns : ∀ entry ∈ program.returns, entry.2.Spelled

theorem Value.spelled_literal (value : Literal) : (Value.literal value).Spelled := by
  intro leaf hleaf
  rw [mem_singleton.mp hleaf]
  trivial

theorem Value.spelled_list {items : List Value} (h : ∀ item ∈ items, item.Spelled) : (Value.list items).Spelled := by
  intro leaf hleaf
  obtain ⟨item, hitem, hleaf⟩ := Value.mem_leavesIn.mp hleaf
  exact h item hitem leaf hleaf

/-- A zone is spelled at all depths if it is so itself and its body is. -/
theorem Statement.partsIn_spelled {statements : List Statement}
    (h : ∀ statement ∈ statements, ∀ part ∈ statement.parts, part.Spelled) :
    ∀ part ∈ Statement.partsIn statements, part.Spelled := by
  induction statements with
  | nil =>
    intro part hpart
    cases hpart
  | cons statement rest ih =>
    intro part hpart
    rw [Statement.partsIn, mem_append] at hpart
    rcases hpart with hfirst | hrest
    · exact h statement mem_cons_self part hfirst
    · exact ih (fun other hother => h other (.tail _ hother)) part hrest

/-! ## Readers and what they promise -/

/-- A reader's answer on the text: what was taken satisfies a condition and a final part of the text
is left, or reading failed at a final part of the text. -/
def Lands (p : α → Prop) (input : List Char) : Except (List Char) (α × List Char) → Prop
  | .ok (a, rest) => p a ∧ rest <:+ input
  | .error place => place <:+ input

/-- All that the reader takes off a text satisfies a condition, and the reader stays within the
text. -/
def Yields (reader : Reader α) (p : α → Prop) : Prop := ∀ input, Lands p input (reader input)

/-- What holds within a final part of a text holds within the text. -/
theorem Lands.within {p : α → Prop} {between input : List Char} {answer : Except (List Char) (α × List Char)}
    (h : Lands p between answer) (hsuffix : between <:+ input) : Lands p input answer :=
  match answer with
  | .ok _ => ⟨h.1, h.2.trans hsuffix⟩
  | .error _ => IsSuffix.trans h hsuffix

theorem afterComment_suffix {text rest : List Char} (h : afterComment text = some rest) : rest <:+ text := by
  have hdrop : (text.dropWhile fun c => !isLineEnd c) <:+ text := dropWhile_suffix _
  unfold afterComment at h
  split at h
  · next heq => cases h; rw [← heq]; exact hdrop
  · cases h
  · cases h; exact hdrop

theorem skipBlank_suffix (text : List Char) : skipBlank text <:+ text := by
  fun_induction skipBlank text with
  | case1 => exact suffix_rfl
  | case2 c rest _ ih => exact ih.trans (suffix_cons c rest)
  | case3 rest after hafter _ ih => exact (ih.trans (afterComment_suffix hafter)).trans (suffix_cons _ rest)
  | case4 => exact suffix_rfl
  | case5 => exact suffix_rfl

namespace Yields

variable {reader : Reader α} {p : α → Prop} {q : β → Prop}

theorem taken (h : Yields reader p) {input rest : List Char} {a : α} (hread : reader input = .ok (a, rest)) :
    p a ∧ rest <:+ input := by
  have hlands := h input
  rwa [hread] at hlands

theorem stopped (h : Yields reader p) {input place : List Char} (hread : reader input = .error place) :
    place <:+ input := by
  have hlands := h input
  rwa [hread] at hlands

theorem pure {a : α} (h : p a) : Yields (Pure.pure a) p := fun _ => ⟨h, suffix_rfl⟩

theorem bind {next : α → Reader β} (first : Yields reader p) (second : ∀ a, p a → Yields (next a) q) :
    Yields (reader >>= next) q := by
  intro input
  rw [Reader.bind_apply]
  split
  · next a between hread => exact (second a (first.taken hread).1 between).within (first.taken hread).2
  · next hread => exact first.stopped hread

theorem orElse {other : Reader α} (first : Yields reader p) (second : Yields other p) :
    Yields (Reader.orElse reader other) p := by
  intro input
  unfold Reader.orElse
  split
  · next hread => exact hread ▸ first input
  · exact second input

theorem optional (h : Yields reader p) : Yields (Reader.optional reader) fun found => ∀ a, found = some a → p a := by
  intro input
  unfold Reader.optional
  split
  · next hread => exact ⟨fun _ ha => Option.some.inj ha ▸ (h.taken hread).1, (h.taken hread).2⟩
  · exact ⟨nofun, suffix_rfl⟩

theorem convert (f : α → Option β) (h : Yields reader p) : Yields (Reader.convert reader f) fun _ => True := by
  intro input
  unfold Reader.convert
  split
  · next hread => exact h.stopped hread
  · next hread =>
      split
      · exact ⟨trivial, (h.taken hread).2⟩
      · exact suffix_rfl

theorem token (h : Yields reader p) : Yields (token reader) p :=
  fun input => (h (skipBlank input)).within (skipBlank_suffix input)

theorem many (h : Yields reader p) : Yields (Reader.many reader) fun found => ∀ a ∈ found, p a := by
  intro input
  fun_induction Reader.many reader input with
  | case1 => exact ⟨nofun, suffix_rfl⟩
  | case2 input a rest hread _ others last hmany ih =>
    obtain ⟨ha, hrest⟩ := h.taken hread
    rw [hmany] at ih
    exact ⟨forall_mem_cons.mpr ⟨ha, ih.1⟩, ih.2.trans hrest⟩
  | case3 input a rest hread _ place hmany ih =>
    rw [hmany] at ih
    exact IsSuffix.trans ih (h.taken hread).2
  | case4 => exact suffix_rfl

variable {separator : Reader β}

theorem separatedMore (h : Yields reader p) (between : Yields separator q) (input : List Char) :
    Lands (fun found => ∀ a ∈ found, p a) input (.ok (Reader.separatedMore separator reader input)) := by
  fun_induction Reader.separatedMore separator reader input with
  | case1 => exact ⟨nofun, suffix_rfl⟩
  | case2 => exact ⟨nofun, suffix_rfl⟩
  | case3 input _ middle hseparator a rest hread _ others last hmore ih =>
    obtain ⟨ha, hrest⟩ := h.taken hread
    rw [hmore] at ih
    exact ⟨forall_mem_cons.mpr ⟨ha, ih.1⟩, (ih.2.trans hrest).trans (between.taken hseparator).2⟩
  | case4 => exact ⟨nofun, suffix_rfl⟩

theorem separatedSome (h : Yields reader p) (between : Yields separator q) :
    Yields (Reader.separatedSome separator reader) fun found => ∀ a ∈ found, p a := by
  intro input
  unfold Reader.separatedSome
  split
  · next hread => exact h.stopped hread
  · next a rest hread =>
      have hmore := h.separatedMore between rest
      exact ⟨forall_mem_cons.mpr ⟨(h.taken hread).1, hmore.1⟩, hmore.2.trans (h.taken hread).2⟩

theorem separated (h : Yields reader p) (between : Yields separator q) :
    Yields (Reader.separated separator reader) fun found => ∀ a ∈ found, p a := by
  intro input
  have hsome := h.separatedSome between input
  unfold Reader.separatedSome at hsome
  unfold Reader.separated
  split
  · exact ⟨forall_mem_nil _, suffix_rfl⟩
  · next hread => rwa [hread] at hsome

end Yields

/-! ## Tokens -/

theorem char_yields (c : Char) : Yields (Reader.char c) fun _ => True := by
  intro input
  unfold Reader.char
  split
  · exact suffix_rfl
  · split
    · exact ⟨trivial, suffix_cons _ _⟩
    · exact suffix_rfl

theorem symbol_yields (c : Char) : Yields (symbol c) fun _ => True := (char_yields c).token

theorem run_yields (class_ : Char → Bool) : Yields (Reader.run class_) fun found => ∀ c ∈ found, class_ c = true :=
  fun _ => ⟨all_eq_true.mp all_takeWhile, dropWhile_suffix _⟩

theorem runSome_yields (class_ : Char → Bool) :
    Yields (Reader.runSome class_) fun found => found ≠ [] ∧ ∀ c ∈ found, class_ c = true := by
  intro input
  unfold Reader.runSome
  split
  · exact suffix_rfl
  · next hne => exact ⟨⟨hne, all_eq_true.mp all_takeWhile⟩, dropWhile_suffix _⟩

theorem Yields.enclosed {reader : Reader α} {p : α → Prop} (opening closing : Char) (h : Yields reader p) :
    Yields (enclosed opening closing reader) fun found => ∀ a ∈ found, p a := by
  unfold Script.enclosed
  refine (symbol_yields opening).bind fun _ _ => ?_
  refine (h.separated (symbol_yields ',')).bind fun items hitems => ?_
  refine (symbol_yields ',').optional.bind fun _ _ => ?_
  exact (symbol_yields closing).bind fun _ _ => .pure hitems

theorem identifier_yields : Yields identifier fun found => isIdentifier found = true := by
  refine .token ?_
  refine (runSome_yields isLetter).bind fun first hletters =>
    (run_yields isWordChar).bind fun rest hwords => .pure ?_
  obtain ⟨hne, hletters⟩ := hletters
  cases first with
  | nil => exact absurd rfl hne
  | cons c more =>
    simp only [isIdentifier, cons_append, String.toList_ofList, Bool.and_eq_true, all_eq_true,
      mem_append]
    refine ⟨hletters c mem_cons_self, ?_⟩
    rintro d (hmore | hrest)
    · exact isWordChar_of_isLetter (hletters d (.tail _ hmore))
    · exact hwords d hrest

theorem keyword_yields (word : String) : Yields (keyword word) fun _ => True := identifier_yields.convert _

theorem stringChar_yields : Yields stringChar fun _ => True := by
  intro input
  unfold stringChar
  split
  all_goals first
    | exact suffix_rfl
    | exact suffix_cons _ _
    | exact ⟨trivial, suffix_cons _ _⟩
    | exact ⟨trivial, (suffix_cons _ _).trans (suffix_cons _ _)⟩

theorem string_yields : Yields string fun _ => True := by
  unfold string
  refine (char_yields '"').bind fun _ _ => ?_
  refine stringChar_yields.many.bind fun _ _ => ?_
  exact (char_yields '"').bind fun _ _ => .pure trivial

/-- One of two characters. -/
theorem either_yields (c d : Char) :
    Yields (Reader.orElse (do Reader.char c; return c) (do Reader.char d; return d)) fun _ => True := by
  refine .orElse ?_ ?_
  all_goals exact (char_yields _).bind fun _ _ => .pure trivial

theorem number_yields : Yields number fun _ => True := by
  have hexponent : Yields exponentText fun _ => True := by
    unfold exponentText
    refine (either_yields 'e' 'E').bind fun _ _ => ?_
    refine (either_yields '+' '-').optional.bind fun _ _ => ?_
    exact (runSome_yields Char.isDigit).bind fun _ _ => .pure trivial
  have hfraction := (char_yields '.').bind fun _ _ => run_yields Char.isDigit
  have htext : Yields numberText fun _ => True := by
    unfold numberText
    refine (char_yields '-').optional.bind fun _ _ => ?_
    refine (runSome_yields Char.isDigit).bind fun _ _ => ?_
    refine hfraction.optional.bind fun _ _ => ?_
    exact hexponent.optional.bind fun _ _ => .pure trivial
  exact htext.convert _

theorem tupleLiteral_yields : Yields tupleLiteral fun _ => True := by
  refine .convert _ (p := fun _ => True) ?_
  refine (char_yields '(').bind fun _ _ => ?_
  refine ((number_yields.token.convert _).separatedSome (symbol_yields ',')).bind fun _ _ => ?_
  refine (symbol_yields ',').optional.bind fun _ _ => ?_
  exact (symbol_yields ')').bind fun _ _ => .pure trivial

/-! ## The grammar -/

theorem nameValue_yields : Yields nameValue Value.Spelled := by
  unfold nameValue
  refine identifier_yields.bind fun base hbase => ?_
  refine ((char_yields '.').bind fun _ _ => identifier_yields).optional.bind fun output houtput => ?_
  refine .pure ?_
  split
  · next found =>
      intro leaf hleaf
      rw [mem_singleton.mp hleaf]
      exact ⟨hbase, houtput found rfl⟩
  · split
    · exact Value.spelled_literal _
    · split
      · exact Value.spelled_literal _
      · intro leaf hleaf
        rw [mem_singleton.mp hleaf]
        exact hbase

theorem value_yields (depth : Nat) : Yields (value depth) Value.Spelled := by
  induction depth with
  | zero => exact fun _ => suffix_rfl
  | succ depth ih =>
    have hlist : Yields (do
        Reader.char '['
        let items ← Reader.separated comma (value depth)
        let _ ← Reader.optional comma
        symbol ']'
        return Value.list items) Value.Spelled := by
      refine (char_yields '[').bind fun _ _ => ?_
      refine (ih.separated (symbol_yields ',')).bind fun items hitems => ?_
      refine (symbol_yields ',').optional.bind fun _ _ => ?_
      exact (symbol_yields ']').bind fun _ _ => .pure (Value.spelled_list hitems)
    unfold value
    refine .token (.orElse ?_ (.orElse ?_ (hlist.orElse (.orElse ?_ nameValue_yields))))
    · exact string_yields.bind fun _ _ => .pure (Value.spelled_literal _)
    · exact tupleLiteral_yields.bind fun _ _ => .pure (Value.spelled_literal _)
    · exact number_yields.bind fun _ _ => .pure (Value.spelled_literal _)

theorem parameter_yields (depth : Nat) : Yields (parameter depth) Parameter.Spelled := by
  unfold parameter
  refine identifier_yields.bind fun name hname => ?_
  refine (symbol_yields ':').bind fun _ _ => ?_
  refine identifier_yields.bind fun typeName htype => ?_
  refine ((symbol_yields '=').bind fun _ _ => value_yields depth).optional.bind fun default hdefault => ?_
  exact .pure ⟨hname, htype, hdefault⟩

theorem argument_yields (depth : Nat) : Yields (argument depth) ArgumentSpelled := by
  unfold argument
  refine identifier_yields.bind fun name hname => ?_
  refine (symbol_yields '=').bind fun _ _ => ?_
  refine (value_yields depth).bind fun value hvalue => ?_
  exact .pure ⟨hname, hvalue⟩

theorem stepItems_subset (kind : ZoneKind) (params : List Parameter) : stepItems kind params ⊆ params := by
  unfold stepItems
  split
  · split
    · exact subset_cons_self _ _
    · exact Subset.refl _
  · exact Subset.refl _

theorem callStatement_yields (depth : Nat) :
    Yields (callStatement depth) fun found => ∀ part ∈ found.parts, part.Spelled := by
  unfold callStatement
  refine identifier_yields.bind fun target htarget => ?_
  refine (symbol_yields '=').bind fun _ _ => ?_
  refine identifier_yields.bind fun function hfunction => ?_
  refine ((argument_yields depth).enclosed '(' ')').bind fun args hargs => ?_
  refine .pure ?_
  intro part hpart
  rw [mem_singleton.mp hpart]
  exact ⟨htarget, hfunction, hargs⟩

theorem zoneKind_yields : Yields zoneKind fun _ => True := by
  unfold zoneKind
  refine (symbol_yields '@').bind fun _ _ => .orElse ?_ ?_
  all_goals exact (keyword_yields _).bind fun _ _ => .pure trivial

theorem statement_yields (depth : Nat) :
    Yields (statement depth) fun found => ∀ part ∈ found.parts, part.Spelled := by
  induction depth with
  | zero => exact fun _ => suffix_rfl
  | succ depth ih =>
    unfold statement
    refine (callStatement_yields (depth + 1)).orElse ?_
    refine zoneKind_yields.bind fun kind _ => ?_
    refine (keyword_yields "def").bind fun _ _ => ?_
    refine identifier_yields.bind fun step _ => ?_
    refine ((parameter_yields (depth + 1)).enclosed '(' ')').bind fun params hparams => ?_
    refine (symbol_yields ':').bind fun _ _ => ?_
    refine ih.many.bind fun body hbody => ?_
    refine (keyword_yields "return").bind fun _ _ => ?_
    refine ((value_yields (depth + 1)).enclosed '(' ')').bind fun next hnext => ?_
    refine identifier_yields.bind fun target htarget => ?_
    refine (symbol_yields '=').bind fun _ _ => ?_
    refine (keyword_yields step).bind fun _ _ => ?_
    refine ((argument_yields (depth + 1)).enclosed '(' ')').bind fun args hargs => ?_
    refine .pure ?_
    intro part hpart
    rcases mem_cons.mp hpart with rfl | hinner
    · exact ⟨htarget, fun item hitem => hparams item (stepItems_subset kind params hitem), hargs, hnext⟩
    · exact Statement.partsIn_spelled hbody part hinner

theorem program_yields (depth : Nat) : Yields (program depth) Program.Spelled := by
  have hentry : Yields (returnEntry depth) fun entry => entry.2.Spelled := by
    unfold returnEntry
    refine string_yields.token.bind fun key _ => ?_
    refine (symbol_yields ':').bind fun _ _ => ?_
    refine (value_yields depth).bind fun value hvalue => ?_
    exact .pure hvalue
  unfold program
  refine (keyword_yields "from").bind fun _ _ => ?_
  refine (keyword_yields "geometry_script").bind fun _ _ => ?_
  refine (keyword_yields "import").bind fun _ _ => ?_
  refine (symbol_yields '*').bind fun _ _ => (symbol_yields '@').bind fun _ _ => ?_
  refine (keyword_yields "tree").bind fun _ _ => (symbol_yields '(').bind fun _ _ => ?_
  refine string_yields.token.bind fun name _ => (symbol_yields ')').bind fun _ _ => ?_
  refine Yields.bind (p := fun _ => True) (fun input => ⟨trivial, skipBlank_suffix input⟩) fun _ _ => ?_
  refine (keyword_yields "def").bind fun _ _ => identifier_yields.bind fun _ _ => ?_
  refine ((parameter_yields depth).enclosed '(' ')').bind fun params hparams => ?_
  refine (symbol_yields ':').bind fun _ _ => ?_
  refine (statement_yields depth).many.bind fun statements hstatements => ?_
  refine (keyword_yields "return").bind fun _ _ => ?_
  refine (hentry.enclosed '\x7b' '\x7d').bind fun returns hreturns => ?_
  exact .pure ⟨hparams, Statement.partsIn_spelled hstatements, hreturns⟩

/-- All names in a program that was read from a text are identifiers. -/
theorem Program.spelled_of_parse {text : String} {program : Program} (h : Program.parse text = .ok program) :
    program.Spelled := by
  unfold Program.parse at h
  dsimp only at h
  split at h
  · cases h
  · next found rest hread =>
      split at h
      · cases h
        exact ((program_yields _).taken hread).1
      · cases h

namespace Program.Spelled

variable {program : Program}

theorem value (spelled : program.Spelled) {value : Value} (h : value ∈ program.values) : value.Spelled := by
  rcases mem_append.mp h with h | hreturn
  · rcases mem_append.mp h with hparam | hpart
    · obtain ⟨param, hparam, hdefault⟩ := mem_filterMap.mp hparam
      exact (spelled.params param hparam).default value hdefault
    · obtain ⟨part, hpart, hvalue⟩ := mem_flatMap.mp hpart
      have hspelled := spelled.statements part hpart
      cases part with
      | call target function args =>
        obtain ⟨arg, harg, rfl⟩ := mem_map.mp hvalue
        exact (hspelled.2.2 arg harg).value
      | zone target kind items args body next =>
        rcases mem_append.mp hvalue with hargs | hnext
        · obtain ⟨arg, harg, rfl⟩ := mem_map.mp hargs
          exact (hspelled.2.2.1 arg harg).value
        · exact hspelled.2.2.2 value hnext
  · obtain ⟨entry, hentry, rfl⟩ := mem_map.mp hreturn
    exact spelled.returns entry hentry

/-- Outputs are selected by identifiers. -/
theorem isIdentifier_output (spelled : program.Spelled) {base output : String}
    (h : Value.select base output ∈ program.leaves) : isIdentifier output = true := by
  obtain ⟨value, hvalue, hleaf⟩ := Value.mem_leavesIn.mp h
  exact (spelled.value hvalue _ hleaf).2

end Program.Spelled

end NodeScript.Script
