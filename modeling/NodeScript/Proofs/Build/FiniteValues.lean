import NodeScript.Proofs.Build.References
import NodeScript.Proofs.Script.RoundTrip

/-!
# Finite values

Where the literals of a program and the defaults of the graphs that it calls are finite, so is every
number that its graph holds: conversions of integers never overflow, and the catalog has finite
defaults only.
-/

namespace NodeScript

open Build Script List

/-! ## Integers -/

namespace Single

theorem roundQuotient_le (num den : Nat) : roundQuotient num den ≤ num / den + 1 := by
  unfold roundQuotient
  dsimp only
  split <;> omega

/-- Integers of moderate size are far from the greatest number. -/
theorem isFinite_ofInt {i : Int} (h : i.natAbs ≤ 2 ^ 31) : (ofInt i).isFinite = true := by
  let scaled := i.natAbs * 2 ^ 149
  let shift := (scaled / 1).log2 - 23
  have hscaled : scaled / 1 = scaled := Nat.div_one scaled
  have hsmall : scaled < 2 ^ (180 + 1) :=
    calc scaled ≤ 2 ^ 31 * 2 ^ 149 := Nat.mul_le_mul_right _ h
      _ < 2 ^ (180 + 1) := by norm_num
  have hshift : shift ≤ 157 := by
    have hlog := lt_log2_succ hsmall
    dsimp only [shift]
    rw [hscaled]
    omega
  have hquotient : scaled / (1 * 2 ^ shift) < 2 ^ 24 := by
    rw [Nat.one_mul, Nat.div_lt_iff_lt_mul (Nat.two_pow_pos shift), ← Nat.pow_add]
    refine Nat.lt_of_lt_of_le (Nat.lt_log2_self (n := scaled)) (Nat.pow_le_pow_right (by omega) ?_)
    dsimp only [shift]
    rw [hscaled]
    omega
  have hround := roundQuotient_le scaled (1 * 2 ^ shift)
  have hcode : roundQuotient scaled (1 * 2 ^ shift) + shift * 2 ^ 23 < 0x7f800000 := by omega
  change (ofCode _ (roundQuotient scaled (1 * 2 ^ shift) + shift * 2 ^ 23)).isFinite = true
  rw [ofCode, dif_pos hcode]
  rfl

theorem isFinite_ofInt32 (i : Int32) : (ofInt i.toInt).isFinite = true := by
  have hlow := i.le_toInt
  have hhigh := i.toInt_lt
  exact isFinite_ofInt (by omega)

end Single

/-- A socket makes finite literals of finite ones: only integers are converted. -/
theorem SocketType.finite_coerce? {type : SocketType} {value held : Literal} (finite : finiteLiteral value = true)
    (h : type.coerce? value = some held) : finiteLiteral held = true := by
  cases value with
  | int v => cases type <;> cases h <;> simp [finiteLiteral, Single.isFinite_ofInt32]
  | _ => cases type <;> cases h <;> exact finite

/-! ## Values and arguments -/

/-- All literals in the value are finite. -/
def Script.Value.Finite (value : Value) : Prop :=
  ∀ literal, Value.literal literal ∈ value.leaves → finiteLiteral literal = true

/-- All literals of the program are finite. -/
def Script.Program.Finite (program : Program) : Prop :=
  ∀ literal, Value.literal literal ∈ program.leaves → finiteLiteral literal = true

theorem Script.Program.Finite.value {program : Program} (finite : program.Finite) {value : Value}
    (h : value ∈ program.values) : value.Finite :=
  fun literal hliteral => finite literal (Value.leaves_subset h hliteral)

/-- All literals in the argument are finite. -/
inductive Argument.Finite : Argument → Prop
  | expr (source : Expr) : Finite (.expr source)
  | literal {value : Literal} (h : finiteLiteral value = true) : Finite (.literal value)
  | choice (chosen : String) : Finite (.choice chosen)
  | list {items : List Argument} (h : ∀ item ∈ items, Finite item) : Finite (.list items)
  | group (group : GroupValue) : Finite (.group group)

namespace Argument

variable {argument : Argument}

theorem isFinite_number? (finite : argument.Finite) {x : Single} (h : argument.number? = some x) :
    x.isFinite = true := by
  cases finite with
  | @literal value hvalue =>
    cases value with
    | float v =>
      cases h
      exact hvalue
    | int v =>
      cases h
      exact Single.isFinite_ofInt32 v
    | _ => cases h
  | _ => cases h

theorem isFinite_mapM_number? {items : List Argument} (finite : ∀ item ∈ items, item.Finite) {numbers : List Single}
    (h : items.mapM number? = some numbers) : ∀ x ∈ numbers, x.isFinite = true := by
  induction items generalizing numbers with
  | nil =>
    cases h
    exact fun _ hmem => by cases hmem
  | cons item rest ih =>
    rw [mapM_cons] at h
    obtain ⟨first, hfirst, h⟩ := Option.bind_eq_some_iff.mp h
    obtain ⟨others, hothers, h⟩ := Option.bind_eq_some_iff.mp h
    cases h
    intro x hx
    rcases mem_cons.mp hx with rfl | hrest
    · exact isFinite_number? (finite item mem_cons_self) hfirst
    · exact ih (fun other hother => finite other (.tail _ hother)) hothers x hrest

/-- Lists of finite numbers make finite vectors and colors. -/
theorem Finite.literal? (finite : argument.Finite) {value : Literal} (h : argument.literal? = some value) :
    finiteLiteral value = true := by
  cases finite with
  | literal hvalue =>
    cases h
    exact hvalue
  | choice chosen =>
    cases h
    rfl
  | list hitems =>
    rw [Argument.literal?] at h
    split at h
    · next x y z hnumbers =>
        cases h
        have hfinite := isFinite_mapM_number? hitems hnumbers
        simp [finiteLiteral, hfinite]
    · next r g b a hnumbers =>
        cases h
        have hfinite := isFinite_mapM_number? hitems hnumbers
        simp [finiteLiteral, hfinite]
    · cases h
  | _ => cases h

end Argument

/-- The numbers in the value are finite. -/
def PropertyValue.isFinite : PropertyValue → Bool
  | .float v => v.isFinite
  | .vector x y z => x.isFinite && y.isFinite && z.isFinite
  | _ => true

theorem PropertyDecl.isFinite_valueOf {decl : PropertyDecl} {argument : Argument} (finite : argument.Finite)
    {value : PropertyValue} (h : decl.valueOf argument = .ok value) : value.isFinite = true := by
  unfold PropertyDecl.valueOf at h
  dsimp only at h
  split at h
  · next found hfound =>
      cases h
      split at hfound
      case h_4 =>
        cases hfound
        cases finite with
        | literal hvalue => exact hvalue
      case h_5 v _ =>
        cases hfound
        exact Single.isFinite_ofInt32 v
      case h_11 =>
        split at hfound
        · next x y z hliteral =>
            cases hfound
            exact finite.literal? hliteral
        · cases hfound
      case h_12 => cases hfound
      all_goals
        cases hfound
        rfl
  · cases h

theorem Script.Environment.finite_argument {environment : Environment} {value : Value} (finite : value.Finite)
    {argument : Argument} (h : environment.argument value = .ok argument) : argument.Finite := by
  revert finite
  apply argument_induction (motive := fun value argument => value.Finite → argument.Finite) ?_ ?_ ?_ ?_ h
  · exact fun value finite => .literal (finite value (mem_singleton_self _))
  · refine fun items found ih finite => .list fun argument hargument => ?_
    obtain ⟨item, hitem, hfinite⟩ := ih argument hargument
    exact hfinite fun literal hliteral => finite literal (Value.leaves_subset hitem hliteral)
  · exact fun _ _ source _ _ _ => .expr source
  · exact fun _ _ _ source _ _ _ => .expr source

/-! ## Graphs of programs -/

/-- A function that stands for a graph and that the program calls. -/
def Script.Program.CallsGraph (program : Program) (function : String) : Prop :=
  function ∉ Catalog.functionNames ∧ ∃ target args, Statement.call target function args ∈ program.parts

/-- Finite values. -/
def Allowance.finite (program : Program) : Allowance where
  self := program.name
  called name := program.CallsGraph (snakeCase name)
  property _ value := value.isFinite = true
  literal value := finiteLiteral value = true

theorem standardKinds_finite : ∀ spec ∈ Catalog.standardKinds,
    (∀ decl ∈ spec.properties, decl.default.isFinite = true) ∧
      ∀ socket ∈ spec.inputs ++ spec.outputs, socket.default.all finiteLiteral = true := by
  decide +kernel

theorem Allowance.lawful_finite (program : Program) : (Allowance.finite program).Lawful where
  coerce _ hvalue h := SocketType.finite_coerce? hvalue h
  carried := by
    intro value carrier name property hvalue hcarrier hplace
    cases value with
    | vector x y z =>
      cases hcarrier
      cases hplace
      exact hvalue
    | color => cases hcarrier
    | float =>
      cases hcarrier
      cases hplace
    | _ =>
      cases hcarrier
      cases hplace
      rfl
  properties spec listed _ decl hdecl := (standardKinds_finite spec listed).1 decl hdecl
  defaults := by
    intro spec listed socket hsocket value hvalue
    have hall := (standardKinds_finite spec listed).2 socket hsocket
    rw [hvalue] at hall
    exact hall
  callee _ _ _ := rfl

namespace Script.Program

variable {session : Session} {program : Program}

theorem covers_finite (standard : session.IsStandard) (finite : program.Finite) :
    (Allowance.finite program).Covers session program where
  self := rfl
  call := by
    intro target function args hpart
    refine ⟨?_, ?_, ?_⟩
    · intro entry hentry
      obtain ⟨spec, listed, hkind, _, _⟩ := standard.function hentry
      rw [hkind]
      by_cases hgroup : spec.role = .group
      · rw [eq_bareGroupSpec listed hgroup]
        exact (Allowance.lawful_finite program).bareGroup standard rfl
      · exact (Allowance.lawful_finite program).kind standard listed hgroup
    · rintro hgraph name rfl
      exact ⟨hgraph, target, args, hpart⟩
    · intro arg harg environment argument hargument
      have hvalue : arg.2.Finite := finite.value (mem_append_left _ (mem_append_right _
        (mem_flatMap.mpr ⟨_, hpart, mem_map_of_mem harg⟩)))
      have hfinite := Environment.finite_argument hvalue hargument
      refine ⟨fun decl value hdecl _ => PropertyDecl.isFinite_valueOf hfinite hdecl,
        fun value => hfinite.literal?, ?_⟩
      rintro items rfl item hitem value hliteral
      cases hfinite with
      | list hitems => exact (hitems item hitem).literal? hliteral
  zone := by
    intro target kind items args body next hpart
    have hvalues : ∀ value ∈ args.map Prod.snd ++ next,
        ((Allowance.finite program).limits session).AdmitsValue value := by
      intro value hvalue environment argument hargument literal hliteral
      have hfinite : value.Finite := finite.value (mem_append_left _ (mem_append_right _
        (mem_flatMap.mpr ⟨_, hpart, hvalue⟩)))
      exact (Environment.finite_argument hfinite hargument).literal? hliteral
    constructor
    · exact fun arg harg => hvalues arg.2 (mem_append_left _ (mem_map_of_mem harg))
    · exact fun value hvalue => hvalues value (mem_append_right _ hvalue)
  results := by
    intro result hresult environment argument hargument literal hliteral
    have hfinite : result.2.Finite := finite.value (mem_append_right _ (mem_map_of_mem hresult))
    exact (Environment.finite_argument hfinite hargument).literal? hliteral
  once := rfl

end Script.Program

end NodeScript
