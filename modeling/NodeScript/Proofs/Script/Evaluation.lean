import NodeScript.Build.Program
import NodeScript.Proofs.Graph.Sound

/-!
# Evaluation of values

What the values of a script stand for: an argument has the form of its value, and arguments and
results come from the values under their names.
-/

namespace NodeScript

open List OrderedMap

theorem Except.forall₂_of_mapM {ε α β : Type} {f : α → Except ε β} {as : List α} {bs : List β}
    (h : as.mapM f = .ok bs) : Forall₂ (fun a b => f a = .ok b) as bs := by
  induction as generalizing bs with
  | nil =>
    cases h
    exact .nil
  | cons a rest ih =>
    rw [mapM_cons] at h
    obtain ⟨first, hfirst, h⟩ := Except.bind_eq_ok.mp h
    obtain ⟨others, hothers, h⟩ := Except.bind_eq_ok.mp h
    cases h
    exact .cons hfirst (ih hothers)

namespace Script

namespace Environment

variable {environment : Environment} {args : List (String × Value)} {found : Arguments}
  {Q : String → Argument → Prop}

theorem arguments_eq (environment : Environment) (values : List Value) :
    environment.arguments values = values.mapM environment.argument := by
  induction values with
  | nil => rfl
  | cons value rest ih => rw [Environment.arguments, mapM_cons, ih]

/-- An argument has the form of its value, and its expressions come from names. -/
theorem argument_induction {motive : Value → Argument → Prop}
    (literal : ∀ value, motive (.literal value) (.literal value))
    (list : ∀ items found, (∀ argument ∈ found, ∃ item ∈ items, motive item argument) →
      motive (.list items) (.list found))
    (name : ∀ name result source, environment.lookup name = .ok result → result.only = .ok source →
      motive (.name name) (.expr source))
    (select : ∀ name output result source, environment.lookup name = .ok result → result.output output = .ok source →
      motive (.select name output) (.expr source))
    {value : Value} {argument : Argument} (h : environment.argument value = .ok argument) :
    motive value argument := by
  match value with
  | .literal value =>
    cases h
    exact literal value
  | .list items =>
    rw [Environment.argument, arguments_eq] at h
    obtain ⟨found, hfound, h⟩ := Except.bind_eq_ok.mp h
    cases h
    apply list
    intro argument hargument
    obtain ⟨item, hitem, h⟩ := forall₂_exists_left (Except.forall₂_of_mapM hfound) hargument
    exact ⟨item, hitem, argument_induction literal list name select h⟩
  | .name key =>
    rw [Environment.argument] at h
    obtain ⟨result, hresult, h⟩ := Except.bind_eq_ok.mp h
    obtain ⟨source, hsource, h⟩ := Except.bind_eq_ok.mp h
    cases h
    exact name key result source hresult hsource
  | .select key output =>
    rw [Environment.argument] at h
    obtain ⟨result, hresult, h⟩ := Except.bind_eq_ok.mp h
    obtain ⟨source, hsource, h⟩ := Except.bind_eq_ok.mp h
    cases h
    exact select key output result source hresult hsource
termination_by sizeOf value

section Argument

variable {value : Value} {argument : Argument} (h : environment.argument value = .ok argument)
include h

theorem argument_shape : (∃ literal, value = .literal literal ∧ argument = .literal literal) ∨
    (∃ items, argument = .list items) ∨ ∃ source, argument = .expr source := by
  apply argument_induction ?_ ?_ ?_ ?_ h
  · exact fun literal => Or.inl ⟨literal, rfl, rfl⟩
  · exact fun _ items _ => Or.inr (Or.inl ⟨items, rfl⟩)
  · exact fun _ _ source _ _ => Or.inr (Or.inr ⟨source, rfl⟩)
  · exact fun _ _ _ source _ _ => Or.inr (Or.inr ⟨source, rfl⟩)

/-- There are no parameter groups in a script. -/
theorem argument_ne_group (group : GroupValue) : argument ≠ .group group := by
  rcases argument_shape h with ⟨_, _, rfl⟩ | ⟨_, rfl⟩ | ⟨_, rfl⟩ <;> exact fun heq => by cases heq

theorem argument_ne_choice (chosen : String) : argument ≠ .choice chosen := by
  rcases argument_shape h with ⟨_, _, rfl⟩ | ⟨_, rfl⟩ | ⟨_, rfl⟩ <;> exact fun heq => by cases heq

theorem eq_literal_of_argument {literal : Literal} (heq : argument = .literal literal) :
    value = .literal literal := by
  rcases argument_shape h with ⟨_, rfl, rfl⟩ | ⟨_, rfl⟩ | ⟨_, rfl⟩
  · cases heq
    rfl
  · cases heq
  · cases heq

end Argument

/-! ## Arguments by name -/

/-- What holds of all that the values stand for holds of the iterations and the initial state of a
zone. -/
theorem zoneArguments_forall {kind : ZoneKind} {P : Operand → Prop}
    (counts : ∀ arg ∈ args, ∀ operand, environment.operand arg.2 = .ok operand → P operand)
    (states : ∀ arg ∈ args, ∀ argument, environment.argument arg.2 = .ok argument → Q arg.1 argument)
    {iterations count : Operand} {initial : Arguments} (hiterations : P iterations)
    (hinitial : ∀ name argument, initial.get? name = some argument → Q name argument)
    (h : environment.zoneArguments kind args iterations initial = .ok (count, found)) :
    P count ∧ ∀ name argument, found.get? name = some argument → Q name argument := by
  induction args generalizing iterations initial with
  | nil =>
    cases h
    exact ⟨hiterations, hinitial⟩
  | cons arg rest ih =>
    obtain ⟨name, value⟩ := arg
    have hrest := @ih (fun arg harg => counts arg (.tail _ harg)) (fun arg harg => states arg (.tail _ harg))
    rw [zoneArguments] at h
    split at h
    · obtain ⟨operand, hoperand, h⟩ := Except.bind_eq_ok.mp h
      exact hrest (counts _ mem_cons_self operand hoperand) hinitial h
    · obtain ⟨argument, hargument, h⟩ := Except.bind_eq_ok.mp h
      refine hrest hiterations (fun other given hget => ?_) h
      rw [get?_insert] at hget
      split at hget
      · next heq =>
          cases hget
          exact heq ▸ states _ mem_cons_self argument hargument
      · exact hinitial other given hget

/-- Without iterations there is only the initial state. -/
theorem zoneArguments_simulation (iterations : Operand) (initial : Arguments) :
    environment.zoneArguments .simulation args iterations initial =
      (environment.namedArguments args initial).map fun found => (iterations, found) := by
  induction args generalizing initial with
  | nil => rfl
  | cons arg rest ih =>
    obtain ⟨name, value⟩ := arg
    have htest : ¬ (ZoneKind.simulation = .repetition ∧ name = iterationsArgument) := fun h => by cases h.1
    rw [zoneArguments, namedArguments, if_neg htest]
    cases environment.argument value with
    | error e => rfl
    | ok argument => exact ih (initial.insert name argument)

theorem namedArguments_forall
    (given : ∀ arg ∈ args, ∀ argument, environment.argument arg.2 = .ok argument → Q arg.1 argument)
    (h : environment.namedArguments args ∅ = .ok found) {name : String} {argument : Argument}
    (hget : found.get? name = some argument) : Q name argument := by
  have hzone : environment.zoneArguments .simulation args (.literal (.int 1)) ∅ =
      .ok (.literal (.int 1), found) := by
    rw [zoneArguments_simulation, h]
    rfl
  exact (zoneArguments_forall (fun _ _ _ _ => trivial) given trivial (fun _ _ h => by cases h) hzone).2
    name argument hget

end Environment

theorem Program.results_eq_ok {environment : Environment} {returns : List (String × Value)}
    {found : List (String × Operand)} (h : Program.results environment returns = .ok found) :
    Forall₂ (fun (key, value) result => result.1 = key ∧ environment.operand value = .ok result.2)
      returns found := by
  induction returns generalizing found with
  | nil =>
    cases h
    exact .nil
  | cons first rest ih =>
    obtain ⟨key, value⟩ := first
    simp only [Program.results, Except.bind_eq_ok] at h
    obtain ⟨operand, hoperand, others, hothers, h⟩ := h
    cases h
    exact .cons ⟨rfl, hoperand⟩ (ih hothers)

end Script

end NodeScript
