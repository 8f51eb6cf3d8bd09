import NodeScript.Proofs.Build.Limits
import NodeScript.Proofs.Build.Soundness

/-!
# Builds within limits

Statements, bodies and whole builds keep to limits where the calls and values of the script do.
Building a graph empties it first; after that its graph has changed by allowed edits only, and
graphs of other names are as they were.
-/

namespace NodeScript

open Build OrderedMap List Script.Statement

/-! ## Faults of values -/

/-- No failure of the computation blames a declaration. -/
def Plain {α : Type} (r : Except BuildError α) : Prop := ∀ e, r = .error e → e.isConfiguration = false

namespace Plain

variable {α β : Type} {r : Except BuildError α}

theorem ok (a : α) : Plain (.ok a) := by
  intro e h
  cases h

theorem bind {f : α → Except BuildError β} (first : Plain r) (second : ∀ a, Plain (f a)) : Plain (r >>= f) := by
  intro e h
  rcases Except.bind_eq_error.mp h with hfirst | ⟨a, _, hsecond⟩
  · exact first e hfirst
  · exact second a e hsecond

theorem mapM {f : α → Except BuildError β} {as : List α} (h : ∀ a ∈ as, Plain (f a)) : Plain (as.mapM f) := by
  induction as with
  | nil => exact ok []
  | cons a rest ih =>
    rw [mapM_cons]
    apply bind (h a mem_cons_self)
    intro first
    exact bind (ih fun a ha => h a (.tail _ ha)) fun _ => ok _

end Plain

theorem CallResult.plain_only (result : CallResult) : Plain result.only := by
  intro e h
  cases result with
  | single source => cases h
  | named outputs =>
    cases h
    rfl

theorem CallResult.plain_output (result : CallResult) (name : String) : Plain (result.output name) := by
  intro e h
  unfold CallResult.output at h
  dsimp only at h
  split at h
  · cases h
  · cases h
    rfl

namespace Script.Environment

variable (environment : Environment)

theorem plain_lookup (name : String) : Plain (environment.lookup name) := by
  intro e h
  unfold lookup at h
  split at h
  · cases h
  · cases h
    rfl

theorem plain_argument (value : Value) : Plain (environment.argument value) := by
  match value with
  | .literal value =>
    rw [argument]
    exact .ok _
  | .list items =>
    rw [argument, arguments_eq]
    apply Plain.bind (.mapM fun item hitem => ?_) fun _ => .ok _
    exact plain_argument item
  | .name name =>
    rw [argument]
    apply Plain.bind (plain_lookup environment name)
    intro result
    exact .bind result.plain_only fun _ => .ok _
  | .select name output =>
    rw [argument]
    apply Plain.bind (plain_lookup environment name)
    intro result
    exact .bind (result.plain_output output) fun _ => .ok _
termination_by sizeOf value

theorem plain_operand (value : Value) : Plain (environment.operand value) := by
  apply Plain.bind (environment.plain_argument value)
  intro argument e h
  split at h
  · cases h
  · cases h
  · cases h
    rfl

theorem plain_namedArguments (args : List (String × Value)) (arguments : Arguments) :
    Plain (environment.namedArguments args arguments) := by
  induction args generalizing arguments with
  | nil => exact .ok _
  | cons arg rest ih =>
    obtain ⟨name, value⟩ := arg
    rw [namedArguments]
    exact .bind (environment.plain_argument value) fun _ => ih _

theorem plain_zoneArguments (kind : ZoneKind) (args : List (String × Value)) (iterations : Operand)
    (initial : Arguments) : Plain (environment.zoneArguments kind args iterations initial) := by
  induction args generalizing iterations initial with
  | nil => exact .ok _
  | cons arg rest ih =>
    obtain ⟨name, value⟩ := arg
    rw [zoneArguments]
    split
    · exact .bind (environment.plain_operand value) fun _ => ih _ _
    · exact .bind (environment.plain_argument value) fun _ => ih _ _

end Script.Environment

namespace Script.Program

theorem plain_environment (inputs : Inputs) (params : List Parameter) (bound : Environment) :
    Plain (environment inputs params bound) := by
  induction params generalizing bound with
  | nil => exact .ok _
  | cons parameter rest ih =>
    have hvalue : Plain (inputs.value parameter.name) := by
      intro e h
      unfold Inputs.value at h
      split at h
      · cases h
      · cases h
        rfl
    rw [environment]
    exact .bind hvalue fun _ => ih _

theorem plain_results (bound : Environment) (returns : List (String × Value)) : Plain (results bound returns) := by
  induction returns with
  | nil => exact .ok _
  | cons value rest ih =>
    obtain ⟨key, value⟩ := value
    rw [results]
    apply Plain.bind (bound.plain_operand value)
    intro operand
    exact .bind ih fun _ => .ok _

end Script.Program

/-! ## Values and statements -/

namespace Limits

open Script

variable {limits : Limits} {session : Session} {environment : Environment} {args : List (String × Value)}
  {b : Build} {program : Program} {values : List (String × Operand)} {name : String} {free : String → Prop}
  {error : BuildError → Prop} {found : Arguments} {kind : ZoneKind}

/-- A literal that the value stands for may become a default. -/
def AdmitsValue (limits : Limits) (value : Value) : Prop :=
  ∀ (environment : Environment) argument, environment.argument value = .ok argument →
    ∀ literal, argument.literal? = some literal → limits.literal literal

theorem AdmitsValue.operand {value : Value} (admitted : limits.AdmitsValue value) {operand : Operand}
    (h : environment.operand value = .ok operand) : limits.AdmitsOperand operand := by
  unfold Environment.operand at h
  obtain ⟨argument, hargument, h⟩ := Except.bind_eq_ok.mp h
  split at h
  · cases h
    trivial
  · next literal =>
      cases h
      exact admitted environment _ hargument literal rfl
  · cases h

theorem admits_zoneArguments (admitted : ∀ arg ∈ args, limits.AdmitsValue arg.2)
    {iterations count : Operand} (hiterations : limits.AdmitsOperand iterations)
    (h : environment.zoneArguments kind args iterations ∅ = .ok (count, found)) :
    limits.AdmitsOperand count ∧ limits.AdmitsLiterals found :=
  Environment.zoneArguments_forall (fun arg harg _ h => (admitted arg harg).operand h)
    (fun arg harg argument h => admitted arg harg environment argument h) hiterations (fun _ _ h => by cases h) h

/-- The argument that the value stands for may be given under the name. -/
def AdmitsArgument (limits : Limits) (name : String) (value : Value) : Prop :=
  ∀ (environment : Environment) argument, environment.argument value = .ok argument → limits.Admits name argument

theorem admitsAll_namedArguments (admitted : ∀ arg ∈ args, limits.AdmitsArgument arg.1 arg.2)
    (h : environment.namedArguments args ∅ = .ok found) : limits.AdmitsAll found := fun _ _ =>
  Environment.namedArguments_forall (Q := limits.Admits) (fun arg harg => admitted arg harg environment) h

/-- The calls, items and values of the statements, at all depths, are within the limits. -/
structure Covers (limits : Limits) (session : Session) (statements : List Statement) : Prop where
  call : ∀ target function args, Statement.call target function args ∈ partsIn statements →
    ∀ (environment : Environment) arguments, environment.namedArguments args ∅ = .ok arguments →
      limits.Keeps (Build.call session function none arguments)
  items : ∀ statement ∈ partsIn statements, ∀ e,
    resolveItems session.classes (statement.items.map Parameter.item) = .error e → limits.error e
  zone : ∀ target kind items args body next,
    Statement.zone target kind items args body next ∈ partsIn statements →
      (∀ arg ∈ args, limits.AdmitsValue arg.2) ∧ ∀ value ∈ next, limits.AdmitsValue value
  once : limits.literal (.int 1)

namespace Covers

variable {statement : Statement} {rest : List Statement}

theorem mono {statements statements' : List Statement} (covers : limits.Covers session statements)
    (h : partsIn statements' ⊆ partsIn statements) : limits.Covers session statements' where
  call := fun target function args hmem => covers.call target function args (h hmem)
  items := fun statement hmem => covers.items statement (h hmem)
  zone := fun target kind items args body next hmem => covers.zone target kind items args body next (h hmem)
  once := covers.once

theorem head (covers : limits.Covers session (statement :: rest)) : limits.Covers session [statement] := by
  apply covers.mono
  intro part hpart
  rw [partsIn, partsIn, append_nil] at hpart
  exact mem_append_left _ hpart

theorem tail (covers : limits.Covers session (statement :: rest)) : limits.Covers session rest :=
  covers.mono fun _ hpart => mem_append_right _ hpart

theorem body {target : String} {items : List Parameter} {body : List Statement} {next : List Value}
    (covers : limits.Covers session [.zone target kind items args body next]) : limits.Covers session body := by
  apply covers.mono
  intro part hpart
  rw [partsIn, Statement.parts]
  exact mem_append_left _ (.tail _ hpart)

end Covers

/-- The results of a body can be collected and bound. -/
structure Collects (limits : Limits) (session : Session) (returns : Returns) : Prop where
  keeps : limits.Keeps (collect session returns)
  admitted : ∀ b b' outputs, exec (collect session returns) b = (.ok outputs, b') →
    ∀ output ∈ outputs, limits.AdmitsOperand output.2

/-- Besides free graphs only the graph of the name has changed, and that from a given graph by an
allowed edit while identities were drawn from a given supply on. -/
structure Changed (limits : Limits) (name : String) (g : Graph) (s : Supply) (b b' : Build) : Prop where
  scopes : b'.scopes = b.scopes
  version : b'.store.version = b.store.version
  names : b.store.graphs.keys <+: b'.store.graphs.keys
  others : ∀ other, other ≠ name → ¬ limits.free other → b'.store.get? other = b.store.get? other
  graph : ∃ g', b'.store.get? name = some g' ∧ limits.edit g s g' b'.supply

/-- The body of a graph may start once the graph has been entered, whatever that graph is. -/
def StartsAt (limits : Limits) (name : String) (b : Build) : Prop :=
  ∀ start : Build, start.scopes = name :: b.scopes → (∃ graph, start.store.get? name = some graph) →
    (∀ other, other ≠ name → start.store.get? other = b.store.get? other) → limits.context start

theorem Changed.trans {g : Graph} {s : Supply} {b' b'' : Build}
    (step : ∀ {g s g' s' g'' s''}, limits.edit g s g' s' → limits.edit g' s' g'' s'' → limits.edit g s g'' s'')
    (first : limits.Changed name g s b b')
    (second : ∀ g', b'.store.get? name = some g' → limits.Changed name g' b'.supply b' b'') :
    limits.Changed name g s b b'' := by
  obtain ⟨g', hg', hedit⟩ := first.graph
  have next := second g' hg'
  obtain ⟨g'', hg'', hedit'⟩ := next.graph
  constructor
  · exact next.scopes.trans first.scopes
  · exact next.version.trans first.version
  · exact first.names.trans next.names
  · intro other hother hfree
    rw [next.others other hother hfree, first.others other hother hfree]
  · exact ⟨g'', hg'', step hedit hedit'⟩

/-- The arrangement never fails: what goes wrong is only a warning. -/
theorem exec_arrange_ok (session : Session) (name : String) (b : Build) :
    (exec (arrange session name) b).1 = .ok () := by
  unfold arrange
  rw [exec_bind_ok (exec_get b)]
  split
  · rfl
  · split <;> rfl

/-- The results that a program gives back. -/
theorem exists_of_body {inputs : Inputs} {b' : Build} {returns : Returns}
    (h : exec (program.body session inputs) b = (.ok returns, b')) :
    ∃ bound values, returns = .named values ∧ Program.results bound program.returns = .ok values := by
  unfold Program.body at h
  obtain ⟨_, _, _, h⟩ := exec_bind_eq_ok.mp h
  obtain ⟨bound, _, _, h⟩ := exec_bind_eq_ok.mp h
  obtain ⟨values, _, hvalues, h⟩ := exec_bind_eq_ok.mp h
  rw [exec_ofExcept, Prod.mk.injEq] at hvalues
  cases h
  exact ⟨bound, values, rfl, hvalues.1⟩

theorem admits_results {returns : List (String × Value)} (admitted : ∀ result ∈ returns, limits.AdmitsValue result.2)
    {bound : Environment} (h : Program.results bound returns = .ok values) :
    ∀ value ∈ values, limits.AdmitsOperand value.2 := by
  intro value hvalue
  obtain ⟨result, hresult, _, hoperand⟩ := forall₂_exists_left (Program.results_eq_ok h) hvalue
  exact (admitted result hresult).operand hoperand

namespace Lawful

variable (lawful : limits.Lawful session) {g : Graph} {body : Inputs → BuildM Returns} {params : List ResolvedParam}
include lawful

theorem collects_named (admitted : ∀ value ∈ values, limits.AdmitsOperand value.2) :
    limits.Collects session (.named values) where
  keeps := lawful.keeps_pure _
  admitted := by
    intro b b' outputs h
    cases h
    intro output houtput
    obtain ⟨value, hvalue, rfl⟩ := mem_map.mp houtput
    exact admitted value hvalue

mutual

theorem keeps_build (statement : Statement) (environment : Environment)
    (covers : limits.Covers session [statement]) :
    limits.Keeps (statement.build session environment) := by
  have hself : statement ∈ partsIn [statement] := mem_append_left _ (mem_parts_self _)
  cases statement with
  | call target function args =>
    rw [Statement.build]
    apply lawful.keeps_bindExcept
    · exact fun e he => lawful.plain (environment.plain_namedArguments args ∅ e he)
    · exact covers.call target function args hself environment
  | zone target kind items args body next =>
    obtain ⟨hargs, hnext⟩ := covers.zone target kind items args body next hself
    have hitems := covers.items _ hself
    rw [Statement.build]
    apply lawful.keeps_bindExcept
    · exact fun e he => lawful.plain (environment.plain_zoneArguments kind args _ ∅ e he)
    rintro ⟨iterations, initial⟩ hfound
    have honce : limits.AdmitsOperand (.literal (.int 1)) := covers.once
    obtain ⟨hiterations, hinitial⟩ := admits_zoneArguments hargs honce hfound
    have hstep : ∀ state, limits.Keeps (do
        let inner ← buildAll session (environment.withInputs state) body
        Build.ofExcept (next.mapM inner.operand)) := by
      intro state
      apply lawful.keeps_bind (keeps_buildAll body _ covers.body)
      intro inner
      apply lawful.keeps_ofExcept
      exact fun e he => lawful.plain (Plain.mapM (fun value _ => inner.plain_operand value) e he)
    have hresults : ∀ (state : Inputs) (b b' : Build) (operands : List Operand), exec (do
        let inner ← buildAll session (environment.withInputs state) body
        Build.ofExcept (next.mapM inner.operand)) b = (.ok operands, b') →
          ∀ operand ∈ operands, limits.AdmitsOperand operand := by
      intro state b b' operands hexec operand hoperand
      obtain ⟨inner, _, _, hvalues⟩ := exec_bind_eq_ok.mp hexec
      rw [exec_ofExcept, Prod.mk.injEq] at hvalues
      obtain ⟨value, hvalue, hoperand⟩ := forall₂_exists_left (Except.forall₂_of_mapM hvalues.1) hoperand
      exact (hnext value hvalue).operand hoperand
    cases kind with
    | repetition => exact lawful.keeps_repetition hinitial hstep hresults hitems hiterations
    | simulation => exact lawful.keeps_simulation hinitial hstep hresults hitems

theorem keeps_buildAll (statements : List Statement) (environment : Environment)
    (covers : limits.Covers session statements) :
    limits.Keeps (buildAll session environment statements) := by
  cases statements with
  | nil =>
    rw [buildAll]
    exact lawful.keeps_pure environment
  | cons statement rest =>
    rw [buildAll]
    apply lawful.keeps_bind (keeps_build statement environment covers.head)
    exact fun result => keeps_buildAll rest _ covers.tail

end

/-! ## Bodies -/

theorem keeps_bodyInputs (source : NodeId) (params : List ResolvedParam) (position : Nat) (inputs : Inputs) :
    limits.Keeps (bodyInputs source params position inputs) := by
  induction params generalizing position inputs with
  | nil => exact lawful.keeps_pure inputs
  | cons param rest ih => exact lawful.keeps_bind (lawful.keeps_outputAt source position) fun _ => ih _ _

theorem keeps_bindOutputs (sink : NodeId) {outputs : List (Option String × Operand)}
    (admitted : ∀ output ∈ outputs, limits.AdmitsOperand output.2) (position : Nat) :
    limits.Keeps (bindOutputs session sink outputs position) := by
  induction outputs generalizing position with
  | nil => exact lawful.keeps_pure ()
  | cons output rest ih =>
    obtain ⟨name, value⟩ := output
    rw [bindOutputs]
    apply lawful.keeps_bind (lawful.keeps_operandExpr (admitted _ mem_cons_self))
    intro source
    apply lawful.keeps_editDrawn (Supply.climbs_declaration _) fun g s => lawful.output g _ s
    intro _
    apply lawful.keeps_bind (lawful.keeps_inputAt sink position)
    intro port
    apply lawful.keeps_bind (lawful.keeps_link source sink port)
    exact fun _ => ih (fun other hother => admitted other (.tail _ hother)) _

theorem keeps_runBody (hsource : limits.kind groupInputKind) (hsink : limits.kind groupOutputKind)
    (params : List ResolvedParam) (hbody : ∀ inputs, limits.Keeps (body inputs))
    (hreturns : ∀ inputs b b' returns, exec (body inputs) b = (.ok returns, b') → limits.Collects session returns) :
    limits.Keeps (runBody session params body) := by
  apply lawful.keeps_bind (lawful.keeps_addNode hsource)
  intro source
  apply lawful.keeps_bind (lawful.keeps_addNode hsink)
  intro sink
  apply lawful.keeps_bind (lawful.keeps_bodyInputs source params 0 ∅)
  intro inputs b hb
  apply lawful.keepsAt_bind hb (hbody inputs b hb)
  intro returns b' hb' hexec
  have collects := hreturns inputs b b' returns hexec
  apply lawful.keepsAt_bind hb' (collects.keeps b' hb')
  intro outputs b'' hb'' hexec
  exact lawful.keeps_bindOutputs sink (collects.admitted b' b'' outputs hexec) 0 b'' hb''

/-! ## Builds -/

theorem edit_arrange {g' : Graph} {options : LayoutOptions} (h : g.arrange options = .ok g') (s : Supply) :
    limits.edit g s g' s := by
  have hrefl : limits.edit g s g s := lawful.skip (Nat.le_refl _)
  exact Graph.arrange_induction (P := fun found => limits.edit g s found s) h hrefl fun id position hedit =>
    lawful.trans hedit (lawful.move _ id position s)

omit lawful in
/-- Running a step inside a graph changes that graph. -/
theorem changed_inScope {m : BuildM Unit} (keeps : limits.Keeps m)
    (hb : limits.context { b with scopes := name :: b.scopes }) (hget : b.store.get? name = some g) :
    limits.Changed name g b.supply b (exec (inScope name m) b).2 := by
  have hwithin := (keeps { b with scopes := name :: b.scopes } hb).within
  rw [exec_inScope]
  constructor
  · change List.tail _ = b.scopes
    rw [hwithin.scopes]
    rfl
  · exact hwithin.version
  · exact hwithin.names
  · intro other hother hfree
    apply hwithin.others other _ hfree
    intro h
    exact hother (Option.some.inj h).symm
  · obtain ⟨g', hg', hedit⟩ := hwithin.current g hget
    refine ⟨g', ?_, hedit⟩
    rw [current?, hwithin.scopes] at hg'
    exact hg'

theorem changed_arrange (name : String) (hget : b.store.get? name = some g) :
    limits.Changed name g b.supply b (exec (arrange session name) b).2 := by
  have same : ∀ b' : Build, b'.store = b.store → b'.scopes = b.scopes → b'.supply = b.supply →
      limits.Changed name g b.supply b b' := by
    intro b' hstore hscopes hsupply
    refine ⟨hscopes, by rw [hstore], hstore ▸ prefix_refl _,
      ?_, ⟨g, ?_, lawful.skip (Nat.le_of_eq (by rw [hsupply]))⟩⟩
    · exact fun other _ _ => by rw [hstore]
    · rw [hstore]
      exact hget
  unfold arrange
  rw [exec_bind_ok (exec_get b), hget]
  dsimp only
  cases harrange : g.arrange session.settings.layout with
  | error e => exact same _ rfl rfl rfl
  | ok g' =>
    constructor
    · rfl
    · rfl
    · exact keys_prefix_insert _ _ _
    · intro other hother _
      exact get?_insert_of_ne hother
    · exact ⟨g', get?_insert_self, lawful.edit_arrange harrange b.supply⟩

/-- Building a graph with a valid signature changes it from its emptied state. -/
theorem changed_build {signature : Signature} (hparams : signature.validate session.classes = .ok params)
    (keeps : limits.Keeps (runBody session params body)) (hb : limits.StartsAt name b) :
    ∃ inputs s, reconcile (b.store.getD name).interface.inputs (params.map ResolvedParam.declaration) b.supply =
        (inputs, s) ∧
      limits.Changed name (b.prepared name inputs) s b (exec (Build.build session name signature body) b).2 ∧
      ∀ e, (exec (Build.build session name signature body) b).1 = .error e → limits.error e := by
  obtain ⟨inputs, s, hprepare, hinputs⟩ := exec_prepare b name params
  obtain ⟨start, hstart⟩ : ∃ start : Build,
      start = { b with store := b.store.set name (b.prepared name inputs), supply := s } := ⟨_, rfl⟩
  rw [← hstart] at hprepare
  have hget : start.store.get? name = some (b.prepared name inputs) := by
    rw [hstart]
    exact get?_insert_self
  have hsupply : start.supply = s := by rw [hstart]
  have hfirst : limits.Changed name (b.prepared name inputs) s b start := by
    refine ⟨?_, ?_, ?_, ?_, ⟨_, hget, lawful.skip (Nat.le_of_eq (by rw [hsupply]))⟩⟩
    · rw [hstart]
    · rw [hstart]
      rfl
    · rw [hstart]
      exact keys_prefix_insert _ _ _
    · intro other hother _
      rw [hstart]
      exact get?_insert_of_ne hother
  have hcontext : limits.context { start with scopes := name :: start.scopes } := by
    apply hb
    · rw [hstart]
    · exact ⟨_, hget⟩
    · intro other hother
      rw [hstart]
      exact get?_insert_of_ne hother
  have hbody := changed_inScope keeps hcontext hget
  rw [hsupply] at hbody
  have hfails : ∀ e, (exec (inScope name (runBody session params body)) start).1 = .error e → limits.error e :=
    fun e he => (keeps _ hcontext).fails e he
  have hexec : exec (Build.build session name signature body) b = exec (do
      inScope name (runBody session params body)
      if session.settings.autoLayout then arrange session name) start := by
    unfold Build.build
    rw [exec_bind_ok ((exec_ofExcept _ b).trans (by rw [hparams])), exec_bind_ok hprepare]
  refine ⟨inputs, s, hinputs, ?_⟩
  rw [hexec]
  revert hbody hfails
  cases hrun : exec (inScope name (runBody session params body)) start with
  | mk result after =>
    intro hbody hfails
    have hafter := hfirst.trans lawful.trans fun g hg => by
      rw [hget, Option.some.injEq] at hg
      rw [hsupply]
      exact hg ▸ hbody
    cases result with
    | error e =>
      rw [exec_bind_error hrun]
      exact ⟨hafter, hfails⟩
    | ok _ =>
      rw [exec_bind_ok hrun]
      split
      · refine ⟨hafter.trans lawful.trans fun g hg => lawful.changed_arrange name hg, ?_⟩
        intro e he
        rw [exec_arrange_ok] at he
        cases he
      · exact ⟨hafter, fun e he => by cases he⟩

/-- Building a program whose parameters are fine. -/
theorem changed_program (hparams : program.inputs session = .ok params)
    (keeps : limits.Keeps (runBody session params (program.body session))) (hb : limits.StartsAt program.name b) :
    ∃ inputs s, reconcile (b.store.getD program.name).interface.inputs
      (params.map ResolvedParam.declaration) b.supply =
        (inputs, s) ∧
      limits.Changed program.name (b.prepared program.name inputs) s b (exec (program.build session) b).2 ∧
      ∀ e, (exec (program.build session) b).1 = .error e → limits.error e := by
  unfold Program.inputs at hparams
  obtain ⟨signature, hsignature, hvalid⟩ := Except.bind_eq_ok.mp hparams
  have hexec : exec (program.build session) b =
      exec (Build.build session program.name signature (program.body session)) b := by
    unfold Program.build
    rw [exec_bind_ok ((exec_ofExcept _ b).trans (by rw [hsignature]))]
  rw [hexec]
  exact lawful.changed_build hvalid keeps hb

/-- The body of a program whose statements and results are within the limits. -/
theorem keeps_programBody (hsource : limits.kind groupInputKind) (hsink : limits.kind groupOutputKind)
    (covers : limits.Covers session program.statements)
    (results : ∀ result ∈ program.returns, limits.AdmitsValue result.2) (params : List ResolvedParam) :
    limits.Keeps (runBody session params (program.body session)) := by
  apply lawful.keeps_runBody hsource hsink
  · intro inputs
    apply lawful.keeps_bindExcept
    · exact fun e he => lawful.plain (Program.plain_environment inputs program.params ∅ e he)
    intro bound _
    apply lawful.keeps_bind (lawful.keeps_buildAll program.statements bound covers)
    intro bound
    apply lawful.keeps_bind
    · apply lawful.keeps_ofExcept
      exact fun e he => lawful.plain (Program.plain_results bound program.returns e he)
    · exact fun values => lawful.keeps_pure _
  · intro inputs b b' returns hexec
    obtain ⟨bound, values, rfl, hvalues⟩ := exists_of_body hexec
    exact lawful.collects_named (admits_results results hvalues)

end Lawful

/-! ## Limits of edits only -/

/-- Limits that allow everything to be given and all errors but those that blame a declaration, and
leave a group node free to take the ports of its graph. -/
structure Open (limits : Limits) (session : Session) : Prop extends limits.Lawful session where
  kinds : ∀ kind, limits.kind kind
  properties : ∀ name value, limits.property name value
  literals : ∀ value, limits.literal value
  ports : ∀ {g id n name} {inputs outputs : List Port} {mid} {s s' : Supply}, Graph.node? g id = some n →
    Supply.Draws s.next mid (inputs.map Port.id) → Supply.Draws mid s'.next (outputs.map Port.id) →
      limits.edit g s (g.updateNode id fun _ => { n with name, inputs, outputs }) s'

/-- Every edit of the active graph is allowed. -/
def loose (free : String → Prop) (error : BuildError → Prop) : Limits where
  edit _ _ _ _ := True
  free := free
  error := error
  kind _ := True
  property _ _ := True
  literal _ := True
  context _ := True

theorem open_loose (plain : ∀ e : BuildError, e.isConfiguration = false → error e) (session : Session) :
    (loose free error).Open session where
  skip _ := trivial
  trans _ _ := trivial
  plain := plain _
  add _ _ _ _ := trivial
  assign _ _ _ _ := trivial
  fill _ _ _ _ := trivial
  link _ _ := trivial
  pair _ _ := trivial
  clear _ _ := trivial
  item _ _ _ _ _ := trivial
  output _ _ _ := trivial
  move _ _ _ _ := trivial
  coerce _ _ _ := trivial
  carrier _ _ := trivial
  carried _ _ _ := trivial
  ends _ := ⟨trivial, trivial⟩
  context _ _ := trivial
  kinds _ := trivial
  properties _ _ := trivial
  literals _ := trivial
  ports _ _ _ := trivial

theorem lawful_loose (plain : ∀ e : BuildError, e.isConfiguration = false → error e) (session : Session) :
    (loose free error).Lawful session :=
  (open_loose plain session).toLawful

namespace Open

variable {limits : Limits} {session : Session} (wide : limits.Open session)
include wide

theorem admitsAll (arguments : Arguments) : limits.AdmitsAll arguments :=
  fun _ _ _ => ⟨fun _ value _ _ => wide.properties _ value, fun value _ => wide.literals value,
    fun _ _ _ _ value _ => wide.literals value⟩

theorem admitsLiterals (arguments : Arguments) : limits.AdmitsLiterals arguments :=
  fun _ _ _ value _ => wide.literals value

theorem admitsOperand (operand : Operand) : limits.AdmitsOperand operand := by
  cases operand with
  | expr source => trivial
  | literal value => exact wide.literals value

theorem admitsValue (value : Script.Value) : limits.AdmitsValue value :=
  fun _ _ _ literal _ => wide.literals literal

theorem keeps_callGraph (name : String) (primary : Option Expr) (arguments : Arguments) :
    limits.Keeps (callGraph session name primary arguments) :=
  wide.toLawful.keeps_callGraph (wide.kinds _) (wide.properties _ _) wide.ports primary (wide.admitsAll arguments)

theorem keeps_call (function : String) (primary : Option Expr) (arguments : Arguments) :
    limits.Keeps (call session function primary arguments) :=
  wide.toLawful.keeps_call (fun _ _ => wide.kinds _) (fun _ name _ => wide.keeps_callGraph name primary arguments)
    (wide.admitsAll arguments)

theorem collects (returns : Returns) : limits.Collects session returns where
  keeps := by
    unfold collect
    split
    · exact wide.keeps_pure _
    · exact wide.keeps_pure _
    · exact wide.keeps_pure _
    · split
      · apply wide.keeps_bind (wide.keeps_call "join_geometry" none _)
        intro result
        apply wide.keeps_bind
        · exact wide.keeps_ofExcept fun e he => wide.plain (result.plain_only e he)
        · exact fun _ => wide.keeps_pure _
      · exact wide.keeps_pure _
  admitted := fun _ _ _ _ output _ => wide.admitsOperand output.2

/-- Statements are within open limits where the errors of their items are. -/
theorem covers {statements : List Script.Statement} (items : ∀ statement ∈ Script.Statement.partsIn statements, ∀ e,
    resolveItems session.classes (statement.items.map Script.Parameter.item) = .error e → limits.error e) :
    limits.Covers session statements where
  call _ function _ _ _ arguments _ := wide.keeps_call function none arguments
  items := items
  zone _ _ _ _ _ _ _ := ⟨fun _ _ => wide.admitsValue _, fun _ _ => wide.admitsValue _⟩
  once := wide.literals _

theorem keeps_program {program : Script.Program}
    (items : ∀ statement ∈ Script.Statement.partsIn program.statements, ∀ e,
      resolveItems session.classes (statement.items.map Script.Parameter.item) = .error e → limits.error e)
    (params : List ResolvedParam) : limits.Keeps (runBody session params (program.body session)) :=
  wide.keeps_programBody (wide.kinds _) (wide.kinds _) (wide.covers items) (fun _ _ => wide.admitsValue _) params

end Open

end Limits

end NodeScript
