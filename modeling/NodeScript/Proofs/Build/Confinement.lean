import NodeScript.Build.Procedure
import NodeScript.Proofs.Build.LimitedBuilds

/-!
# Builds are confined

A body is put together from the operations of building, nested builds among them. However it is put
together and wherever it fails, a build comes back to the graphs it was entered from, keeps all
graphs in their order and changes only the graphs that it builds.
-/

namespace NodeScript

open Build

variable {α β : Type}

namespace Limits.Open

variable {limits : Limits} {session : Session} (wide : limits.Open session)
include wide

/-! ## Operators -/

theorem keeps_mathNode (op : MathOp) (self : Expr) (other : Operand) :
    limits.Keeps (mathNode session op self other) := by
  apply wide.keeps_bind (wide.keeps_addNode (wide.kinds _))
  intro id
  exact wide.keeps_bind (wide.keeps_setProperty id (wide.properties _ _)) fun _ => wide.keeps_pure id

theorem keeps_arithmetic (op : MathOp) (self : Expr) (other : Operand) :
    limits.Keeps (arithmetic session op self other) := by
  apply wide.keeps_bind (wide.keeps_mathNode op self other)
  intro id
  apply wide.keeps_bind (wide.keeps_inputAt id 0)
  intro first
  apply wide.keeps_bind (wide.keeps_inputAt id 1)
  intro second
  apply wide.keeps_bind (wide.keeps_link self id first)
  intro _
  apply wide.keeps_bind (wide.keeps_bindOperand (wide.admitsOperand other) id second)
  exact fun _ => wide.keeps_firstOutput id

theorem keeps_reflected (op : MathOp) (self : Expr) (other : Operand) :
    limits.Keeps (reflected session op self other) := by
  apply wide.keeps_bind (wide.keeps_mathNode op self other)
  intro id
  apply wide.keeps_bind (wide.keeps_inputAt id 0)
  intro first
  apply wide.keeps_bind (wide.keeps_inputAt id 1)
  intro second
  apply wide.keeps_bind (wide.keeps_operandExpr (wide.admitsOperand other))
  intro source
  apply wide.keeps_bind (wide.keeps_link source id first)
  intro _
  apply wide.keeps_bind (wide.keeps_link self id second)
  exact fun _ => wide.keeps_firstOutput id

theorem keeps_boolean (op : BooleanOp) (self : Expr) (other : Option Operand) :
    limits.Keeps (boolean session op self other) := by
  apply wide.keeps_bind (wide.keeps_addNode (wide.kinds _))
  intro id
  apply wide.keeps_bind (wide.keeps_setProperty id (wide.properties _ _))
  intro _
  apply wide.keeps_bind (wide.keeps_enabledInputs id)
  intro inputs
  split
  · apply wide.keeps_bind (wide.keeps_link self id _)
    intro _
    split
    · exact wide.keeps_firstOutput id
    · split
      · apply wide.keeps_bind (wide.keeps_bindOperand (wide.admitsOperand _) id _)
        exact fun _ => wide.keeps_firstOutput id
      · exact wide.keeps_fault rfl
  · exact wide.keeps_fault rfl

theorem keeps_compare (op : CompareOp) (self : Expr) (other : Operand) :
    limits.Keeps (Build.compare session op self other) := by
  have hnode : limits.Keeps (compareNode session op self other) := by
    unfold compareNode
    split
    · apply wide.keeps_bind (wide.keeps_addNode (wide.kinds _))
      intro id
      apply wide.keeps_bind (wide.keeps_setProperty id (wide.properties _ _))
      intro _
      apply wide.keeps_bind (wide.keeps_setProperty id (wide.properties _ _))
      intro _
      apply wide.keeps_bind (wide.keeps_enabledInputs id)
      intro inputs
      split
      · apply wide.keeps_bind (wide.keeps_link self id _)
        intro _
        apply wide.keeps_bind (wide.keeps_bindOperand (wide.admitsOperand other) id _)
        exact fun _ => wide.keeps_firstOutput id
      · exact wide.keeps_fault rfl
    · exact wide.keeps_fault rfl
  unfold Build.compare
  split
  · exact wide.keeps_boolean .xnor self (some other)
  · exact wide.keeps_boolean .xor self (some other)
  · exact hnode

theorem keeps_component (axis : Axis) (self : Expr) : limits.Keeps (component session axis self) := by
  unfold component
  split
  · exact wide.keeps_fault rfl
  · apply wide.keeps_bind (wide.keeps_addNode (wide.kinds _))
    intro id
    apply wide.keeps_bind (wide.keeps_inputAt id 0)
    intro input
    apply wide.keeps_bind (wide.keeps_link self id input)
    exact fun _ => wide.keeps_outputAt id axis.position

theorem keeps_field (kind : String) : limits.Keeps (field session kind) := by
  exact wide.keeps_bind (wide.keeps_addNode (wide.kinds _)) fun id => wide.keeps_firstOutput id

theorem keeps_operandOrField (kind : String) (key : Option Operand) :
    limits.Keeps (operandOrField session kind key) := by
  cases key with
  | some operand => exact wide.keeps_pure operand
  | none => exact wide.keeps_bind (wide.keeps_field kind) fun _ => wide.keeps_pure _

theorem keeps_bindNamed (id : NodeId) (name : String) (operand : Operand) :
    limits.Keeps (bindNamed session id name operand) := by
  apply wide.keeps_bind (wide.keeps_inputNamed id name)
  exact fun input => wide.keeps_bindOperand (wide.admitsOperand operand) id input

theorem keeps_setDomain (id : NodeId) (domain : Option String) : limits.Keeps (setDomain id domain) := by
  cases domain with
  | some domain => exact wide.keeps_setProperty id (wide.properties _ _)
  | none => exact wide.keeps_pure ()

theorem keeps_sampleIndex (self geometry : Expr) (dataType : String) (index : Operand) (domain : Option String) :
    limits.Keeps (sampleIndex session self geometry dataType index domain) := by
  apply wide.keeps_bind (wide.keeps_addNode (wide.kinds _))
  intro id
  apply wide.keeps_bind (wide.keeps_setProperty id (wide.properties _ _))
  intro _
  apply wide.keeps_bind (wide.keeps_setDomain id domain)
  intro _
  apply wide.keeps_bind (wide.keeps_bindNamed id "Geometry" (.expr geometry))
  intro _
  apply wide.keeps_bind (wide.keeps_bindNamed id "Value" (.expr self))
  intro _
  apply wide.keeps_bind (wide.keeps_bindNamed id "Index" index)
  exact fun _ => wide.keeps_firstOutput id

theorem keeps_sample (self geometry : Expr) (mode : SampleMode) (key : Option Operand) (domain : Option String) :
    limits.Keeps (sample session self geometry mode key domain) := by
  unfold sample
  split
  · split
    · apply wide.keeps_bind (wide.keeps_operandOrField indexKind key)
      exact fun index => wide.keeps_sampleIndex self geometry _ index domain
    · apply wide.keeps_bind (wide.keeps_operandOrField positionKind key)
      intro position
      apply wide.keeps_bind (wide.keeps_addNode (wide.kinds _))
      intro id
      apply wide.keeps_bind (wide.keeps_setDomain id domain)
      intro _
      apply wide.keeps_bind (wide.keeps_bindNamed id "Geometry" (.expr geometry))
      intro _
      apply wide.keeps_bind (wide.keeps_bindNamed id "Sample Position" position)
      intro _
      apply wide.keeps_bind (wide.keeps_firstOutput id)
      exact fun index => wide.keeps_sampleIndex self geometry _ (.expr index) domain
    · apply wide.keeps_bind (wide.keeps_operandOrField positionKind key)
      intro position
      apply wide.keeps_bind (wide.keeps_addNode (wide.kinds _))
      intro id
      apply wide.keeps_bind (wide.keeps_setProperty id (wide.properties _ _))
      intro _
      apply wide.keeps_bind (wide.keeps_bindNamed id "Mesh" (.expr geometry))
      intro _
      apply wide.keeps_bind (wide.keeps_bindNamed id "Value" (.expr self))
      intro _
      apply wide.keeps_bind (wide.keeps_bindNamed id "Sample Position" position)
      exact fun _ => wide.keeps_firstOutput id
  · exact wide.keeps_fault rfl

theorem keeps_iteratePoints (self : Expr) : limits.Keeps (iteratePoints session self) := by
  unfold iteratePoints
  split
  · exact wide.keeps_fault rfl
  · apply wide.keeps_bind (wide.keeps_lower (wide.kinds _) (some self) (wide.admitsAll ∅))
    intro result
    apply wide.keeps_bind (wide.keeps_ofExcept fun e he => wide.plain (result.plain_only e he))
    intro points
    exact wide.keeps_bind (wide.keeps_field indexKind) fun _ => wide.keeps_pure _

end Limits.Open

/-! ## Bodies that are put together from operations -/

namespace Build

/-- Steps that are put together from the operations of building, in any way and with failures that
are caught or not. Graphs of the given names may be built on the way. -/
inductive Composed (session : Session) (names : List String) : {α : Type} → BuildM α → Prop
  | pure {α : Type} (a : α) : Composed session names (pure a : BuildM α)
  | throw {α : Type} (e : BuildError) : Composed session names (throw e : BuildM α)
  | bind {α β : Type} {m : BuildM α} {f : α → BuildM β} (first : Composed session names m)
      (rest : ∀ a, Composed session names (f a)) : Composed session names (m >>= f)
  | attempt {α : Type} {m : BuildM α} {handler : BuildError → BuildM α} (first : Composed session names m)
      (rest : ∀ e, Composed session names (handler e)) : Composed session names (tryCatch m handler)
  | get : Composed session names (get : BuildM Build)
  | report (event : Event) : Composed session names (report event)
  | active : Composed session names active
  | graph : Composed session names graph
  | node (id : NodeId) : Composed session names (node id)
  | inputAt (id : NodeId) (position : Nat) : Composed session names (inputAt id position)
  | inputNamed (id : NodeId) (name : String) : Composed session names (inputNamed id name)
  | enabledInputs (id : NodeId) : Composed session names (enabledInputs id)
  | outputAt (id : NodeId) (position : Nat) : Composed session names (outputAt id position)
  | firstOutput (id : NodeId) : Composed session names (firstOutput id)
  | callResult (id : NodeId) : Composed session names (callResult id)
  | addNode (kind : String) : Composed session names (addNode session kind)
  | setProperty (id : NodeId) (name : String) (value : PropertyValue) :
      Composed session names (setProperty id name value)
  | setDefault (id : NodeId) (port : PortId) (value : Literal) : Composed session names (setDefault id port value)
  | link (source : Expr) (id : NodeId) (port : PortId) : Composed session names (link source id port)
  | bindOperand (operand : Operand) (id : NodeId) (port : PortId) :
      Composed session names (bindOperand session operand id port)
  | bindArguments (id : NodeId) (primary : Option Expr) (arguments : Arguments) :
      Composed session names (bindArguments session id primary arguments)
  | constant (value : Literal) : Composed session names (constant session value)
  | lower (kind : String) (primary : Option Expr) (arguments : Arguments) :
      Composed session names (lower session kind primary arguments)
  | callGraph (name : String) (primary : Option Expr) (arguments : Arguments) :
      Composed session names (callGraph session name primary arguments)
  | call (function : String) (primary : Option Expr) (arguments : Arguments) :
      Composed session names (call session function primary arguments)
  | arithmetic (op : MathOp) (self : Expr) (other : Operand) :
    Composed session names (arithmetic session op self other)
  | reflected (op : MathOp) (self : Expr) (other : Operand) :
    Composed session names (reflected session op self other)
  | compare (op : CompareOp) (self : Expr) (other : Operand) :
      Composed session names (Build.compare session op self other)
  | boolean (op : BooleanOp) (self : Expr) (other : Option Operand) :
      Composed session names (boolean session op self other)
  | component (axis : Axis) (self : Expr) : Composed session names (component session axis self)
  | sample (self geometry : Expr) (mode : SampleMode) (key : Option Operand) (domain : Option String) :
      Composed session names (sample session self geometry mode key domain)
  | iteratePoints (self : Expr) : Composed session names (iteratePoints session self)
  | repetition {step : Inputs → BuildM (List Operand)}
    (iterations : Operand) (items : List Param) (initial : Arguments)
      (body : ∀ state, Composed session names (step state)) :
      Composed session names (repetition session iterations items initial step)
  | simulation {step : Inputs → BuildM (List Operand)} (items : List Param) (initial : Arguments)
      (body : ∀ state, Composed session names (step state)) :
      Composed session names (simulation session items initial step)
  | build {body : Inputs → BuildM Returns} (name : String) (named : name ∈ names) (signature : Signature)
      (inner : ∀ inputs, Composed session names (body inputs)) :
      Composed session names (Build.build session name signature body)

/-- The later build is entered at the same graphs and has all graphs of the earlier one in their
order, and graphs whose names are not given are as they were. -/
structure Confined (names : List String) (b b' : Build) : Prop where
  scopes : b'.scopes = b.scopes
  order : b.store.graphs.keys <+: b'.store.graphs.keys
  others : ∀ other, other ∉ names → b'.store.get? other = b.store.get? other

variable {session : Session} {names : List String}

/-- The limits of steps that may build graphs of the given names. -/
abbrev building (names : List String) : Limits := .loose (fun name => name ∈ names) fun _ => True

theorem open_building (session : Session) (names : List String) : (building names).Open session :=
  Limits.open_loose (fun _ _ => trivial) session

theorem exec_tryCatch (m : BuildM α) (handler : BuildError → BuildM α) (b : Build) : exec (tryCatch m handler) b =
    match exec m b with
    | (.ok a, b') => (.ok a, b')
    | (.error e, b') => exec (handler e) b' := by
  simp only [exec, tryCatch, tryCatchThe, MonadExceptOf.tryCatch, ExceptT.tryCatch, ExceptT.mk, bind, StateT.bind]
  cases m b with
  | mk result b' => cases result <;> rfl

/-- A build whose body keeps to the limits is confined to its graph and those that it builds on the
way. -/
theorem confined_version_of_keeps {body : Inputs → BuildM Returns}
    (keeps : ∀ inputs, (building names).Keeps (body inputs)) (name : String) (signature : Signature) (b : Build) :
    Confined (name :: names) b (exec (Build.build session name signature body) b).2 ∧
      (exec (Build.build session name signature body) b).2.store.version = b.store.version := by
  have wide := open_building session names
  cases hvalid : signature.validate session.classes with
  | error e =>
    have hexec : exec (Build.build session name signature body) b = (.error e, b) :=
      exec_bind_error ((exec_ofExcept _ b).trans (by rw [hvalid]))
    rw [hexec]
    exact ⟨⟨rfl, List.prefix_refl _, fun _ _ => rfl⟩, rfl⟩
  | ok params =>
    have hrun : (building names).Keeps (runBody session params body) :=
      wide.keeps_runBody trivial trivial params keeps fun _ _ _ returns _ => wide.collects returns
    obtain ⟨_, _, _, changed, _⟩ := @Limits.Lawful.changed_build _ _ b name wide.toLawful _ _ _ hvalid hrun
      fun _ _ _ _ => trivial
    refine ⟨⟨changed.scopes, changed.names, fun other hother => ?_⟩, changed.version⟩
    rw [List.mem_cons, not_or] at hother
    exact changed.others other hother.1 hother.2

theorem Confined.of_keeps {body : Inputs → BuildM Returns} (keeps : ∀ inputs, (building names).Keeps (body inputs))
    (name : String) (signature : Signature) (b : Build) :
    Confined (name :: names) b (exec (Build.build session name signature body) b).2 :=
  (confined_version_of_keeps keeps name signature b).1

/-- Inside another graph, a nested build changes that graph at most if it has one of the names. -/
theorem Confined.within {b b' : Build} (confined : Confined names b b')
    (version : b'.store.version = b.store.version) : (building names).Within b b' where
  scopes := confined.scopes
  version := version
  names := confined.order
  others := fun other _ hother => confined.others other hother
  current := by
    intro g hg
    obtain ⟨name, hscope, hget⟩ := exists_scope hg
    have hkey := confined.order.subset (OrderedMap.mem_keys_iff.mpr ⟨g, hget⟩)
    obtain ⟨g', hg'⟩ := OrderedMap.mem_keys_iff.mp hkey
    refine ⟨g', ?_, trivial⟩
    rw [current?, confined.scopes, hscope]
    exact hg'

/-- Steps that are put together from operations keep to the limits wherever the builds of other
graphs do. -/
theorem Composed.keeps_of {limits : Limits} (wide : limits.Open session) (loud : ¬ limits.quiet)
    (errors : ∀ e, limits.error e)
    (nested : ∀ {body : Inputs → BuildM Returns} {name}, name ∈ names → ∀ signature,
      (∀ inputs, Composed session names (body inputs)) → (∀ inputs, limits.Keeps (body inputs)) →
        limits.Keeps (Build.build session name signature body))
    {m : BuildM α} (h : Composed session names m) : limits.Keeps m := by
  induction h with
  | pure a => exact wide.keeps_pure a
  | throw e => exact wide.keeps_throw (errors e)
  | bind _ _ first rest => exact wide.keeps_bind first rest
  | attempt _ _ first rest =>
    intro b hb
    refine ⟨?_, fun e _ => errors e, fun quiet => absurd quiet loud⟩
    have hfirst := (first b hb).within
    rw [exec_tryCatch]
    split
    · next hexec => rwa [hexec] at hfirst
    · next e b' hexec =>
        rw [hexec] at hfirst
        exact hfirst.trans wide.trans (rest e b' (wide.context hb hfirst)).within
  | get => exact wide.keeps_get loud
  | report event => exact wide.keeps_report event
  | active => exact wide.keeps_active
  | graph => exact wide.keeps_graph
  | node id => exact wide.keeps_node id
  | inputAt id position => exact wide.keeps_inputAt id position
  | inputNamed id name => exact wide.keeps_inputNamed id name
  | enabledInputs id => exact wide.keeps_enabledInputs id
  | outputAt id position => exact wide.keeps_outputAt id position
  | firstOutput id => exact wide.keeps_firstOutput id
  | callResult id => exact wide.keeps_callResult id
  | addNode kind => exact wide.keeps_addNode (wide.kinds kind)
  | setProperty id name value => exact wide.keeps_setProperty id (wide.properties name value)
  | setDefault id port value => exact wide.keeps_setDefault id port (wide.literals value)
  | link source id port => exact wide.keeps_link source id port
  | bindOperand operand id port => exact wide.keeps_bindOperand (wide.admitsOperand operand) id port
  | bindArguments id primary arguments => exact wide.keeps_bindArguments id primary (wide.admitsAll arguments)
  | constant value => exact wide.keeps_constant (wide.literals value)
  | lower kind primary arguments => exact wide.keeps_lower (wide.kinds kind) primary (wide.admitsAll arguments)
  | callGraph name primary arguments => exact wide.keeps_callGraph name primary arguments
  | call function primary arguments => exact wide.keeps_call function primary arguments
  | arithmetic op self other => exact wide.keeps_arithmetic op self other
  | reflected op self other => exact wide.keeps_reflected op self other
  | compare op self other => exact wide.keeps_compare op self other
  | boolean op self other => exact wide.keeps_boolean op self other
  | component axis self => exact wide.keeps_component axis self
  | sample self geometry mode key domain => exact wide.keeps_sample self geometry mode key domain
  | iteratePoints self => exact wide.keeps_iteratePoints self
  | repetition iterations items initial _ step =>
    exact wide.keeps_repetition (wide.admitsLiterals initial) step
      (fun _ _ _ _ _ operand _ => wide.admitsOperand operand) (fun e _ => errors e) (wide.admitsOperand iterations)
  | simulation items initial _ step =>
    exact wide.keeps_simulation (wide.admitsLiterals initial) step
      (fun _ _ _ _ _ operand _ => wide.admitsOperand operand) fun e _ => errors e
  | build name named signature inner keeps => exact nested named signature inner keeps

theorem Composed.keeps {m : BuildM α} (h : Composed session names m) : (building names).Keeps m := by
  refine h.keeps_of (open_building session names) not_false (fun _ => trivial) ?_
  intro body name named signature _ inner b _
  obtain ⟨confined, version⟩ := @confined_version_of_keeps session names _ inner name signature b
  have hsame : ∀ other, other ∉ names → other ∉ name :: names := by
    intro other hother hmem
    cases hmem with
    | head => exact hother named
    | tail _ hrest => exact hother hrest
  have hnames : Confined names b _ :=
    ⟨confined.scopes, confined.order, fun other hother => confined.others other (hsame other hother)⟩
  exact ⟨hnames.within version, fun _ _ => trivial, not_false.elim⟩

theorem Composed.ofExcept (r : Except BuildError α) : Composed session names (Build.ofExcept r) := by
  cases r with
  | ok a => exact .pure a
  | error e => exact .throw e

/-- What was computed is used. -/
theorem Composed.take {r : Except BuildError α} {f : α → BuildM β} (rest : ∀ a, Composed session names (f a)) :
    Composed session names (Build.ofExcept r >>= f) := .bind (.ofExcept r) rest

/-- The result of an operation is wrapped up. -/
theorem Composed.wrap {m : BuildM α} {g : α → β} (h : Composed session names m) :
    Composed session names (m >>= fun a => Pure.pure (g a)) := .bind h fun _ => .pure _

end Build

/-! ## Programs and procedures -/

namespace Script

variable {session : Session} {names : List String}

mutual

theorem Statement.composed_build (statement : Statement) (environment : Environment) :
    Composed session names (statement.build session environment) := by
  cases statement with
  | call target function args =>
    rw [Statement.build]
    exact .bind (.ofExcept _) fun arguments => .call function none arguments
  | zone target kind items args body next =>
    rw [Statement.build]
    apply Composed.bind (.ofExcept _)
    rintro ⟨iterations, initial⟩
    have hstep : ∀ state : Inputs, Composed session names (do
        let inner ← Statement.buildAll session (environment.withInputs state) body
        Build.ofExcept (next.mapM inner.operand)) := fun state =>
      .bind (Statement.composed_buildAll body _) fun _ => .ofExcept _
    cases kind with
    | repetition => exact .repetition iterations _ initial hstep
    | simulation => exact .simulation _ initial hstep

theorem Statement.composed_buildAll (statements : List Statement) (environment : Environment) :
    Composed session names (Statement.buildAll session environment statements) := by
  cases statements with
  | nil =>
    rw [Statement.buildAll]
    exact .pure environment
  | cons statement rest =>
    rw [Statement.buildAll]
    exact .bind (Statement.composed_build statement environment) fun _ => Statement.composed_buildAll rest _

end

/-- The body of a program calls and makes zones, and builds no other graph. -/
theorem Program.composed_body (program : Program) (inputs : Inputs) :
    Composed session [] (program.body session inputs) := by
  apply Composed.bind (.ofExcept _)
  intro bound
  apply Composed.bind (Statement.composed_buildAll program.statements bound)
  intro bound
  exact .bind (.ofExcept _) fun values => .pure _

end Script

mutual

/-- Names of the graphs that an action builds, at all depths. -/
def Action.builds : Action → List String
  | .repetition _ _ _ body _ => Step.buildsIn body
  | .simulation _ _ body _ => Step.buildsIn body
  | .build name _ body _ => name :: Step.buildsIn body
  | _ => []

def Step.builds : Step → List String
  | .step _ _ action => action.builds

/-- Names of the graphs that the steps build, at all depths. -/
def Step.buildsIn : List Step → List String
  | [] => []
  | step :: rest => step.builds ++ Step.buildsIn rest

end

section Procedures

variable {session : Session} {names : List String}

theorem Outcome.composed_report (outcome : Outcome) : Composed session names outcome.report := by
  apply Composed.bind .get
  intro b
  cases outcome with
  | node id => exact .bind .graph fun _ => .report _
  | _ => exact .report _

theorem Build.composed_inputPort (id : NodeId) (place : InputPlace) :
    Composed session names (inputPort id place) := by
  cases place with
  | named name => exact .inputNamed id name
  | position position => exact .inputAt id position

theorem Build.composed_enabledPositions (id : NodeId) : Composed session names (enabledPositions id) := by
  apply Composed.bind (.enabledInputs id)
  intro enabled
  exact .bind (.node id) fun _ => .pure _

theorem Attribute.composed_lookup (self : Attribute) (output : String) :
    Composed session names (self.lookup session output) :=
  .bind (.call _ none _) fun _ => .ofExcept _

theorem Attribute.composed_store (self : Attribute) (geometry : Expr) (value : Operand) :
    Composed session names (self.store session geometry value) :=
  .bind (.call _ (some geometry) _) fun _ => .ofExcept _

mutual

theorem Action.composed_run (action : Action) (inputs : Inputs)
    (registers : Registers) (named : action.builds ⊆ names) :
    Composed session names (action.run session inputs registers) := by
  unfold Action.run
  cases action with
  | call function primary arguments =>
    exact .take fun primary => .take fun arguments => .wrap (.call function primary arguments)
  | lower kind primary arguments =>
    exact .take fun primary => .take fun arguments => .wrap (.lower kind primary arguments)
  | callGraph graph primary arguments =>
    exact .take fun primary => .take fun arguments => .wrap (.callGraph graph primary arguments)
  | constant value =>
    exact .wrap (.constant value)
  | arithmetic op self other =>
    exact .take fun self => .take fun other => .wrap (.arithmetic op self other)
  | reflected op self other =>
    exact .take fun self => .take fun other => .wrap (.reflected op self other)
  | compare op self other =>
    exact .take fun self => .take fun other => .wrap (.compare op self other)
  | logic op self other =>
    exact .take fun self => .take fun other => .wrap (.boolean op self other)
  | boolean op self other =>
    exact .take fun other => .take fun self => .wrap (.boolean op self other)
  | component axis self =>
    exact .take fun self => .wrap (.component axis self)
  | sample self geometry mode key domain =>
    exact .take fun geometry => .take fun key => .take fun self => .wrap (.sample self geometry mode key domain)
  | iterate self =>
    exact .take fun self => .wrap (.iteratePoints self)
  | named self use =>
    cases use with
    | read =>
        exact .wrap (self.composed_lookup _)
    | isPresent =>
        exact .wrap (self.composed_lookup _)
    | store geometry value =>
        exact .take fun geometry => .take fun value => .wrap (self.composed_store geometry value)
  | repetition iterations items initial body next =>
    rw [Action.builds] at named
    refine .take fun initial => ?_
    refine .take fun iterations => ?_
    refine .wrap (.repetition iterations items initial fun state => ?_)
    apply Composed.bind .get
    intro b
    apply Composed.bind (.report _)
    intro _
    exact .bind (Step.composed_runAll body state _ named) fun _ => .ofExcept _
  | simulation items initial body next =>
    rw [Action.builds] at named
    refine .take fun initial => ?_
    refine .wrap (.simulation items initial fun state => ?_)
    apply Composed.bind .get
    intro b
    apply Composed.bind (.report _)
    intro _
    exact .bind (Step.composed_runAll body state _ named) fun _ => .ofExcept _
  | build name signature body returns =>
    rw [Action.builds, List.cons_subset] at named
    refine .wrap (.build name named.1 signature fun given => ?_)
    apply Composed.bind .get
    intro b
    apply Composed.bind (.report _)
    intro _
    exact .bind (Step.composed_runAll body given _ named.2) fun _ => .ofExcept _
  | input name =>
    exact .wrap (.ofExcept _)
  | group name =>
    exact .wrap (.ofExcept _)
  | active =>
    apply Composed.bind .active
    intro graph
    exact .bind .get fun _ => .pure _
  | node kind =>
    exact .wrap (.addNode kind)
  | setProperty node name value =>
    exact .take fun id => .wrap (.setProperty id name value)
  | setDefault node position value =>
    refine .take fun id => ?_
    apply Composed.bind (.inputAt id position)
    exact fun port => .bind (.setDefault id port value) fun _ => .pure _
  | bind node place value =>
    refine .take fun id => ?_
    refine .take fun operand => ?_
    apply Composed.bind (Build.composed_inputPort id place)
    exact fun port => .bind (.bindOperand operand id port) fun _ => .pure _
  | bindArguments node primary arguments =>
    exact .take fun id => .take fun primary => .take fun arguments => .wrap (.bindArguments id primary arguments)
  | callResult node =>
    exact .take fun id => .wrap (.callResult id)
  | output node position =>
    exact .take fun id => .wrap (.outputAt id position)
  | firstOutput node =>
    exact .take fun id => .wrap (.firstOutput id)
  | enabledInputs node =>
    exact .take fun id => .wrap (Build.composed_enabledPositions id)

theorem Step.composed_run (step : Step) (inputs : Inputs) (registers : Registers) (named : step.builds ⊆ names) :
    Composed session names (step.run session inputs registers) := by
  cases step with
  | step attempt target action =>
    rw [Step.builds] at named
    rw [Step.run]
    apply Composed.attempt
    · apply Composed.bind (Action.composed_run action inputs registers named)
      intro outcome
      exact .bind outcome.composed_report fun _ => .pure _
    · intro e
      apply Composed.bind (.report _)
      intro _
      split
      · exact .pure registers
      · exact .throw e

theorem Step.composed_runAll (steps : List Step) (inputs : Inputs) (registers : Registers)
    (named : Step.buildsIn steps ⊆ names) : Composed session names (Step.runAll session inputs registers steps) := by
  cases steps with
  | nil =>
    rw [Step.runAll]
    exact .pure registers
  | cons step rest =>
    rw [Step.buildsIn, List.append_subset] at named
    rw [Step.runAll]
    apply Composed.bind (Step.composed_run step inputs registers named.1)
    exact fun registers => Step.composed_runAll rest inputs registers named.2

end

end Procedures

/-- A build whose body is put together from operations comes back to the graphs it was entered from,
keeps all graphs in their order and changes none but its own and those of nested builds, whether it
succeeds or not. A program builds no graph but its own. -/
theorem Build.confined_build (session : Session) :
    (∀ (names : List String) (name : String) (signature : Signature) (body : Inputs → BuildM Returns),
      (∀ inputs, Composed session names (body inputs)) →
        ∀ b, Confined (name :: names) b (exec (Build.build session name signature body) b).2) ∧
    ∀ (program : Script.Program) (b : Build), Confined [program.name] b (exec (program.build session) b).2 := by
  constructor
  · intro names name signature body composed b
    exact Confined.of_keeps (fun inputs => (composed inputs).keeps) name signature b
  · intro program b
    unfold Script.Program.build
    cases hsignature : Script.Program.signature program.params with
    | error e =>
      rw [exec_bind_error ((exec_ofExcept _ b).trans rfl)]
      exact ⟨rfl, List.prefix_refl _, fun _ _ => rfl⟩
    | ok signature =>
      rw [exec_bind_ok ((exec_ofExcept _ b).trans rfl)]
      exact Confined.of_keeps (fun inputs => (program.composed_body inputs).keeps) program.name signature b

/-- Steps that build another graph inside a zone and then call a function that does not exist. -/
def detour : List Step :=
  [.step false none (.repetition (.literal (.int 2)) [{ name := "x", typeName := "Float" }] []
      [.step false none (.build "Inner" [] [.step false (some "one") (.constant (.int 1))] (.call "one"))]
      [.register "x" none]),
    .step false none (.call "nowhere" none [])]

/-- The graph that the steps start from is not among those that they build. -/
theorem Build.confined_detour :
    let session := Session.standard {}
    let body (given : Inputs) : BuildM Returns := do
      let registers ← Step.runAll session given (Registers.withInputs [] given) detour
      Build.ofExcept (registers.returns (.tuple []))
    let b : Build := { store := Store.empty.set "Kept" { name := "Kept" }, supply := {}, scopes := ["Kept"] }
    let after := exec (Build.build session "Outer" [] body) b
    (∀ inputs, Composed session ["Inner"] (body inputs)) ∧ after.1.isOk = false ∧
      after.2.store.graphs.keys = ["Kept", "Outer", "Inner"] ∧ Confined ["Outer", "Inner"] b after.2 := by
  intro session body b after
  have composed : ∀ inputs, Composed session ["Inner"] (body inputs) := fun inputs =>
    .bind (Step.composed_runAll detour inputs _ (by decide)) fun _ => .ofExcept _
  have hrun : (decide (after.1.isOk = false ∧ after.2.store.graphs.keys = ["Kept", "Outer", "Inner"])) = true := by
    decide +kernel
  obtain ⟨hfailed, hkeys⟩ := of_decide_eq_true hrun
  exact ⟨composed, hfailed, hkeys, (Build.confined_build session).1 ["Inner"] "Outer" [] body composed b⟩

end NodeScript
