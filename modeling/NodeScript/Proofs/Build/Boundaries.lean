import NodeScript.Proofs.Build.Soundness

/-!
# What a built graph exposes

The graph of a program has one source and one sink. The inputs of its interface are the parameters
of the program and come out of the source; the outputs are its results, each with one link to the
sink from the node output that the result stands for.
-/

namespace NodeScript

open Script List

variable {classes : SocketClasses} {parameters : List Parameter} {result : String × Operand} {port : Port}

/-! ## Parameters -/

variable {name : String}

/-- The declaration of a parameter has its name as a title, the type of its class, and its default
converted to that type. -/
structure Script.Parameter.Declares (classes : SocketClasses) (parameter : Parameter) (declaration : Declaration) :
    Prop where
  name : declaration.name = titleCase parameter.name
  type : classes.resolve? parameter.typeName = some declaration.type
  default : Option.Rel (fun held value => ∃ given, value = Value.literal given ∧
    declaration.type.coerce? given = some held) declaration.default parameter.default

/-- The declaration of a parameter: its name, the type of its class, the default converted to that
type, and the subtype and bounds that the type has. -/
structure Param.Declares (classes : SocketClasses) (param : Param)
    (name : String) (declaration : Declaration) : Prop where
  name : declaration.name = param.displayName.getD name
  type : classes.resolve? param.typeName = some declaration.type
  default : Option.Rel (fun held given => declaration.type.coerce? given = some held)
    declaration.default param.default
  subtype : declaration.subtype = param.subtype ∧
    ∀ subtype, param.subtype = some subtype → subtype ∈ declaration.type.subtypes
  bounded : declaration.type ∈ [.float, .int, .vector] →
    declaration.lower = param.lower ∧ declaration.upper = param.upper
  unbounded : declaration.type ∉ [.float, .int, .vector] → declaration.lower = none ∧ declaration.upper = none

theorem Param.resolve_eq_ok {param : Param} {declaration : Declaration}
    (h : param.resolve name classes = .ok declaration) : param.Declares classes name declaration := by
  unfold Param.resolve at h
  dsimp only at h
  split at h
  · cases h
  cases htype : classes.resolve? param.typeName with
  | none =>
    rw [htype] at h
    cases h
  | some type =>
    rw [htype] at h
    have hbounds : type.hasBounds = true ↔ type ∈ [.float, .int, .vector] := by
      cases type <;> simp [SocketType.hasBounds]
    let resolved (held : Option Literal) : Declaration :=
      { param with
        name := param.displayName.getD name, type, default := held
        lower := if type.hasBounds then param.lower else none
        upper := if type.hasBounds then param.upper else none }
    have hresolved : ∀ held, Option.Rel (fun held given => type.coerce? given = some held) held param.default →
        (∀ subtype, param.subtype = some subtype → subtype ∈ type.subtypes) →
        param.Declares classes name (resolved held) := fun held hheld hfits =>
      ⟨rfl, htype, hheld, ⟨rfl, hfits⟩, fun h => ⟨if_pos (hbounds.mpr h), if_pos (hbounds.mpr h)⟩,
        fun h => ⟨if_neg (mt hbounds.mp h), if_neg (mt hbounds.mp h)⟩⟩
    cases hdefault : param.default with
    | none =>
      rw [hdefault] at h hresolved
      dsimp only [pure_bind] at h
      split at h
      · next subtype hsubtype =>
        split at h
        · cases h
        · next hfits =>
          cases h
          exact hresolved _ .none (by simpa [hsubtype] using hfits)
      · next hsubtype =>
        cases h
        exact hresolved _ .none (by simp [hsubtype])
    | some given =>
      rw [hdefault] at h hresolved
      dsimp only at h
      cases hheld : type.coerce? given with
      | none =>
        rw [hheld] at h
        cases h
      | some held =>
        rw [hheld] at h
        dsimp only [pure_bind] at h
        split at h
        · next subtype hsubtype =>
          split at h
          · cases h
          · next hfits =>
            cases h
            exact hresolved _ (.some hheld) (by simpa [hsubtype] using hfits)
        · next hsubtype =>
          cases h
          exact hresolved _ (.some hheld) (by simp [hsubtype])

theorem Signature.takeName_eq_ok {names names' : List String} (h : takeName names name = .ok names') :
    name ∉ names ∧ names' = name :: names := by
  unfold takeName at h
  split at h
  · cases h
  · split at h
    · cases h
    · next hnew =>
        cases h
        exact ⟨hnew, rfl⟩

namespace Script.Program

variable {found : Signature}

/-- The parameters of a program as a signature. -/
theorem signature_cons {parameter : Parameter} {rest : List Parameter}
    (h : signature (parameter :: rest) = .ok found) :
    ∃ default others, signature rest = .ok others ∧
      found = .param { parameter.item with default } :: others ∧
      Option.Rel (fun given value => value = Value.literal given) default parameter.default := by
  rw [signature] at h
  cases hdefault : parameter.default with
  | none =>
    rw [hdefault] at h
    obtain ⟨default, hdefault, h⟩ := Except.bind_eq_ok.mp h
    obtain ⟨others, hothers, h⟩ := Except.bind_eq_ok.mp h
    cases hdefault
    cases h
    exact ⟨none, others, hothers, rfl, .none⟩
  | some value =>
    rw [hdefault] at h
    dsimp only at h
    cases hvalue : value.literal? with
    | none =>
      rw [hvalue] at h
      cases h
    | some literal =>
      rw [hvalue] at h
      obtain ⟨default, hdefault, h⟩ := Except.bind_eq_ok.mp h
      obtain ⟨others, hothers, h⟩ := Except.bind_eq_ok.mp h
      cases hdefault
      cases h
      refine ⟨some literal, others, hothers, rfl, .some ?_⟩
      cases value <;> cases hvalue
      rfl

theorem declares_entries {names : List String}
    {params : List ResolvedParam} (hfound : signature parameters = .ok found)
    (h : Signature.resolveEntries classes found names = .ok params) :
    Forall₂ (Parameter.Declares classes) parameters (params.map ResolvedParam.declaration) ∧
      (parameters.map Parameter.name).Nodup ∧ ∀ parameter ∈ parameters, parameter.name ∉ names := by
  induction parameters generalizing found names params with
  | nil =>
    cases hfound
    cases h
    exact ⟨.nil, nodup_nil, fun _ h => absurd h not_mem_nil⟩
  | cons parameter rest ih =>
    obtain ⟨default, others, hothers, rfl, hwritten⟩ := signature_cons hfound
    simp only [Signature.resolveEntries, Except.bind_eq_ok] at h
    obtain ⟨declaration, hresolve, names', htake, left, hleft, h⟩ := h
    cases h
    obtain ⟨hnew, rfl⟩ := Signature.takeName_eq_ok htake
    obtain ⟨declares, hnodup, hfresh⟩ := ih hothers hleft
    have declared := Param.resolve_eq_ok hresolve
    have hdefault := declared.default
    refine ⟨.cons ⟨declared.name, declared.type, ?_⟩ declares,
      nodup_cons.mpr ⟨fun hmem => ?_, hnodup⟩, fun other hother => ?_⟩
    · revert hdefault hwritten
      generalize declaration.default = held, parameter.default = value
      rintro (hvalue | _) hdefault
      · cases hdefault with
        | some hcoerce => exact .some ⟨_, hvalue, hcoerce⟩
      · cases hdefault
        exact .none
    · obtain ⟨other, hother, heq⟩ := mem_map.mp hmem
      exact hfresh other hother (heq ▸ mem_cons_self)
    · rcases mem_cons.mp hother with rfl | hother
      · exact hnew
      · exact fun hmem => hfresh other hother (mem_cons_of_mem _ hmem)

variable {session : Session} {program : Program} {params : List ResolvedParam}

/-- The inputs of a program are its parameters. -/
theorem declares_inputs (h : program.inputs session = .ok params) :
    Forall₂ (Parameter.Declares session.classes) program.params (params.map ResolvedParam.declaration) ∧
      program.paramNames.Nodup := by
  obtain ⟨found, hfound, h⟩ := Except.bind_eq_ok.mp h
  obtain ⟨declares, hnodup, _⟩ := declares_entries hfound h
  exact ⟨declares, hnodup⟩

theorem inputs_eq_ok (h : program.inputs session = .ok params) :
    params.map (fun param => param.declaration.name) = program.paramNames.map titleCase ∧
      program.paramNames.Nodup := by
  obtain ⟨declares, hnodup⟩ := declares_inputs h
  refine ⟨Eq.symm ?_, hnodup⟩
  rw [paramNames, map_map, ← forall₂_eq_eq_eq, forall₂_map_left_iff, forall₂_map_right_iff]
  exact (forall₂_map_right_iff.mp declares).imp fun _ _ h => h.name.symm

/-- The types of the inputs are those of known classes, and their defaults are converted from
written ones. -/
theorem declared_inputs (h : program.inputs session = .ok params) {param : ResolvedParam}
    (hparam : param ∈ params) : (∃ name, session.classes.resolve? name = some param.declaration.type) ∧
      ∀ value, param.declaration.default = some value → ∃ given, param.declaration.type.coerce? given = some value ∧
        some (Value.literal given) ∈ program.params.map Parameter.default := by
  obtain ⟨parameter, hparameter, declares⟩ := forall₂_exists_left (declares_inputs h).1 (mem_map_of_mem hparam)
  refine ⟨⟨_, declares.type⟩, fun value hvalue => ?_⟩
  have hdefault := declares.default
  rw [hvalue] at hdefault
  cases hwritten : parameter.default with
  | none =>
    rw [hwritten] at hdefault
    cases hdefault
  | some written =>
    rw [hwritten] at hdefault
    cases hdefault with
    | some hheld =>
      obtain ⟨given, rfl, hcoerce⟩ := hheld
      exact ⟨given, hcoerce, hwritten ▸ mem_map_of_mem hparameter⟩

/-! ## Results -/

/-- What the names of the program stand for after its statements. -/
def statementBindings (session : Session) (program : Program) (inputs : Inputs) : BuildM Environment := do
  let bound ← Build.ofExcept (environment inputs program.params ∅)
  Statement.buildAll session bound program.statements

/-- The same in an emptied graph. -/
def bodyBindings (session : Session) (program : Program) (params : List ResolvedParam) : BuildM Environment := do
  let source ← Build.addNode session groupInputKind
  let _ ← Build.addNode session groupOutputKind
  let inputs ← Build.bodyInputs source params 0 ∅
  program.statementBindings session inputs

/-- The same in a build of the program. -/
def bindings (session : Session) (program : Program) : BuildM Environment := do
  let params ← Build.ofExcept (program.inputs session)
  Build.prepare program.name params
  Build.inScope program.name (program.bodyBindings session params)

/-- The results have the keys of the program and the values that stand there. -/
def Results (program : Program) (environment : Environment) (found : List (String × Operand)) : Prop :=
  Forall₂ (fun (key, value) result => result.1 = key ∧ environment.operand value = .ok result.2)
    program.returns found

end Script.Program

namespace Graph

/-- The port has the name of the result and just one link. That comes from the node output that the
result stands for, which is of its type. -/
def Yields (graph : Graph) (sink : NodeId) (result : String × Operand) (port : Port) : Prop :=
  port.name = result.1 ∧ ∃ source id node output, result.2.Denotes graph source ∧
    graph.node? source.node = some node ∧ output ∈ node.outputs ∧ output.id = source.port ∧ output.type = port.type ∧
    graph.linksTo port.id = [⟨id, source.node, source.port, sink, port.id⟩]

/-- The node is the only one of its role. -/
def Only (graph : Graph) (node : Node) : Prop :=
  graph.node? node.id = some node ∧ ∀ id found, graph.node? id = some found → (found.role = node.role ↔ id = node.id)

/-- The graph takes parameters at its only source and gives results at its only sink. -/
structure Exposes (classes : SocketClasses) (parameters : List Parameter) (results : List (String × Operand))
    (graph : Graph) : Prop where
  inputs : Forall₂ (fun parameter entry => Parameter.Declares classes parameter entry.toDeclaration) parameters
    graph.interface.inputs
  outputs : (graph.interface.outputs.map fun entry => entry.name) = results.map Prod.fst
  source : ∃ source, graph.Only source ∧ source.role = .groupInput ∧
    source.outputs.map Port.toSocket = graph.interface.inputs.map fun entry => entry.socket .output
  sink : ∃ sink, graph.Only sink ∧ sink.role = .groupOutput ∧
    (sink.inputs.map Port.toSocket = graph.interface.outputs.map fun entry => entry.socket .input) ∧
    Forall₂ (graph.Yields sink.id) results sink.inputs

variable {graph : Graph}

theorem Only.move {node : Node} (h : graph.Only node) (id : NodeId) (position : Single × Single) :
    ∃ place, (graph.move id position).Only { node with position := place } := by
  obtain ⟨place, hplace⟩ := exists_node?_move h.1 id position
  refine ⟨place, hplace, fun key found hfound => ?_⟩
  rw [node?_move] at hfound
  obtain ⟨old, hold, rfl⟩ := Option.map_eq_some_iff.mp hfound
  exact h.2 key old hold

theorem denotes_move {operand : Operand} {source : Expr} (h : operand.Denotes graph source) (id : NodeId)
    (position : Single × Single) : operand.Denotes (graph.move id position) source := by
  cases h with
  | expr source => exact .expr source
  | @literal value node output name found carries =>
    obtain ⟨place, hplace⟩ := exists_node?_move found id position
    exact @Operand.Denotes.literal _ value { node with position := place } output name hplace carries

theorem Yields.move {sink : NodeId} (h : graph.Yields sink result port)
    (id : NodeId) (position : Single × Single) : (graph.move id position).Yields sink result port := by
  obtain ⟨hname, source, link, node, output, denotes, hnode, houtput, hlink⟩ := h
  obtain ⟨place, hplace⟩ := exists_node?_move hnode id position
  exact ⟨hname, source, link, _, output, denotes_move denotes id position, hplace, houtput, hlink⟩

theorem Exposes.move {results : List (String × Operand)}
    (h : graph.Exposes classes parameters results) (id : NodeId) (position : Single × Single) :
    (graph.move id position).Exposes classes parameters results where
  inputs := h.inputs
  outputs := h.outputs
  source := by
    obtain ⟨source, only, hsource⟩ := h.source
    obtain ⟨place, only⟩ := only.move id position
    exact ⟨_, only, hsource⟩
  sink := by
    obtain ⟨sink, only, hrole, hsockets, yields⟩ := h.sink
    obtain ⟨place, only⟩ := only.move id position
    exact ⟨_, only, hrole, hsockets, yields.imp fun _ _ h => h.move id position⟩

end Graph

namespace Site

variable {site : Site} {draft : Draft} {sink : Node}

/-- One of two nodes that are all boundary nodes. -/
theorem only_boundary {node other : Node} (hnode : draft.graph.node? node.id = some node)
    (hother : draft.graph.node? other.id = some other)
    (hrole : node.role.isBoundary = true) (hne : other.role ≠ node.role)
    (boundary : ∀ {id found}, draft.graph.node? id = some found → found.role.isBoundary = true →
      id = node.id ∨ id = other.id) : draft.graph.Only node := by
  refine ⟨hnode, fun id found hfound => ⟨fun hsame => ?_, ?_⟩⟩
  · rcases boundary hfound (hsame ▸ hrole) with hid | rfl
    · exact hid
    · rw [hother, Option.some.injEq] at hfound
      exact absurd (hfound ▸ hsame) hne
  · rintro rfl
    rw [hnode, Option.some.injEq] at hfound
    rw [hfound]

/-- A port of the sink takes one link. -/
theorem Answers.yields (sound : draft.Sound site.rules) (hsink : draft.graph.node? draft.sink = some sink)
    (hport : port ∈ sink.inputs) (h : site.Answers draft result port) :
    draft.graph.Yields draft.sink result port := by
  obtain ⟨hname, source, id, valid, denotes, htype, hlink⟩ := h
  obtain ⟨node, output, hnode, hid, htype', referable⟩ := valid.port
  refine ⟨hname, source, id, node, output, denotes, hnode, referable.mem, hid, htype'.trans htype.symm, ?_⟩
  have hmulti : port.multiInput = false := by
    obtain ⟨_, _, found, hfound, _, _, hsockets⟩ := sound.sink
    rw [hsink, Option.some.injEq] at hfound
    obtain ⟨entry, _, hentry⟩ := mem_map.mp (hsockets ▸ hfound ▸ mem_map_of_mem (f := Port.toSocket) hport)
    rw [← hentry]
    rfl
  have hmem : (⟨id, source.node, source.port, draft.sink, port.id⟩ : Link) ∈ draft.graph.linksTo port.id :=
    mem_filter.mpr ⟨hlink, decide_eq_true rfl⟩
  have hsingle := sound.single hsink hport hmulti
  obtain ⟨first, hfirst⟩ := length_eq_one_iff.mp (Nat.le_antisymm hsingle (length_pos_of_mem hmem))
  rw [hfirst, mem_singleton] at hmem
  rw [hfirst, hmem]

/-- At a sound draft the results that have come out are all that the graph exposes. -/
theorem exposes (sound : draft.Sound site.rules) {results : List (String × Operand)}
    (inputs : Forall₂ (fun parameter entry => Parameter.Declares classes parameter entry.toDeclaration) parameters
      draft.graph.interface.inputs) (hsink : draft.graph.node? draft.sink = some sink)
    (answers : Forall₂ (site.Answers draft) results sink.inputs) :
    draft.graph.Exposes classes parameters results := by
  obtain ⟨_, _, source, hsource, hsourceRole, _, hsourceSockets⟩ := sound.source
  obtain ⟨_, _, found, hfound, hsinkRole, _, hsinkSockets⟩ := sound.sink
  rw [hsink, Option.some.injEq] at hfound
  subst hfound
  have yields : Forall₂ (draft.graph.Yields draft.sink) results sink.inputs :=
    forall₂_iff_zip.mpr ⟨answers.length_eq, fun hmem =>
      ((forall₂_iff_zip.mp answers).2 hmem).yields sound hsink (of_mem_zip hmem).2⟩
  have hnames : sink.inputs.map (fun port => port.name) = results.map Prod.fst := by
    rw [← forall₂_eq_eq_eq, forall₂_map_left_iff, forall₂_map_right_iff]
    exact answers.flip.imp fun _ _ h => h.1
  have hboundary := @sound.boundary
  have hsourceId := sound.keyed hsource
  have hsinkId := sound.keyed hsink
  rw [← hsourceId, ← hsinkId] at hboundary
  rw [← hsourceId] at hsource
  rw [← hsinkId] at hsink yields
  refine ⟨inputs, ?_, ⟨source, ?_, hsourceRole, hsourceSockets⟩, ⟨sink, ?_, hsinkRole, hsinkSockets, yields⟩⟩
  · have hsockets := congrArg (map Socket.name) hsinkSockets
    rw [map_map, map_map] at hsockets
    exact hsockets.symm.trans hnames
  · refine only_boundary hsource hsink (hsourceRole ▸ rfl) ?_ hboundary
    rw [hsourceRole, hsinkRole]
    nofun
  · refine only_boundary hsink hsource (hsinkRole ▸ rfl) ?_ fun hfound hrole => (hboundary hfound hrole).symm
    rw [hsourceRole, hsinkRole]
    nofun

end Site

/-! ## Builds -/

namespace Script.Program

open Build

variable {session : Session} {program : Program} {params : List ResolvedParam}

theorem body_eq (session : Session) (program : Program) (inputs : Inputs) : program.body session inputs = (do
    let bound ← program.statementBindings session inputs
    return .named (← Build.ofExcept (results bound program.returns))) := by
  rw [statementBindings, bind_assoc]
  rfl

/-- A body that succeeds in an emptied graph. -/
theorem exposes_runBody (standard : session.IsStandard) {b c : Build} {graph : Graph}
    (hscope : b.scopes.head? = some program.name) (hget : b.store.get? program.name = some graph.clear)
    (hempty : graph.interface.outputs = [])
    (inputs : Forall₂ (fun parameter entry => Parameter.Declares session.classes parameter entry.toDeclaration)
      program.params graph.interface.inputs)
    (h : exec (runBody session params (program.body session)) b = (.ok (), c)) :
    ∃ graph' environment found, c.store.get? program.name = some graph' ∧
      (exec (program.bodyBindings session params) b).1 = .ok environment ∧ program.Results environment found ∧
      graph'.Exposes session.classes program.params found := by
  obtain ⟨draft, b', sound, _, _, hsame, hat, hexec⟩ := exists_start standard program hscope hget
  rw [runBody, hexec, ← bind_assoc] at h
  obtain ⟨returns, c₁, hreturns, h⟩ := exec_bind_eq_ok.mp h
  have hruns := (Site.logs_returns standard program params sound (follows_siteOf session b.store program)
    fun value hvalue => selects_siteOf session b.store value (mem_append_right _ hvalue)).runs
  obtain ⟨draft₁, sound₁, later₁, hat₁, undisturbed, found, rfl, held⟩ := hruns.ends sound hat hreturns
  obtain ⟨sink, hsink, hports⟩ := sound.exists_sink ((congrArg Interface.outputs hsame).trans hempty)
  have hresults :=
    Site.runs_results standard sound₁ (later₁.sink.symm ▸ undisturbed.node?_eq hsink not_false) hports held
  rw [later₁.sink] at hresults
  obtain ⟨draft₂, sound₂, later₂, hat₂, sink', hsink', answers⟩ := hresults.ends sound₁ hat₁ h
  have hinterface : draft₂.graph.interface.inputs = graph.interface.inputs :=
    later₂.inputs.trans (later₁.inputs.trans (congrArg Interface.inputs hsame))
  have exposes := Site.exposes sound₂ (hinterface ▸ inputs) (by rwa [later₂.sink, later₁.sink]) answers
  obtain ⟨given, b₁, hgiven, hbody⟩ := exec_bind_eq_ok.mp hreturns
  rw [body_eq] at hbody
  obtain ⟨environment, b₂, henvironment, hbody⟩ := exec_bind_eq_ok.mp hbody
  obtain ⟨found', b₃, hfound, hbody⟩ := exec_bind_eq_ok.mp hbody
  cases hbody
  rw [exec_ofExcept] at hfound
  refine ⟨draft₂.graph, environment, found, hat₂.graph, ?_, results_eq_ok (congrArg Prod.fst hfound), exposes⟩
  rw [bodyBindings, hexec, exec_bind_ok hgiven, henvironment]

theorem exposes_finish (standard : session.IsStandard) {b c : Build} {graph : Graph}
    (hget : b.store.get? program.name = some graph.clear) (hempty : graph.interface.outputs = [])
    (inputs : Forall₂ (fun parameter entry => Parameter.Declares session.classes parameter entry.toDeclaration)
      program.params graph.interface.inputs)
    (h : exec (finish session program params) b = (.ok (), c)) :
    ∃ graph' environment found, c.store.get? program.name = some graph' ∧
      (exec (inScope program.name (program.bodyBindings session params)) b).1 = .ok environment ∧
      program.Results environment found ∧ graph'.Exposes session.classes program.params found := by
  obtain ⟨_, c₁, hscope, _⟩ := exec_bind_eq_ok.mp h
  obtain ⟨hbody, _⟩ := Prod.mk.inj ((exec_inScope _ _ _).symm.trans hscope)
  obtain ⟨left, environment, found, hleft, hbindings, results, exposes⟩ :=
    @exposes_runBody session program params standard { b with scopes := program.name :: b.scopes } _ graph rfl hget
      hempty inputs (Prod.ext hbody rfl)
  obtain ⟨_, graph', hget', exposes⟩ := exec_finish_induction hleft exposes fun id position exposes =>
    exposes.move id position
  rw [h] at hget'
  exact ⟨graph', environment, found, hget', hbindings, results, exposes⟩

/-- The graph of a program that builds exposes what the program declares. -/
theorem build_exposes (s : Supply) {program : Program} {b : Build}
    (h : (exec (program.build (Session.standard s)) b).1 = .ok ()) : ∃ graph environment found,
      (exec (program.build (Session.standard s)) b).2.store.get? program.name = some graph ∧
      (exec (program.bindings (Session.standard s)) b).1 = .ok environment ∧ program.Results environment found ∧
      graph.Exposes (Session.standard s).classes program.params found := by
  generalize hrun : exec (program.build (Session.standard s)) b = run at h ⊢
  obtain ⟨result, c⟩ := run
  cases h
  cases hparams : program.inputs (Session.standard s) with
  | error e =>
    rw [exec_build_error hparams] at hrun
    cases hrun
  | ok params =>
    obtain ⟨inputs, s', hprepare, hinputs⟩ := exec_prepare b program.name params
    rw [build_eq, hparams, exec_bind_ok (exec_ofExcept (.ok params) b), exec_bind_ok hprepare] at hrun
    have hdeclared : Forall₂ (fun parameter entry =>
        Parameter.Declares (Session.standard s).classes parameter entry.toDeclaration) program.params inputs := by
      rw [← forall₂_map_right_iff, map_declaration_of_reconcile hinputs]
      exact (declares_inputs hparams).1
    have hexposes := @exposes_finish _ program params (Session.isStandard_standard s)
      { b with store := b.store.set program.name (b.prepared program.name inputs), supply := s' } c
      { b.store.getD program.name with interface := { inputs } }
      ((OrderedMap.get?_insert _ _ _ _).trans (if_pos rfl)) rfl hdeclared hrun
    rwa [bindings, hparams, exec_bind_ok (exec_ofExcept (.ok params) b), exec_bind_ok hprepare]

/-- A program that returns a call, a literal and a parameter under one key. -/
def scaling : Program where
  name := "Scaling"
  params := [⟨"base_value", "Float", some (.literal (.int 2))⟩, ⟨"factor", "Float", none⟩]
  statements := [.call "scaled" "math"
    [("operation", .literal (.text "MULTIPLY")), ("value", .list [.name "base_value", .name "factor"])]]
  returns := [("Result", .name "scaled"), ("Result", .literal (.bool true)), ("Result", .name "factor")]

theorem build_exposes_scaling :
    let b : Build := { store := .empty, supply := {} }
    (exec (scaling.build (Session.standard {})) b).1 = .ok () ∧ ∃ graph environment found,
      (exec (scaling.build (Session.standard {})) b).2.store.get? "Scaling" = some graph ∧
      (exec (scaling.bindings (Session.standard {})) b).1 = .ok environment ∧ scaling.Results environment found ∧
      graph.Exposes (Session.standard {}).classes scaling.params found := by
  intro b
  have hok : (exec (scaling.build (Session.standard {})) b).1 = .ok () := by decide +kernel
  exact ⟨hok, build_exposes {} hok⟩

end Script.Program

end NodeScript
