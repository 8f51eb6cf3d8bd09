import NodeScript.Proofs.Build.Programs
import NodeScript.Proofs.Graph.Histories

/-!
# Bodies as constructions

A build starts from an emptied graph with its two boundary nodes, runs the body of a program, and
adds one result after another to the interface and to the sink. From the boundary nodes on all of
this is a construction.
-/

namespace NodeScript

open Build Draft List OrderedMap

/-! ## The first draft -/

/-- The draft of a graph that has its boundary nodes and nothing else. -/
def firstDraft (graph : Graph) (source sink : Node) (next : Nat) : Draft where
  graph := (graph.withNode source).withNode sink
  source := source.id
  sink := sink.id
  done := [source.id]
  info := fun _ => ⟨bareGroupSpec, [], []⟩
  next := next

/-- The two boundary nodes of an otherwise empty graph. -/
structure Framed (graph : Graph) (source sink : Node) (next : Nat) : Prop where
  nodes : graph.nodes = ∅
  links : graph.links = ∅
  tended : ((graph.withNode source).withNode sink).Tended next
  sourceRole : source.role = .groupInput
  sinkRole : sink.role = .groupOutput
  inputs : source.inputs = []
  outputs : sink.outputs = []

theorem Framed.sound {graph : Graph} {source sink : Node} {next : Nat} (framed : Framed graph source sink next)
    (rules : Rules) (hne : source.id ≠ sink.id) : (firstDraft graph source sink next).Sound rules := by
  have hnode : ∀ id, ((graph.withNode source).withNode sink).node? id =
      if id = sink.id then some sink else if id = source.id then some source else none := by
    intro id
    rw [Graph.node?_withNode, Graph.node?_withNode, Graph.node?, framed.nodes]
    rfl
  have hcases : ∀ {id : NodeId} {node : Node}, ((graph.withNode source).withNode sink).node? id = some node →
      (id = sink.id ∧ node = sink) ∨ (id = source.id ∧ node = source) := by
    intro id node h
    rw [hnode] at h
    split at h
    next heq => exact Or.inl ⟨heq, (Option.some.inj h).symm⟩
    next =>
      split at h
      next heq => exact Or.inr ⟨heq, (Option.some.inj h).symm⟩
      next => cases h
  have hsource : ((graph.withNode source).withNode sink).node? source.id = some source := by
    rw [hnode, if_neg hne, if_pos rfl]
  have hsink : ((graph.withNode source).withNode sink).node? sink.id = some sink := by
    rw [hnode, if_pos rfl]
  have hlinks : ((graph.withNode source).withNode sink).links = ∅ := framed.links
  have hunlinked {link : Link} : link ∉ ((graph.withNode source).withNode sink).links.values := by
    rw [hlinks]
    exact not_mem_nil
  have hboundary : ∀ {id : NodeId} {node : Node}, ((graph.withNode source).withNode sink).node? id = some node →
      node.role.isBoundary = true := by
    intro id node h
    rcases hcases h with ⟨_, rfl⟩ | ⟨_, rfl⟩
    · rw [framed.sinkRole]
      rfl
    · rw [framed.sourceRole]
      rfl
  refine ⟨⟨?keyed, ?codes, ?distinct, ?owner⟩, framed.tended.linkCodes, ?shaped, nodup_singleton _, ?present,
    fun _ h => absurd h hunlinked, fun _ h => absurd h hunlinked, ?single, ?complete, ?source, ?sink, ?boundary⟩
  case keyed =>
    intro id node h
    rcases hcases h with ⟨rfl, rfl⟩ | ⟨rfl, rfl⟩ <;> rfl
  case codes =>
    intro id node h
    exact ⟨framed.tended.codes h, fun port hport => framed.tended.portCodes _ (Graph.mem_portIds h hport)⟩
  case distinct =>
    intro id node h
    exact (nodup_flatMap.mp framed.tended.distinct).1 node (mem_values_iff.mpr ⟨id, h⟩)
  case owner =>
    intro id id' node node' h h' portId hport hport'
    obtain ⟨port, hmem, rfl⟩ := mem_map.mp hport
    obtain ⟨port', hmem', heq⟩ := mem_map.mp hport'
    exact (Graph.port_unique framed.tended.distinct h h' hmem hmem' heq.symm).1
  case shaped =>
    intro id node h hinner
    rw [hboundary h] at hinner
    cases hinner
  case present =>
    intro id hid
    rw [mem_singleton.mp hid]
    exact ⟨source, hsource⟩
  case single =>
    intro id node port _ _ _
    change (((graph.withNode source).withNode sink).linksTo port.id).length ≤ 1
    rw [Graph.linksTo, hlinks]
    exact Nat.zero_le 1
  case complete => exact fun id hid => Or.inl (mem_singleton.mp hid)
  case source =>
    exact ⟨mem_singleton_self _, rfl, source, hsource, framed.sourceRole, framed.inputs,
      (framed.tended.shows hsource).inputs framed.sourceRole⟩
  case sink =>
    refine ⟨fun h => hne (mem_singleton.mp h).symm, rfl, sink, hsink, framed.sinkRole, framed.outputs,
      (framed.tended.shows hsink).outputs framed.sinkRole⟩
  case boundary =>
    intro id node h _
    rcases hcases h with ⟨rfl, _⟩ | ⟨rfl, _⟩
    · exact Or.inr rfl
    · exact Or.inl rfl

namespace Site

variable {site : Site} {draft : Draft} {p : Expr → Prop} {inputs : Inputs} {source : Expr} {node sink : Node}
  {port : Port} {selected : String → Prop}

/-! ## Inputs -/

/-- All values of the inputs satisfy a condition. -/
def InputsOver (p : Expr → Prop) (inputs : Inputs) : Prop :=
  ∀ name input, inputs.get? name = some input →
    match input with
    | .value source => p source
    | .group group => ∀ source ∈ group.fields.values, p source

theorem inputsOver_insert (held : InputsOver p inputs) {input : Input}
    (h : match input with
      | .value source => p source
      | .group group => ∀ source ∈ group.fields.values, p source) (name : String) :
    InputsOver p (OrderedMap.insert inputs name input) := by
  intro other found hget
  rw [get?_insert] at hget
  split at hget
  · cases hget
    exact h
  · exact held other found hget

theorem inputsOver_addField (held : InputsOver p inputs) (h : p source) (group field : String) :
    InputsOver p (Inputs.addField inputs group field source) := by
  have hinsert : ∀ (fields : OrderedMap String Expr), (∀ s ∈ fields.values, p s) →
      ∀ s ∈ (fields.insert field source).values, p s := by
    intro fields hfields s hs
    obtain ⟨name, hget⟩ := mem_values_iff.mp hs
    rw [get?_insert] at hget
    split at hget
    · cases hget
      exact h
    · exact hfields s (mem_values_iff.mpr ⟨name, hget⟩)
  unfold Inputs.addField
  cases hget : inputs.get? group with
  | none => exact inputsOver_insert held (hinsert ∅ fun s hs => by cases hs) group
  | some input =>
    cases input with
    | value _ => exact held
    | group value => exact inputsOver_insert held (hinsert value.fields (held group _ hget)) group

/-- The source's outputs can be seen everywhere. -/
theorem valid_source (sound : draft.Sound site.rules) (hnode : draft.graph.node? draft.source = some node)
    (hport : port ∈ node.outputs) : site.Valid draft [] ⟨site.name, draft.source, port.id, port.type⟩ := by
  obtain ⟨hdone, hshows, source, hsource, hrole, _, hsockets⟩ := sound.source
  rw [hsource, Option.some.injEq] at hnode
  subst hnode
  refine ⟨rfl, hdone, ⟨source, port, hsource, rfl, rfl, hport, ?_, ?_⟩, ?_⟩
  · have hmem : port.toSocket ∈ draft.graph.interface.inputs.map fun entry => entry.socket .output :=
      hsockets ▸ mem_map_of_mem hport
    obtain ⟨entry, _, hentry⟩ := mem_map.mp hmem
    rw [← hentry]
    rfl
  · rw [hrole]
    trivial
  · exact hshows ▸ suffix_rfl

theorem runs_bodyInputs (sound : draft.Sound site.rules) (params : List ResolvedParam) (position : Nat)
    (held : InputsOver (site.Valid draft []) inputs) :
    site.Runs (bodyInputs draft.source params position inputs) draft fun inputs' draft' =>
      draft' = draft ∧ InputsOver (site.Valid draft []) inputs' := by
  induction params generalizing position inputs with
  | nil => exact Runs.pure ⟨rfl, held⟩
  | cons param rest ih =>
    unfold bodyInputs
    obtain ⟨_, _, source, hsource, _⟩ := sound.source
    refine Runs.bindRead sound (runs_outputAt sound hsource position) ?_
    rintro value ⟨port, hport, rfl⟩
    have valid := valid_source sound hsource (mem_of_getElem? hport)
    refine ih (position + 1) ?_
    cases param.group with
    | none => exact inputsOver_insert held valid param.key
    | some group => exact inputsOver_addField held valid group param.key

/-! ## The body of a program -/

open Script

theorem environment_over (held : InputsOver p inputs) {params : List Parameter} {bound found : Environment}
    (hbound : bound.Over selected p) (h : Program.environment inputs params bound = .ok found) :
    found.Over selected p := by
  induction params generalizing bound with
  | nil =>
    cases h
    exact hbound
  | cons parameter rest ih =>
    rw [Program.environment, Except.bind_eq_ok] at h
    obtain ⟨source, hsource, h⟩ := h
    refine ih (hbound.insert (fun other hother => ?_) parameter.name) h
    rw [show other = source from hother]
    unfold Inputs.value at hsource
    split at hsource
    next found hget =>
      cases hsource
      exact held parameter.name _ hget
    next => cases hsource

theorem results_over {environment : Environment}
    (held : environment.Over selected p) {returns : List (String × Value)}
    (selects : ∀ value ∈ returns.map Prod.snd, Environment.Selects selected value) {found : List (String × Operand)}
    (h : Program.results environment returns = .ok found) : ∀ result ∈ found, result.2.Over p := by
  intro result hresult
  obtain ⟨⟨key, value⟩, hvalue, _, hoperand⟩ := forall₂_exists_left (Program.results_eq_ok h) hresult
  exact Environment.operand_over held (selects value (mem_map_of_mem hvalue)) hoperand

theorem logs_body (standard : site.session.IsStandard) (program : Program) (sound : draft.Sound site.rules)
    (follows : site.Follows [] program.statements)
    (selects : ∀ value ∈ program.returns.map Prod.snd, Environment.Selects site.rules.selected value)
    (held : InputsOver (site.Valid draft []) inputs) :
    site.Logs draft (program.body site.session inputs)
      (fun b => after (Build.ofExcept (Program.environment inputs program.params ∅)) b fun bound b =>
        Statement.openingsIn site.session bound program.statements b) draft fun returns draft' =>
        Undisturbed draft draft' ∧
          ∃ values, returns = .named values ∧ ∀ value ∈ values, value.2.Over (site.Valid draft' []) := by
  unfold Program.body
  refine Logs.bindExcept sound fun bound hbound => ?_
  have hover : bound.Over site.rules.selected (site.Valid draft []) :=
    environment_over held (fun _ _ h => by cases h) hbound
  refine (logs_buildAll standard program.statements sound follows hover).bindRuns sound (.refl draft) ?_
  rintro bound' draft' sound' later ⟨undisturbed, held'⟩
  refine Runs.bindExcept sound' fun values hvalues => ?_
  exact Runs.pure ⟨undisturbed, values, rfl, results_over held' selects hvalues⟩

/-! ## Results -/

/-- A further result gives the sink one more port and changes nothing else. -/
theorem addOutput_eq {rules : Rules} (sound : draft.Sound rules) (entry : Entry) (s : Supply) :
    draft.graph.addOutput entry s = (draft.graph.withOutput draft.sink entry
      { entry.socket .input with id := (Supply.fresh s).1 }, (Supply.fresh s).2) := by
  obtain ⟨_, _, source, hsource, hsourceRole, _, hsourceSockets⟩ := sound.source
  obtain ⟨_, _, sink, hsink, hsinkRole, _, hsinkSockets⟩ := sound.sink
  let new : Interface := { draft.graph.interface with outputs := draft.graph.interface.outputs ++ [entry] }
  have hlength : sink.inputs.length = draft.graph.interface.outputs.length := by
    simpa using congrArg length hsinkSockets
  have hboundary : ∀ {id : NodeId} {node : Node}, draft.graph.node? id = some node → id ≠ draft.sink →
      Graph.Shows new node := by
    intro id node hnode hne
    by_cases hrole : node.role.isBoundary = true
    · rcases sound.boundary hnode hrole with rfl | rfl
      · rw [hsource, Option.some.injEq] at hnode
        subst hnode
        exact ⟨fun _ => hsourceSockets, fun h => by rw [hsourceRole] at h; cases h⟩
      · exact absurd rfl hne
    · exact Graph.shows_of_inner (by simpa using hrole)
  have hmap := OrderedMap.mapState_single (f := Boundary.alignNode new) hsink
    (fun id node hnode hne s => Boundary.alignNode_of_shows (hboundary hnode hne) s) s
  have halign : Boundary.alignNode new sink s = ({ sink with
      inputs := sink.inputs ++ [{ entry.socket .input with id := (Supply.fresh s).1 }] }, (Supply.fresh s).2) := by
    rw [Boundary.alignNode_eq, hsinkRole]
    dsimp only [new]
    rw [Boundary.align_append hsinkSockets [entry] s]
    rfl
  have hsurplus : draft.graph.nodes.values.flatMap (Boundary.surplus new) = [] := by
    rw [flatMap_eq_nil_iff]
    intro node hmem
    obtain ⟨id, hnode⟩ := mem_values_iff.mp hmem
    by_cases hne : id = draft.sink
    · subst hne
      have heq : node = sink := Option.some.inj (hnode.symm.trans hsink)
      rw [heq, Boundary.surplus, hsinkRole]
      simp [new, hlength]
    · exact Boundary.surplus_of_shows (hboundary hnode hne)
  change (({ draft.graph with
      interface := new, nodes := (draft.graph.nodes.mapState (Boundary.alignNode new) s).1 } :
    Graph).dropLinks (draft.graph.nodes.values.flatMap (Boundary.surplus new)),
    (draft.graph.nodes.mapState (Boundary.alignNode new) s).2) = _
  rw [hsurplus, Graph.dropLinks_nil, hmap, halign]
  refine Prod.ext ?_ rfl
  have hupdate := Graph.updateNode_eq hsink fun node =>
    { node with inputs := node.inputs ++ [{ entry.socket .input with id := (Supply.fresh s).1 }] }
  simp only [Graph.updateNode, Graph.mk.injEq, true_and, and_true] at hupdate
  simp only [Graph.withOutput, Graph.updateNode, hupdate]
  rfl

/-- A value that can be seen outside all zones is linked to a port of the sink. -/
theorem runs_linkSink (sound : draft.Sound site.rules) (valid : site.Valid draft [] source)
    (hsink : draft.graph.node? draft.sink = some sink) (hport : port ∈ sink.inputs) :
    site.Runs (link source draft.sink port.id) draft fun _ draft' => draft'.graph.node? draft.sink = some sink ∧
      ∃ id, ⟨id, source.node, source.port, draft.sink, port.id⟩ ∈ draft'.graph.links.values := by
  obtain ⟨hopened, hreads, found, hfound, hrole, _, hsockets⟩ := sound.sink
  rw [hsink, Option.some.injEq] at hfound
  subst hfound
  have henabled : port.enabled = true := by
    have hmem : port.toSocket ∈ draft.graph.interface.outputs.map fun entry => entry.socket .input :=
      hsockets ▸ mem_map_of_mem hport
    obtain ⟨entry, _, hentry⟩ := mem_map.mp hmem
    rw [← hentry]
    rfl
  refine Runs.ofWrite sound fun b hb => ?_
  rw [exec_link hb.scope hb.current valid.graph]
  cases hcheck : draft.graph.checkLink source.node source.port draft.sink port.id with
  | error e => exact Or.inl ⟨_, rfl⟩
  | ok done =>
    obtain ⟨start, output, hstart, hout, _, hreferable⟩ := valid.port
    have hle : draft.next ≤ (Supply.fresh b.supply).1.code := hb.next ▸ Supply.le_code_fresh b.supply
    have step : Draft.Step site.rules draft (draft.joined
        ⟨(Supply.fresh b.supply).1, source.node, source.port, draft.sink, port.id⟩
        (Supply.fresh b.supply).2.next) := by
      refine .link hle (Supply.code_fresh_lt b.supply) hcheck hopened ⟨valid.ready, ?_, ?_, ?_⟩
      · exact ⟨start, output, hstart, hout, hreferable⟩
      · refine ⟨sink, port, hsink, hport, rfl, henabled, fun hinner => ?_⟩
        rw [hrole] at hinner
        cases hinner
      · rw [hreads]
        exact valid.scope
    refine Or.inr ⟨_, (Supply.fresh b.supply).2, (), .single step, rfl, rfl, hsink, (Supply.fresh b.supply).1, ?_⟩
    exact mem_values_iff.mpr ⟨_, get?_insert_self⟩

theorem runs_operandExpr (sound : draft.Sound site.rules) (standard : site.session.IsStandard) {operand : Operand}
    (held : operand.Over (site.Valid draft [])) :
    site.Runs (operandExpr site.session operand) draft fun source draft' =>
      (site.Valid draft' [] source ∧ Undisturbed draft draft') ∧ operand.Denotes draft'.graph source := by
  cases operand with
  | expr source => exact Runs.pure ⟨⟨held, .refl draft⟩, .expr source⟩
  | literal value => exact runs_constant sound standard (Nat.zero_le _) value

/-- A result has come out at a port of the sink. -/
def Answers (site : Site) (draft : Draft) (result : String × Operand) (port : Port) : Prop :=
  port.name = result.1 ∧ ∃ source id, site.Valid draft [] source ∧ result.2.Denotes draft.graph source ∧
    port.type = source.type ∧ ⟨id, source.node, source.port, draft.sink, port.id⟩ ∈ draft.graph.links.values

theorem Answers.later {result : String × Operand} (h : site.Answers draft result port) {draft' : Draft}
    (later : Later draft draft') : site.Answers draft' result port := by
  obtain ⟨hname, source, id, valid, denotes, htype, hlink⟩ := h
  refine ⟨hname, source, id, valid.later later, denotes.later valid.ready later, htype, ?_⟩
  rw [later.sink]
  exact later.links.subset hlink

theorem runs_mint (declaration : Declaration) :
    site.Runs (draw declaration.mint) draft fun entry draft' =>
      entry.toDeclaration = declaration ∧ draft'.graph = draft.graph := by
  intro b hb
  refine ⟨{ draft with next := (declaration.mint b.supply).2.next }, .single (.skip ?_), ?_, ?_, ?_⟩
  · exact hb.next ▸ Supply.climbs_declaration declaration b.supply
  · exact ⟨hb.scope, hb.graph, rfl, hb.serves⟩
  · exact ⟨rfl, fun _ _ => rfl, rfl⟩
  · rintro entry h
    cases h
    exact ⟨rfl, rfl⟩

/-- A further result in front of another step. -/
theorem runs_addOutput (sound : draft.Sound site.rules) {entry : Entry}
    (plain : entry.toDeclaration = { name := entry.name, type := entry.type }) {α : Type} {rest : BuildM α}
    {post : α → Draft → Prop}
    (hrest : ∀ draft' node port, draft'.Sound site.rules → Later draft draft' →
      draft.graph.node? draft.sink = some node → port.toSocket = entry.socket .input →
      draft'.graph.node? draft.sink = some
    { node with inputs := node.inputs ++ [port] } → site.Runs rest draft' post) :
    site.Runs (do
      let graph ← Build.graph
      putGraph (← draw (graph.addOutput entry))
      rest) draft post := by
  refine Runs.ofExec sound fun b hb => Or.inr ?_
  have step : Draft.Step site.rules draft
      { draft with
        graph := draft.graph.withOutput draft.sink entry { entry.socket .input with id := (Supply.fresh b.supply).1 }
        next := (Supply.fresh b.supply).2.next } :=
    .output (hb.next ▸ Supply.le_code_fresh b.supply) (Supply.code_fresh_lt b.supply) plain rfl
  obtain ⟨_, _, node, hnode, _⟩ := sound.sink
  refine ⟨_, (Supply.fresh b.supply).2, rest, .single step, rfl, ?_,
    hrest _ node { entry.socket .input with id := (Supply.fresh b.supply).1 }
      (step.sound sound) (step.later sound) hnode
      rfl (by simp [hnode])⟩
  rw [exec_bind_ok (exec_graph hb.current), exec_bind_ok (exec_draw _ b), addOutput_eq sound,
    exec_bind_ok (exec_putGraph ((current?_withSupply b _).trans hb.current) _)]

theorem runs_inputAt {id : NodeId} (hnode : draft.graph.node? id = some node) (position : Nat) :
    site.Runs (inputAt id position) draft fun portId draft' => draft' = draft ∧
      ∃ port, node.inputs[position]? = some port ∧ port.id = portId := by
  refine Runs.ofRead fun b hb => ?_
  unfold inputAt
  rw [exec_bind_ok (exec_node_of hb.current hnode)]
  cases hport : node.inputs[position]? with
  | none => exact ⟨rfl, fun a ha => by cases ha⟩
  | some port => exact ⟨rfl, fun a ha => by cases ha; exact ⟨rfl, port, rfl, rfl⟩⟩

theorem runs_bindOutputs (standard : site.session.IsStandard) {values done : List (String × Operand)}
    (sound : draft.Sound site.rules) (hsink : draft.graph.node? draft.sink = some sink)
    (answered : Forall₂ (site.Answers draft) done sink.inputs)
    (held : ∀ value ∈ values, value.2.Over (site.Valid draft [])) :
    site.Runs (bindOutputs site.session draft.sink (values.map fun entry => (some entry.1, entry.2)) done.length)
      draft fun _ draft' => ∃ sink', draft'.graph.node? draft.sink = some sink' ∧
        Forall₂ (site.Answers draft') (done ++ values) sink'.inputs := by
  induction values generalizing done draft sink with
  | nil => exact Runs.pure ⟨sink, hsink, (append_nil done).symm ▸ answered⟩
  | cons first rest ih =>
    obtain ⟨name, value⟩ := first
    have hlater : ∀ {draft' : Draft}, Later draft draft' →
        ∀ value ∈ rest, value.2.Over (site.Valid draft' []) := by
      intro draft' later other hother
      have hover := held other (.tail _ hother)
      cases hoperand : other.2 with
      | literal _ => trivial
      | expr source =>
        rw [hoperand] at hover
        exact Valid.later hover later
    rw [map_cons, bindOutputs]
    refine Runs.bind sound (runs_operandExpr sound standard (held (name, value) mem_cons_self)) ?_
    rintro source draft₁ sound₁ later₁ ⟨⟨valid₁, undisturbed⟩, denotes₁⟩
    refine Runs.bind sound₁ (runs_mint _) ?_
    rintro entry draft₂ sound₂ later₂ ⟨hentry, hgraph⟩
    have hsink₂ : draft₂.graph.node? draft₂.sink = some sink := by
      rw [hgraph, later₂.sink, later₁.sink]
      exact undisturbed.node?_eq hsink not_false
    refine runs_addOutput sound₂ (by rw [hentry]) ?_
    intro draft₃ node port sound₃ later₃ hnode hport hsink₃
    rw [hsink₂, Option.some.injEq] at hnode
    subst hnode
    have hsame : draft₃.sink = draft.sink := later₃.sink.trans (later₂.sink.trans later₁.sink)
    rw [later₂.sink, later₁.sink] at hsink₃
    have later := (later₁.trans later₂).trans later₃
    refine Runs.bindRead sound₃ (runs_inputAt hsink₃ done.length) ?_
    rintro portId ⟨found, hfound, rfl⟩
    -- The results before have one port each, so the new port is the one at the position.
    rw [answered.length_eq, getElem?_concat_length, Option.some.injEq] at hfound
    subst hfound
    have valid₃ := (valid₁.later later₂).later later₃
    have hlink := runs_linkSink sound₃ valid₃ (hsame.symm ▸ hsink₃) (mem_append_right _ (mem_singleton_self port))
    rw [hsame] at hlink
    refine Runs.bind sound₃ hlink ?_
    rintro _ draft₄ sound₄ later₄ ⟨hsink₄, id, hid⟩
    have answers : site.Answers draft₄ (name, value) port := by
      refine ⟨?_, source, id, valid₃.later later₄, ?_, ?_, ?_⟩
      · rw [hport]
        exact congrArg Declaration.name hentry
      · exact ((denotes₁.later valid₁.ready later₂).later (valid₁.later later₂).ready later₃).later
          valid₃.ready later₄
      · rw [hport]
        exact congrArg Declaration.type hentry
      · rwa [later₄.sink, hsame]
    have hdone : Forall₂ (site.Answers draft₄) (done ++ [(name, value)]) (sink.inputs ++ [port]) :=
      rel_append (answered.imp fun _ _ h => h.later (later.trans later₄)) (.cons answers .nil)
    have hsame₄ : draft₄.sink = draft.sink := later₄.sink.trans hsame
    have hnext := ih sound₄ (hsame₄.symm ▸ hsink₄) hdone (hlater (later.trans later₄))
    rw [hsame₄, length_append, append_assoc] at hnext
    exact hnext

/-- The body of a program, after the boundary nodes are there. -/
theorem logs_returns (standard : site.session.IsStandard) (program : Program) (params : List ResolvedParam)
    (sound : draft.Sound site.rules) (follows : site.Follows [] program.statements)
    (selects : ∀ value ∈ program.returns.map Prod.snd, Environment.Selects site.rules.selected value) :
    site.Logs draft (do
      let inputs ← bodyInputs draft.source params 0 ∅
      program.body site.session inputs)
      (fun b => after (bodyInputs draft.source params 0 ∅) b fun inputs b =>
        after (Build.ofExcept (Program.environment inputs program.params ∅)) b fun bound b =>
          Statement.openingsIn site.session bound program.statements b) draft fun returns draft' =>
        Undisturbed draft draft' ∧
          ∃ values, returns = .named values ∧ ∀ value ∈ values, value.2.Over (site.Valid draft' []) := by
  refine (runs_bodyInputs sound params 0 fun _ _ h => by cases h).bindLogs sound ?_
  rintro inputs _ _ _ ⟨rfl, held⟩
  exact logs_body standard program sound follows selects held

/-- The results of a body in a graph that has none yet. -/
theorem runs_results (standard : site.session.IsStandard) (sound : draft.Sound site.rules)
    (hsink : draft.graph.node? draft.sink = some sink) (hempty : sink.inputs = []) {values : List (String × Operand)}
    (held : ∀ value ∈ values, value.2.Over (site.Valid draft [])) :
    site.Runs (do
      let outputs ← collect site.session (.named values)
      bindOutputs site.session draft.sink outputs 0) draft fun _ draft' =>
        ∃ sink', draft'.graph.node? draft.sink = some sink' ∧
          Forall₂ (site.Answers draft') values sink'.inputs := by
  have answered : Forall₂ (site.Answers draft) [] sink.inputs := hempty ▸ .nil
  exact runs_bindOutputs standard sound hsink answered held

end Site

/-! ## Boundary nodes -/

namespace Build

variable {session : Session} {b : Build} {graph : Graph}

/-- A new node of any kind in a tended graph. Alignment leaves the inner side of a boundary node
empty. -/
theorem exec_addNode_tended {kind : String} {found : NodeKind} (h : b.current? = some graph)
    (tended : graph.Tended b.supply.next) (hkind : session.catalog.get? kind = some found) :
    ∃ node s, exec (addNode session kind) b = (.ok node.id, (b.withSupply s).put (graph.withNode node)) ∧
      (graph.withNode node).Tended s.next ∧ graph.node? node.id = none ∧ node.role = found.role ∧
      (node.role = .groupInput → found.inputs = [] → node.inputs = []) ∧
      (node.role = .groupOutput → found.outputs = [] → node.outputs = []) := by
  have hdraws := Node.draws_ofKind found b.supply
  have hadd := @Graph.Tended.addNode_eq graph _ (Node.ofKind found b.supply).2 (Node.ofKind found b.supply).1 tended
    fun id hid => (hdraws.range id hid).1
  obtain ⟨hrole, _, hid⟩ := Boundary.role_alignNode graph.interface (Node.ofKind found b.supply).1
    (Node.ofKind found b.supply).2
  refine ⟨(Boundary.alignNode graph.interface (Node.ofKind found b.supply).1 (Node.ofKind found b.supply).2).1,
    (Boundary.alignNode graph.interface (Node.ofKind found b.supply).1 (Node.ofKind found b.supply).2).2,
    ?exec, ?tended, ?new, hrole, ?inputs, ?outputs⟩
  case exec =>
    rw [exec_addNode_of h hkind, hadd, hid]
  case tended =>
    have htended := (tended.addNode found).1
    rwa [hadd] at htended
  case new => exact tended.node?_eq_none (hid ▸ (hdraws.range _ mem_cons_self).1)
  case inputs =>
    intro hinput hnone
    rw [hrole] at hinput
    rw [Boundary.alignNode_eq, hinput]
    change map _ ((found.inputs.mapM fun p => p.toSocket.mint : StateM Supply (List Port)) _).1 = []
    rw [hnone]
    rfl
  case outputs =>
    intro houtput hnone
    rw [hrole] at houtput
    rw [Boundary.alignNode_eq, houtput]
    change map _ ((found.outputs.mapM fun p => p.toSocket.mint : StateM Supply (List Port)) _).1 = []
    rw [hnone]
    rfl

end Build

end NodeScript
