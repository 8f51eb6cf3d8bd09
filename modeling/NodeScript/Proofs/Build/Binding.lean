import NodeScript.Proofs.Build.Frames

/-!
# Binding values to inputs

Values are outputs of completed nodes that can be seen where they are used. Binding one to an input
of an open node adds a link, a default, or a constant node with a link.
-/

namespace NodeScript

open Build Draft List

variable {port : Port} {value : Literal}

/-- The operand is a literal, or its value satisfies a condition. -/
def Operand.Over (p : Expr → Prop) : Operand → Prop
  | .expr source => p source
  | .literal _ => True

theorem Operand.Over.mono {p q : Expr → Prop} {operand : Operand} (h : operand.Over p)
    (imp : ∀ source, p source → q source) : operand.Over q := by
  cases operand with
  | expr source => exact imp source h
  | literal value => trivial

/-- All values in the argument satisfy a condition. -/
inductive Argument.Over (p : Expr → Prop) : Argument → Prop
  | expr {source : Expr} (h : p source) : Over p (.expr source)
  | literal (value : Literal) : Over p (.literal value)
  | choice (chosen : String) : Over p (.choice chosen)
  | list {items : List Argument} (h : ∀ item ∈ items, Over p item) : Over p (.list items)
  | group {group : GroupValue} (h : ∀ source ∈ group.fields.values, p source) : Over p (.group group)

theorem Argument.Over.mono {p q : Expr → Prop} {argument : Argument} (h : argument.Over p)
    (imp : ∀ source, p source → q source) : argument.Over q := by
  induction h with
  | expr h => exact .expr (imp _ h)
  | literal value => exact .literal value
  | choice chosen => exact .choice chosen
  | list _ ih => exact .list ih
  | group h => exact .group fun source hsource => imp _ (h source hsource)

/-! ## Constant nodes -/

/-- The node is the constant node of a literal, which it shows at its only output. -/
def Node.Carries (node : Node) (value : Literal) (output : Port) : Prop :=
  ∃ carrier, value.constantNode = .ok carrier ∧ node.kind = carrier.kind ∧
    node.inputs = [] ∧ node.outputs = [output] ∧
    match carrier.place with
    | .property name held => node.property? name = some held
    | .outputDefault => output.default = some value

/-- What an operand stands for: a node output itself, and a literal the output of a node that
carries it. -/
inductive Operand.Denotes (graph : Graph) : Operand → Expr → Prop
  | expr (source : Expr) : Denotes graph (.expr source) source
  | literal {value : Literal} {node : Node} {output : Port} (name : String) (found : graph.node? node.id = some node)
      (carries : node.Carries value output) :
      Denotes graph (.literal value) ⟨name, node.id, output.id, output.type⟩

theorem Operand.Denotes.later {draft draft' : Draft} {operand : Operand} {source : Expr}
    (h : operand.Denotes draft.graph source) (ready : source.node ∈ draft.done) (later : Later draft draft') :
    operand.Denotes draft'.graph source := by
  cases h with
  | expr source => exact .expr source
  | literal name found carries => exact .literal name ((later.kept _ ready).trans found) carries

/-! ## What inputs get -/

/-- What an input of a node has from the value that it was given: the only link, from the node
output that the value stands for, or a default if the value is a literal that its type holds.
Without a value it has neither. -/
inductive Graph.Gets (graph : Graph) (id : NodeId) (port : Port) : Option Operand → Prop
  | linked {operand : Operand} {source : Expr} (link : LinkId) (denotes : operand.Denotes graph source)
      (misfit : ∀ value, operand = .literal value → port.type.coerce? value = none)
      (only : graph.linksTo port.id = [⟨link, source.node, source.port, id, port.id⟩]) :
      Gets graph id port (some operand)
  | held {value held : Literal} (holds : port.type.coerce? value = some held) (default : port.default = some held)
      (free : graph.linksTo port.id = []) : Gets graph id port (some (.literal value))
  | nothing (default : port.default = none) (free : graph.linksTo port.id = []) : Gets graph id port none

namespace Draft

variable {rules : Rules} {draft draft' : Draft} {id : NodeId} {portId : PortId} {operand : Operand}

theorem gets_later {value : Option Operand} (h : draft.graph.Gets id port value)
    (sound : draft.Sound rules) (later : Later draft draft')
    (links : draft'.graph.linksTo port.id = draft.graph.linksTo port.id) : draft'.graph.Gets id port value := by
  cases h with
  | linked link denotes misfit only =>
    refine .linked link (denotes.later ?_ later) misfit (links.trans only)
    exact (sound.linked _ (mem_filter.mp (only ▸ mem_singleton_self _)).1).ready
  | held holds default free => exact .held holds default (links.trans free)
  | nothing default free => exact .nothing default (links.trans free)

/-- The value has been given to the input. -/
def Fed (draft : Draft) (id : NodeId) (portId : PortId) (operand : Operand) : Prop :=
  ∃ node, draft.graph.node? id = some node ∧ ∃ port ∈ node.inputs, port.id = portId ∧
    draft.graph.Gets id port (some operand)

theorem Fed.frame {touched : NodeId → Prop} {ports : PortId → Prop} (h : draft.Fed id portId operand)
    (sound : draft.Sound rules) (frame : Frame touched ports draft draft') (hport : ¬ ports portId) :
    draft'.Fed id portId operand := by
  obtain ⟨node, hnode, port, hmem, rfl, gets⟩ := h
  obtain ⟨node', hnode', rebound, _⟩ := frame.nodes id node hnode
  refine ⟨node', hnode', port, rebound.inputs port hmem hport, rfl, gets_later gets sound frame.later ?_⟩
  exact frame.links port.id ((sound.codes hnode).2 port (mem_append_left _ hmem)) hport

end Draft

/-- The identity of a new node is spoken for afterwards, and so is all that was before. -/
theorem Supply.used_ofKind (kind : NodeKind) (s : Supply) (id : Identity)
    (h : id = (Node.ofKind kind s).1.id ∨ s.Used id) : (Node.ofKind kind s).2.Used id := by
  have hports : ∀ (ports : List Port) (s : Supply), s.Used id →
      ((ports.mapM fun port => port.toSocket.mint : StateM Supply (List Port)) s).2.Used id := by
    intro ports
    induction ports with
    | nil => exact fun _ h => h
    | cons port rest ih =>
      intro s h
      rw [mapM_cons]
      exact ih _ (used_fresh s id (.inr h))
  exact hports kind.outputs _ (hports kind.inputs _ (used_fresh s id h))

namespace Build

variable {session : Session} {b c : Build} {g : Graph} {node : Node} {name : String} {output : Port}

theorem exec_outputAt (hscope : b.scopes.head? = some name) (hg : b.current? = some g) {id : NodeId}
    (hnode : g.node? id = some node) (distinct : (node.ports.map Port.id).Nodup) {position : Nat}
    (houtput : node.outputs[position]? = some output) :
    exec (outputAt id position) b = (.ok ⟨name, id, output.id, output.type⟩, b) := by
  unfold outputAt
  rw [exec_bind_ok (exec_node_of hg hnode), houtput]
  exact exec_expr hscope hg hnode (Node.port?_of_mem distinct (mem_append_right _ (mem_of_getElem? houtput)))

/-- The only output of a node. -/
theorem exec_outputAt_only (hscope : b.scopes.head? = some name) (hg : b.current? = some g)
    (hnode : g.node? node.id = some node) (houtputs : node.outputs = [output])
    (hinputs : node.inputs = []) : exec (outputAt node.id 0) b = (.ok ⟨name, node.id, output.id, output.type⟩, b) :=
  exec_outputAt hscope hg hnode (by simp [Node.ports, houtputs, hinputs]) (by rw [houtputs]; rfl)

/-- A literal becomes the output of a new node that carries it. -/
theorem exec_constant (standard : session.IsStandard)
    (hscope : b.scopes.head? = some name) (hg : b.current? = some g)
    {source : Expr} (h : exec (constant session value) b = (.ok source, c)) :
    ∃ node output s, node.Carries value output ∧ node.id = (Supply.fresh b.supply).1 ∧
      (∀ id, id = node.id ∨ b.supply.Used id → s.Used id) ∧ c = (b.withSupply s).put (g.withNode node) ∧
      source = ⟨name, node.id, output.id, output.type⟩ := by
  unfold constant at h
  obtain ⟨carrier, b₁, hread, h⟩ := exec_bind_eq_ok.mp h
  rw [exec_ofExcept] at hread
  obtain ⟨hcarrier, rfl⟩ := Prod.mk.inj hread
  obtain ⟨spec, hspec, hkind, hplace⟩ := Literal.constantNode_spec hcarrier
  obtain ⟨hrole, hinputs, hlength, _⟩ := constantKinds_form spec hspec
  obtain ⟨kind, hfound, minted⟩ := standard.catalog.exists_kind (constantKinds_subset hspec)
  rw [hkind] at hfound
  have shape := (Node.made_ofKind minted (standardKinds_defaults spec (constantKinds_subset hspec)) b.supply).shape
  have hused := Supply.used_ofKind kind b.supply
  have hid : (Node.ofKind kind b.supply).1.id = (Supply.fresh b.supply).1 := rfl
  rw [exec_bind_ok (exec_addNode hg hfound (by rw [minted.role, hrole]; rfl))] at h
  revert h shape hused hid
  generalize (Node.ofKind kind b.supply).1 = node, (Node.ofKind kind b.supply).2 = s
  intro h shape hused hid
  have hempty : node.inputs = [] := by
    have hsockets := shape.inputs
    rwa [hinputs, forall₂_nil_left_iff] at hsockets
  obtain ⟨output, houtputs⟩ := length_eq_one_iff.mp (shape.outputs.length_eq.symm.trans hlength)
  have hscope' : ∀ graph, ((b.withSupply s).put graph).scopes.head? = some name := fun graph =>
    (congrArg head? (scopes_put _ graph)).trans hscope
  have hg' : ∀ graph, ((b.withSupply s).put graph).current? = some graph := current?_put hg
  -- The node comes to hold the literal, and then its output is read.
  obtain ⟨node', output', hid', hkind', hinputs', houtputs', hheld, hlast⟩ : ∃ node' output', node'.id = node.id ∧
      node'.kind = node.kind ∧ node'.inputs = [] ∧ node'.outputs = [output'] ∧ (match carrier.place with
        | .property name held => node'.property? name = some held
        | .outputDefault => output'.default = some value) ∧
      exec (outputAt node.id 0) ((b.withSupply s).put (g.withNode node')) = (.ok source, c) := by
    cases hcase : carrier.place with
    | property property held =>
      rw [hcase] at h
      obtain ⟨_, b₂, hset, h⟩ := exec_bind_eq_ok.mp h
      rw [exec_setProperty (hg' _), Graph.node?_withNode, if_pos rfl] at hset
      dsimp only at hset
      cases hnode' : node.setProperty property held with
      | error e =>
        rw [hnode'] at hset
        cases hset
      | ok node' =>
        rw [hnode'] at hset
        cases hset
        have same := Node.samePorts_setProperty hnode'
        obtain ⟨_, _, _, hform⟩ := Node.setProperty_eq_ok.mp hnode'
        rw [put_put, g.updateNode_withNode same.id] at h
        refine ⟨node', Node.refreshPort node'.chosen output, same.id, ?_, ?_, ?_,
          Node.property?_setProperty_self hnode', h⟩
        · rw [hform]
          rfl
        · rw [hform]
          simp [Node.refresh, hempty]
        · rw [hform]
          simp only [Node.refresh, houtputs, map_cons, map_nil]
          rfl
    | outputDefault =>
      rw [hcase] at h
      have hnode : (g.withNode node).node? node.id = some node := (g.node?_withNode _ _).trans (if_pos rfl)
      have hport : node.port? output.id = some output := by simp [Node.port?, hempty, houtputs]
      dsimp only at h
      rw [exec_bind_ok (exec_outputAt_only (hscope' _) (hg' _) hnode houtputs hempty),
        exec_bind_ok (exec_setDefault (hg' _) hnode hport value)] at h
      have hupdate : (node.updatePort output.id fun port => { port with default := some value }) =
          { node with outputs := [{ output with default := some value }] } := by
        simp [Node.updatePort, hempty, houtputs, Node.updateFirst]
      rw [hupdate, put_put, g.updateNode_withNode] at h
      · exact ⟨{ node with outputs := [{ output with default := some value }] },
          { output with default := some value },
          rfl, rfl, hempty, rfl, rfl, h⟩
      · rfl
  have hnode' : (g.withNode node').node? node'.id = some node' := (g.node?_withNode _ _).trans (if_pos rfl)
  rw [← hid', exec_outputAt_only (hscope' _) (hg' _) hnode' houtputs' hinputs'] at hlast
  cases hlast
  exact ⟨node', output', s, ⟨carrier, hcarrier, hkind'.trans (shape.kind.trans hkind), hinputs', houtputs', hheld⟩,
    hid'.trans hid, fun id h => hused id (hid' ▸ h), rfl, rfl⟩

end Build

/-! ## Values -/

namespace Site

variable {site : Site} {draft draft' : Draft} {path : List NodeId} {source : Expr} {id : NodeId} {spec : KindSpec}
  {node : Node}

/-- The value is an output of a completed node that can be seen inside the zones of a path. -/
structure Valid (site : Site) (draft : Draft) (path : List NodeId) (source : Expr) : Prop where
  graph : source.graph = site.name
  ready : source.node ∈ draft.done
  port : ∃ node port, draft.graph.node? source.node = some node ∧ port.id = source.port ∧
    port.type = source.type ∧ node.Referable site.rules port
  scope : (draft.info source.node).shows <:+ path

theorem Valid.later (h : site.Valid draft path source) (later : Later draft draft') :
    site.Valid draft' path source := by
  obtain ⟨node, port, hnode, hrest⟩ := h.port
  refine ⟨h.graph, later.done.subset h.ready, ⟨node, port, ?_, hrest⟩, ?_⟩
  · rw [later.kept _ h.ready]
    exact hnode
  · rw [later.info _ (by rw [hnode]; rfl)]
    exact h.scope

theorem Valid.widen {inner : List NodeId} (h : site.Valid draft path source) (hpath : path <:+ inner) :
    site.Valid draft inner source := { h with scope := h.scope.trans hpath }

/-! ## Changing an open node -/

section Open

variable {id : NodeId} {node : Node}

theorem runs_setProperty (sound : draft.Sound site.rules) (hnode : draft.graph.node? id = some node)
    (hopened : id ∉ draft.done) (inner : node.role.isBoundary = false)
    (hfree : ∀ port ∈ node.inputs, draft.graph.linksTo port.id = []) (name : String) (value : PropertyValue) :
    site.Runs (setProperty id name value) draft fun _ draft' =>
      ∃ node', node.setProperty name value = .ok node' ∧ draft' = draft.revised id node' := by
  refine Runs.ofWrite sound fun b hb => ?_
  rw [exec_setProperty hb.current, hnode]
  dsimp only
  cases hset : node.setProperty name value with
  | error e => exact Or.inl ⟨_, rfl⟩
  | ok node' =>
    have hid := sound.keyed hnode
    obtain ⟨hshape, hports⟩ := (sound.shaped hnode inner).2.setProperty hset
    subst hid
    have step : Draft.Step site.rules draft (draft.revised node.id node') :=
      .revise hnode hopened inner hshape hports fun port hport hlinked => by
        rw [isLinked_eq_false.mpr (hfree port hport)] at hlinked
        cases hlinked
    exact Or.inr ⟨draft.revised node.id node', b.supply, (), .single step, hb.next, rfl, node', rfl, rfl⟩

theorem runs_setDefault (sound : draft.Sound site.rules) (hnode : draft.graph.node? id = some node)
    (hopened : id ∉ draft.done) (inner : node.role.isBoundary = false) {portId : PortId}
    (hport : node.port? portId = some port) (hfree : draft.graph.linksTo portId = [])
    (hvalue : port.type.coerce? value = some value) (hplace : port ∈ node.inputs ∨ port.default.isSome = true) :
    site.Runs (setDefault id portId value) draft fun _ draft' =>
      draft' = draft.revised id (node.updatePort portId fun p => { p with default := some value }) := by
  refine Runs.ofWrite sound fun b hb => ?_
  rw [exec_setDefault hb.current hnode hport]
  have hid := sound.keyed hnode
  subst hid
  have hshape := (sound.shaped hnode inner).2.updatePort hport hvalue hplace
  have step : Draft.Step site.rules draft
      (draft.revised node.id (node.updatePort portId fun p => { p with default := some value })) := by
    refine .revise hnode hopened inner hshape (node.samePorts_updatePort portId value) fun p hp hlinked => ?_
    refine (Node.Rebound.updatePort node portId value).inputs p hp ?_
    rintro rfl
    rw [isLinked_eq_false.mpr hfree] at hlinked
    cases hlinked
  exact Or.inr ⟨_, b.supply, (), .single step, hb.next, rfl, rfl⟩

end Open

/-! ## Links and new nodes -/

theorem runs_link (sound : draft.Sound site.rules) (valid : site.Valid draft path source) {portId : PortId}
    (linkable : draft.Linkable id portId) (hreads : (draft.info id).reads = path) :
    site.Runs (link source id portId) draft fun _ draft' => Frame (fun _ => False) (· = portId) draft draft' ∧
      ∃ link, draft'.graph.linksTo portId =
        draft.graph.linksTo portId ++ [⟨link, source.node, source.port, id, portId⟩] := by
  refine Runs.ofWrite sound fun b hb => ?_
  rw [exec_link hb.scope hb.current valid.graph]
  cases hcheck : draft.graph.checkLink source.node source.port id portId with
  | error e => exact Or.inl ⟨_, rfl⟩
  | ok done =>
    obtain ⟨start, output, hstart, hout, _, hreferable⟩ := valid.port
    obtain ⟨target, input, htarget, _, hinput, hid, henabled, hpristine⟩ := linkable.port
    have hle : draft.next ≤ (Supply.fresh b.supply).1.code := hb.next ▸ Supply.le_code_fresh b.supply
    have step : Draft.Step site.rules draft (draft.joined
        ⟨(Supply.fresh b.supply).1, source.node, source.port, id, portId⟩ (Supply.fresh b.supply).2.next) := by
      refine .link hle (Supply.code_fresh_lt b.supply) hcheck linkable.opened ⟨valid.ready, ?_, ?_, ?_⟩
      · exact ⟨start, output, hstart, hout, hreferable⟩
      · exact ⟨target, input, htarget, hinput, hid, henabled, fun _ => hpristine⟩
      · exact hreads ▸ valid.scope
    have hvalues := @Graph.values_withLink draft.graph ⟨_, source.node, source.port, id, portId⟩
      (sound.link_not_mem hle)
    refine Or.inr ⟨_, (Supply.fresh b.supply).2, (), .single step, rfl, rfl, frame_joined (step.later sound) hvalues,
      (Supply.fresh b.supply).1, ?_⟩
    change ((draft.graph.withLink _).links.values.filter fun link => link.toPort = portId) = _
    rw [hvalues, filter_append]
    exact congrArg (draft.graph.linksTo portId ++ ·) (by simp)

theorem runs_addNode (sound : draft.Sound site.rules) (standard : site.session.IsStandard)
    (listed : spec ∈ Catalog.standardKinds) (inner : spec.role.isBoundary = false) (info : NodeId → Info)
    (hshape : ∀ id, (info id).shape = spec) (allowed : ∀ id, Allows site.rules (info id)) :
    site.Runs (addNode site.session spec.id) draft fun id draft' =>
      ∃ node next, node.Made spec draft.next next ∧ node.pairedOutput = none ∧ node.id = id ∧
        draft' = draft.added node (info id) next := by
  refine Runs.ofWrite sound fun b hb => ?_
  obtain ⟨kind, hkind, minted⟩ := standard.catalog.exists_kind listed
  have hrole : kind.role.isBoundary = false := minted.role ▸ inner
  have made := Node.made_ofKind minted (standardKinds_defaults spec listed) b.supply
  rw [hb.next] at made
  rw [exec_addNode hb.current hkind hrole]
  have step : Draft.Step site.rules draft (draft.added (Node.ofKind kind b.supply).1
      (info (Node.ofKind kind b.supply).1.id) (Node.ofKind kind b.supply).2.next) :=
    .new sound (by rw [hshape]; exact made) hrole (allowed _) rfl
  exact Or.inr ⟨_, _, _, .single step, rfl, rfl, _, _, made, rfl, rfl, rfl⟩

/-! ## Reading nodes and ports -/

theorem runs_node (hnode : draft.graph.node? id = some node) :
    site.Runs (Build.node id) draft fun found draft' => draft' = draft ∧ found = node := by
  refine Runs.ofRead fun b hb => ?_
  rw [exec_node_of hb.current hnode]
  exact ⟨rfl, fun a ha => by cases ha; exact ⟨rfl, rfl⟩⟩

theorem runs_outputAt (sound : draft.Sound site.rules) (hnode : draft.graph.node? id = some node) (position : Nat) :
    site.Runs (outputAt id position) draft fun source draft' => draft' = draft ∧
      ∃ port, node.outputs[position]? = some port ∧ source = ⟨site.name, id, port.id, port.type⟩ := by
  refine Runs.ofRead fun b hb => ?_
  unfold outputAt
  rw [exec_bind_ok (exec_node_of hb.current hnode)]
  cases hport : node.outputs[position]? with
  | none => exact ⟨rfl, fun a ha => by cases ha⟩
  | some port =>
    have hmem : port ∈ node.ports := mem_append_right _ (mem_of_getElem? hport)
    dsimp only
    rw [exec_expr hb.scope hb.current hnode (Node.port?_of_mem (sound.distinct hnode) hmem)]
    exact ⟨rfl, fun a ha => by cases ha; exact ⟨rfl, port, rfl, rfl⟩⟩

/-! ## Constants -/

/-- The only output of a constant node can be referred to. -/
theorem referable_constant {rules : Rules} (hspec : spec ∈ Catalog.constantKinds) (shape : node.Instantiates spec)
    (hport : node.outputs[0]? = some port) : node.Referable rules port := by
  obtain ⟨hrole, _, hlength, henabled⟩ := constantKinds_form spec hspec
  obtain ⟨socket, houtputs⟩ := length_eq_one_iff.mp hlength
  have hfits := shape.outputs
  rw [houtputs] at hfits henabled
  obtain ⟨first, rest, hfirst, hrest, hnode⟩ := forall₂_cons_left_iff.mp hfits
  rw [forall₂_nil_left_iff.mp hrest] at hnode
  rw [hnode, getElem?_cons_zero, Option.some.injEq] at hport
  subst hport
  obtain ⟨hwhen, hsocket⟩ := henabled socket mem_cons_self
  have hon : first.enabled = true := by
    rw [hfirst.enabled, Socket.enabledUnder, hwhen]
    exact hsocket
  refine ⟨by simp [hnode], hon, ?_⟩
  rw [shape.role, hrole]
  constructor
  · simp [Node.FirstNamed, Node.enabledOutputs, hnode, hon]
  · simp [Node.enabledOutputs, hnode, hon]

/-- A constant node is complete once it holds its literal. -/
theorem runs_completeConstant (sound : draft'.Sound site.rules) (hspec : spec ∈ Catalog.constantKinds)
    (opened : Opened draft draft' id node) (hunpaired : node.pairedOutput = none)
    (hinfo : draft'.info id = ⟨spec, path, path⟩) :
    site.Runs (outputAt id 0) draft' fun source draft' =>
      site.Valid draft' path source ∧ Undisturbed draft draft' := by
  obtain ⟨hrole, _⟩ := constantKinds_form spec hspec
  have shape : node.Instantiates spec := by simpa [hinfo] using opened.shape sound
  refine (runs_outputAt sound opened.found 0).andThen ?_
  rintro source draft'' steps ⟨rfl, port, hport, rfl⟩
  have complete : draft''.Complete site.rules id node := by
    refine .plain spec (constantKinds_subset hspec) (by rw [hrole]; rfl) (by rw [hinfo]) hunpaired (by rw [hinfo]) ?_
    rw [hrole]
    intro h
    cases h
  have step : Draft.Step site.rules draft'' (draft''.closed id) :=
    .close opened.found opened.opened opened.inner complete
  refine ⟨draft''.closed id, step, rfl, rfl, ⟨rfl, ?_, ?_, ?_⟩,
    opened.undisturbed.close opened.new (step.later sound)⟩
  · exact mem_append_right _ (mem_singleton_self id)
  · exact ⟨node, port, opened.found, rfl, rfl, referable_constant hspec shape hport⟩
  · have hshows : (draft''.info id).shows = path := by rw [hinfo]
    exact hshows ▸ suffix_rfl

theorem runs_constant (sound : draft.Sound site.rules) (standard : site.session.IsStandard)
    (hpath : path.length ≤ site.rules.depth) (value : Literal) :
    site.Runs (constant site.session value) draft fun source draft' =>
      (site.Valid draft' path source ∧ Undisturbed draft draft') ∧
        Operand.Denotes draft'.graph (.literal value) source := by
  have denotes : ∀ b source c, site.At draft b → exec (constant site.session value) b = (.ok source, c) →
      ∃ graph, c.current? = some graph ∧ Operand.Denotes graph (.literal value) source := by
    intro b source c hb hexec
    obtain ⟨node, output, s, carries, _, _, rfl, rfl⟩ := Build.exec_constant standard hb.scope hb.current hexec
    exact ⟨_, current?_put ((current?_withSupply b s).trans hb.current) _,
      .literal site.name ((draft.graph.node?_withNode _ _).trans (if_pos rfl)) carries⟩
  refine Runs.mono (Runs.andExec (?_ : site.Runs _ draft fun source draft' =>
    site.Valid draft' path source ∧ Undisturbed draft draft') denotes) fun _ _ h => h
  unfold constant
  refine Runs.bindExcept sound fun carrier hcarrier => ?_
  obtain ⟨spec, hspec, hkind, hplace⟩ := Literal.constantNode_spec hcarrier
  obtain ⟨hrole, hinputs, _⟩ := constantKinds_form spec hspec
  have inner : spec.role.isBoundary = false := by rw [hrole]; rfl
  rw [← hkind]
  refine Runs.bind sound (runs_addNode sound standard (constantKinds_subset hspec) inner
    (fun _ => ⟨spec, path, path⟩) (fun _ => rfl) fun _ => ⟨hpath, hpath⟩) ?_
  rintro id draft₁ sound₁ _ ⟨node, next, made, hunpaired, rfl, rfl⟩
  have unused := @unused_made site.rules draft node ⟨spec, path, path⟩ next sound made
  have opened := @opened_added node site.rules draft draft ⟨spec, path, path⟩ _ next sound made made.draws.le unused
    (made.shape.role ▸ inner) (.refl draft) (Nat.le_refl _)
  have hinfo : (draft.added node ⟨spec, path, path⟩ next).info node.id = ⟨spec, path, path⟩ :=
    Function.update_self _ _ _
  have hempty : node.inputs = [] := by
    have h := made.shape.inputs
    rw [hinputs] at h
    exact forall₂_nil_left_iff.mp h
  cases hcase : carrier.place with
  | property name property =>
    refine Runs.bind sound₁ (runs_setProperty sound₁ opened.found opened.opened opened.inner
      (by simp [hempty]) name property) ?_
    rintro _ draft₂ sound₂ later ⟨node', hset, rfl⟩
    obtain ⟨shape, same⟩ := made.shape.setProperty hset
    exact runs_completeConstant sound₂ hspec (opened.revise later (shape.role.trans made.shape.role.symm) same)
      (same.pairedOutput.trans hunpaired) hinfo
  | outputDefault =>
    refine Runs.bindRead sound₁ (runs_outputAt sound₁ opened.found 0) ?_
    rintro source ⟨port, hport, rfl⟩
    have hmem : port ∈ node.outputs := mem_of_getElem? hport
    obtain ⟨socket, hsocket, hfits⟩ := forall₂_exists_left made.shape.outputs hmem
    have hvalue : port.type.coerce? value = some value := by
      rw [hfits.type]
      exact (hplace hcase socket hsocket).1
    have hdefault : port.default.isSome = true := by
      rcases hfits.default with hsame | ⟨held, hheld, _⟩
      · rw [hsame]
        exact (hplace hcase socket hsocket).2
      · rw [hheld]
        rfl
    have hfound := Node.port?_of_mem (sound₁.distinct opened.found) (mem_append_right node.inputs hmem)
    have hfree : (draft.added node ⟨spec, path, path⟩ next).graph.linksTo port.id = [] :=
      sound.linksTo_eq_nil (unused port.id (mem_cons_of_mem _
        (mem_map_of_mem (mem_append_right _ hmem))))
    refine Runs.bind sound₁ (runs_setDefault sound₁ opened.found opened.opened opened.inner hfound hfree hvalue
      (.inr hdefault)) ?_
    rintro _ draft₂ sound₂ later rfl
    have shape := made.shape.updatePort hfound hvalue (.inr hdefault)
    have same := node.samePorts_updatePort port.id value
    exact runs_completeConstant sound₂ hspec (opened.revise later (shape.role.trans made.shape.role.symm) same)
      (same.pairedOutput.trans hunpaired) hinfo

/-! ## Binding to one input -/

section Bind

variable {id : NodeId} {portId : PortId}

/-- The port is found, and the type of a literal tells where it goes. -/
theorem runs_bindLiteral (sound : draft.Sound site.rules) (standard : site.session.IsStandard)
    (hpath : path.length ≤ site.rules.depth) (vacant : draft.Vacant id portId)
    (hreads : (draft.info id).reads = path) (value : Literal) :
    site.Runs (bindLiteral site.session value id portId) draft fun _ draft' =>
      Frame (· = id) (· = portId) draft draft' ∧ draft'.Fed id portId (.literal value) := by
  obtain ⟨node, port, hnode, inner, hmem, hid, henabled, hpristine⟩ := vacant.port
  have hport : node.port? portId = some port :=
    hid ▸ Node.port?_of_mem (sound.distinct hnode) (mem_append_left _ hmem)
  have hread : site.Runs (Build.port id portId) draft fun found draft' => draft' = draft ∧ found = port := by
    refine Runs.ofRead fun b hb => ?_
    rw [exec_port_of hb.current hnode hport]
    exact ⟨rfl, fun a ha => by cases ha; exact ⟨rfl, rfl⟩⟩
  unfold bindLiteral
  refine Runs.bindRead sound hread fun found hfound => ?_
  rw [hfound]
  cases hcoerce : port.type.coerce? value with
  | some held =>
    refine (runs_setDefault sound hnode vacant.opened inner hport vacant.free
      (SocketType.coerce?_idem hcoerce) (.inl hmem)).andLater sound ?_
    rintro _ draft' _ later rfl
    refine ⟨frame_revised later hnode (Node.Rebound.updatePort node portId held), _, node?_revised hnode _,
      { port with default := some held }, ?_, hid, .held hcoerce rfl (hid ▸ vacant.free)⟩
    have hany : (node.inputs.any fun port => port.id = portId) = true := any_eq_true.mpr ⟨port, hmem, by simp [hid]⟩
    rw [Node.updatePort, if_pos hany, Node.updateFirst_eq_map (nodup_inputs sound hnode)]
    exact mem_map.mpr ⟨port, hmem, if_pos hid⟩
  | none =>
    refine Runs.bind sound (runs_constant sound standard hpath value) ?_
    rintro source draft' sound' later ⟨⟨valid, undisturbed⟩, denotes⟩
    have linkable := vacant.toLinkable.frame sound undisturbed not_false
    have hreads' : (draft'.info id).reads = path := by
      rw [later.info id (by rw [hnode]; rfl)]
      exact hreads
    refine (runs_link sound' valid linkable hreads').andLater sound' ?_
    rintro _ draft'' _ later' ⟨frame, link, hlink⟩
    refine ⟨undisturbed.frame.trans frame.touching, node, ?_, port, hmem, hid, ?_⟩
    · exact frame.node?_eq (undisturbed.node?_eq hnode not_false) not_false
    · have hcode := (sound.codes hnode).2 port (mem_append_left _ hmem)
      rw [undisturbed.links portId (hid ▸ hcode) not_false, vacant.free, ← hid] at hlink
      refine .linked link (denotes.later valid.ready later') (fun other hother => ?_) hlink
      cases hother
      exact hcoerce

theorem runs_bindOperand (sound : draft.Sound site.rules) (standard : site.session.IsStandard)
    (hpath : path.length ≤ site.rules.depth) (vacant : draft.Vacant id portId)
    (hreads : (draft.info id).reads = path) {operand : Operand} (valid : operand.Over (site.Valid draft path)) :
    site.Runs (bindOperand site.session operand id portId) draft fun _ draft' =>
      Frame (· = id) (· = portId) draft draft' ∧ draft'.Fed id portId operand := by
  cases operand with
  | expr source =>
    obtain ⟨node, port, hnode, _, hmem, hid, _⟩ := vacant.port
    refine (runs_link sound valid vacant.toLinkable hreads).mono fun _ draft' ⟨frame, link, hlink⟩ => ?_
    rw [vacant.free, ← hid] at hlink
    exact ⟨frame.touching, node, frame.node?_eq hnode not_false, port, hmem, hid,
      .linked link (.expr source) nofun hlink⟩
  | literal value => exact runs_bindLiteral sound standard hpath vacant hreads value

end Bind

end Site

end NodeScript
