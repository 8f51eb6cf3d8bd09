import NodeScript.Proofs.Build.LimitedBuilds

/-!
# What nodes hold

The nodes of a graph hold values: those of their properties and the defaults of their ports. All of
them come from the kinds of the catalog, from literals of the script and from the interfaces of
called graphs. So a condition on values that holds of these sources holds of every graph that a
program builds.
-/

namespace NodeScript

open Build List

variable {name : String}

/-- Conditions on the values that nodes hold, for the building of one graph. -/
structure Allowance where
  /-- Name of the graph. -/
  self : String
  /-- Names of graphs that may be called. -/
  called : String → Prop
  property : String → PropertyValue → Prop
  literal : Literal → Prop

variable {allowance : Allowance}

/-- The properties have allowed values, and so have the ports of nodes inside the graph. -/
structure Node.Holds (allowance : Allowance) (node : Node) : Prop where
  properties : ∀ property ∈ node.properties, allowance.property property.decl.name property.value
  defaults : node.role.isBoundary = false → ∀ port ∈ node.ports, ∀ value, port.default = some value →
    allowance.literal value

/-- All nodes hold allowed values. -/
def Graph.Holds (allowance : Allowance) (graph : Graph) : Prop :=
  ∀ id node, graph.node? id = some node → node.Holds allowance

/-- New nodes of the kind hold allowed values. -/
structure NodeKind.Holds (allowance : Allowance) (kind : NodeKind) : Prop where
  properties : ∀ decl ∈ kind.properties, allowance.property decl.name decl.default
  defaults : ∀ port ∈ kind.inputs ++ kind.outputs, ∀ value, port.default = some value → allowance.literal value

/-! ## Nodes -/

namespace Node.Holds

variable {node node' : Node}

/-- Whether ports are enabled does not matter. -/
theorem refresh (holds : node.Holds allowance) : node.refresh.Holds allowance where
  properties := holds.properties
  defaults := by
    intro inner port hport value hvalue
    have hports : node.refresh.ports = node.ports.map (refreshPort node.chosen) := map_append.symm
    rw [hports] at hport
    obtain ⟨old, hold, rfl⟩ := mem_map.mp hport
    rw [refreshPort_eq] at hvalue
    exact holds.defaults inner old hold value hvalue

theorem setProperty (holds : node.Holds allowance) {value : PropertyValue}
    (allowed : allowance.property name value) (h : node.setProperty name value = .ok node') :
    node'.Holds allowance := by
  obtain ⟨found, hfind, _, rfl⟩ := setProperty_eq_ok.mp h
  apply refresh
  constructor
  · intro property hproperty
    rcases mem_updateFirst hproperty with hold | ⟨old, hold, rfl⟩
    · exact holds.properties property hold
    · have hname : old.decl.name = name := by simpa using find?_some hold
      exact hname ▸ allowed
  · exact holds.defaults

/-- Other ports whose defaults are allowed. -/
theorem withPorts (holds : node.Holds allowance) {inputs outputs : List Port}
    (h : ∀ port ∈ inputs ++ outputs, port ∈ node.ports ∨
      ∀ value, port.default = some value → allowance.literal value) :
    ({ node with inputs, outputs } : Node).Holds allowance where
  properties := holds.properties
  defaults := by
    intro inner port hport value hvalue
    rcases h port hport with hold | hnew
    · exact holds.defaults inner port hold value hvalue
    · exact hnew value hvalue

theorem updatePort (holds : node.Holds allowance) {value : Literal}
    (allowed : allowance.literal value) (id : PortId) :
    (node.updatePort id fun port => { port with default := some value }).Holds allowance := by
  have hnew : ∀ found, some value = some found → allowance.literal found := fun _ h => Option.some.inj h ▸ allowed
  unfold Node.updatePort
  split
  · refine holds.withPorts fun port hport => ?_
    rcases mem_append.mp hport with hport | hport
    · rcases mem_updateFirst hport with hold | ⟨old, _, rfl⟩
      · exact Or.inl (mem_append_left _ hold)
      · exact Or.inr hnew
    · exact Or.inl (mem_append_right _ hport)
  · refine holds.withPorts fun port hport => ?_
    rcases mem_append.mp hport with hport | hport
    · exact Or.inl (mem_append_left _ hport)
    · rcases mem_updateFirst hport with hold | ⟨old, _, rfl⟩
      · exact Or.inl (mem_append_right _ hold)
      · exact Or.inr hnew

theorem ofKind {kind : NodeKind} (holds : kind.Holds allowance) (s : Supply) :
    (Node.ofKind kind s).1.Holds allowance := by
  obtain ⟨id, inputs, outputs, hinputs, houtputs, _, heq⟩ := Node.exists_ofKind kind s
  have hports : (inputs ++ outputs).map Port.toSocket = (kind.inputs ++ kind.outputs).map Port.toSocket := by
    rw [map_append, hinputs, houtputs, map_append]
  rw [heq]
  apply refresh
  constructor
  · intro property hproperty
    obtain ⟨decl, hdecl, rfl⟩ := mem_map.mp hproperty
    exact holds.properties decl hdecl
  · intro _ port hport value hvalue
    obtain ⟨old, hold, hsame⟩ := mem_map.mp (hports ▸ mem_map_of_mem hport)
    exact holds.defaults old hold value ((congrArg Socket.default hsame).trans hvalue)

/-- Ports of boundary nodes do not matter. -/
theorem alignNode (holds : node.Holds allowance) (interface : Interface) (s : Supply) :
    (Boundary.alignNode interface node s).1.Holds allowance := by
  rw [Boundary.alignNode_eq]
  split
  · next hrole => exact ⟨holds.properties, fun inner => absurd inner (by simp [hrole, Role.isBoundary])⟩
  · next hrole => exact ⟨holds.properties, fun inner => absurd inner (by simp [hrole, Role.isBoundary])⟩
  · exact holds

end Node.Holds

/-! ## Graphs -/

namespace Graph.Holds

variable {graph graph' : Graph} {node : Node}

section

variable (holds : graph.Holds allowance)
include holds

theorem of_nodes (h : graph'.nodes = graph.nodes) : graph'.Holds allowance := by
  intro id node hnode
  rw [Graph.node?, h] at hnode
  exact holds id node hnode

theorem updateNode (id : NodeId) {f : Node → Node}
    (h : ∀ node, graph.node? id = some node → (f node).Holds allowance) :
    (graph.updateNode id f).Holds allowance := by
  intro other node hnode
  rw [Graph.node?, Graph.updateNode, OrderedMap.get?_modify] at hnode
  split at hnode
  · next heq =>
      obtain ⟨old, hold, rfl⟩ := Option.map_eq_some_iff.mp hnode
      exact h old (heq ▸ hold)
  · exact holds other node hnode

theorem withNode (new : node.Holds allowance) : (graph.withNode node).Holds allowance := by
  intro id found hfound
  rw [Graph.node?_withNode] at hfound
  split at hfound
  · cases hfound
    exact new
  · exact holds id found hfound

theorem alignBoundary (s : Supply) : (graph.alignBoundary s).1.Holds allowance := by
  intro id node hnode
  have hget : (graph.nodes.mapState (Boundary.alignNode graph.interface) s).1.get? id = some node := hnode
  obtain ⟨old, s', hold, _, _, rfl⟩ := OrderedMap.get?_mapState (Supply.climbs_alignNode graph.interface) hget
  exact (holds id old hold).alignNode graph.interface s'

theorem addNode (new : node.Holds allowance) (s : Supply) : (graph.addNode node s).1.Holds allowance := by
  have hadded : (graph.withNode node).Holds allowance := holds.withNode new
  unfold Graph.addNode
  split
  · exact hadded.alignBoundary s
  · exact hadded

end

end Graph.Holds

namespace Graph

variable {graph graph' : Graph}

/-- The later graph has the name of the earlier one and holds allowed values where that does. -/
structure KeepsHolding (allowance : Allowance) (graph graph' : Graph) : Prop where
  name : graph'.name = graph.name
  holds : graph.Holds allowance → graph'.Holds allowance

theorem KeepsHolding.refl (graph : Graph) : graph.KeepsHolding allowance graph := ⟨rfl, fun holds => holds⟩

theorem KeepsHolding.trans {graph'' : Graph} (first : graph.KeepsHolding allowance graph')
    (second : graph'.KeepsHolding allowance graph'') : graph.KeepsHolding allowance graph'' :=
  ⟨second.name.trans first.name, fun holds => second.holds (first.holds holds)⟩

theorem keepsHolding_pairZone {entry exit : NodeId} (h : graph.pairZone entry exit = .ok graph') :
    graph.KeepsHolding allowance graph' := by
  obtain ⟨node, _, hnode, _, _, _, rfl⟩ := pairZone_eq_ok h
  refine ⟨rfl, fun holds => holds.updateNode entry fun _ _ => ?_⟩
  exact ⟨(holds entry node hnode).properties, (holds entry node hnode).defaults⟩

theorem keepsHolding_withoutItems (graph : Graph) (id : NodeId) :
    graph.KeepsHolding allowance (graph.withoutItems id).1 := by
  unfold Graph.withoutItems
  split
  · exact .refl graph
  · refine ⟨rfl, fun holds => holds.updateNode id fun node hnode => ?_⟩
    apply (holds id node hnode).withPorts
    intro port hport
    rcases mem_append.mp hport with hport | hport
    · exact Or.inl (mem_append_left _ (mem_filter.mp hport).1)
    · exact Or.inl (mem_append_right _ (mem_filter.mp hport).1)

theorem keepsHolding_clearZoneItems {entry : NodeId} (h : graph.clearZoneItems entry = .ok graph') :
    graph.KeepsHolding allowance graph' := by
  unfold Graph.clearZoneItems at h
  obtain ⟨exit, _, h⟩ := Except.bind_eq_ok.mp h
  cases h
  have hboth := (graph.keepsHolding_withoutItems entry).trans
    (@keepsHolding_withoutItems allowance (graph.withoutItems entry).1 exit)
  exact ⟨hboth.name, fun holds => (hboth.holds holds).of_nodes rfl⟩

theorem keepsHolding_addItemTo {type : SocketType} {id : NodeId} {s : Supply}
    (h : (graph.addItemTo name type id s).1 = some graph') : graph.KeepsHolding allowance graph' := by
  obtain ⟨node, input, output, hnode, hinput, houtput, _, rfl⟩ := addItemTo_eq_some h
  have hnone : ∀ port : Port, port.default = none →
      ∀ value, port.default = some value → allowance.literal value := by
    intro port hnone value hvalue
    rw [hnone] at hvalue
    cases hvalue
  refine ⟨rfl, fun holds => holds.updateNode id fun _ _ => (holds id node hnode).withPorts fun port hport => ?_⟩
  simp only [mem_append, mem_singleton] at hport
  rcases hport with (hold | rfl) | hold | rfl
  · exact Or.inl (mem_append_left _ hold)
  · exact Or.inr (hnone _ hinput)
  · exact Or.inl (mem_append_right _ hold)
  · exact Or.inr (hnone _ houtput)

theorem keepsHolding_addZoneItem (graph : Graph) (entry : NodeId) (name : String) (type : SocketType) (s : Supply) :
    graph.KeepsHolding allowance (graph.addZoneItem entry name type s).1.1 := by
  exact addZoneItem_induction (R := fun _ g => graph.KeepsHolding allowance g) (.refl graph) (fun _ h => h)
    fun _ _ h hitem => h.trans (keepsHolding_addItemTo hitem)

end Graph

/-! ## Limits -/

/-- The graph may be called: the defaults of its interface are allowed. -/
def Interface.Holds (allowance : Allowance) (interface : Interface) : Prop :=
  ∀ entry ∈ interface.inputs ++ interface.outputs, ∀ value, entry.default = some value → allowance.literal value

namespace Allowance

/-- Building the graph with allowed values. -/
def limits (allowance : Allowance) (session : Session) : Limits where
  edit g _ g' _ := g.KeepsHolding allowance g'
  free _ := False
  error _ := True
  kind name := ∀ kind, session.catalog.get? name = some kind → kind.Holds allowance
  property := allowance.property
  literal := allowance.literal
  context b := b.scopes.head? = some allowance.self ∧ (∃ graph, b.current? = some graph) ∧
    ∀ name graph, name ≠ allowance.self → allowance.called name → b.store.get? name = some graph →
      graph.interface.Holds allowance

/-- What the catalog and the literals have to satisfy. -/
structure Lawful (allowance : Allowance) : Prop where
  coerce : ∀ {value value'} (type : SocketType), allowance.literal value → type.coerce? value = some value' →
    allowance.literal value'
  carried : ∀ {value carrier name property}, allowance.literal value → value.constantNode = .ok carrier →
    carrier.place = .property name property → allowance.property name property
  properties : ∀ spec ∈ Catalog.standardKinds, spec.role ≠ .group → ∀ decl ∈ spec.properties,
    allowance.property decl.name decl.default
  defaults : ∀ spec ∈ Catalog.standardKinds, ∀ socket ∈ spec.inputs ++ spec.outputs, ∀ value,
    socket.default = some value → allowance.literal value
  callee : ∀ name, name ≠ allowance.self → allowance.called name → allowance.property graphProperty (.graph name)

/-- The calls and values of the program are allowed. -/
structure Covers (allowance : Allowance) (session : Session) (program : Script.Program) : Prop where
  self : allowance.self = program.name
  call : ∀ target function args, Script.Statement.call target function args ∈ program.parts →
    (∀ entry, session.functions.get? function = some entry → (allowance.limits session).kind entry.kind) ∧
      (function ∉ Catalog.functionNames → ∀ name, snakeCase name = function → allowance.called name) ∧
      ∀ arg ∈ args, (allowance.limits session).AdmitsArgument arg.1 arg.2
  zone : ∀ target kind items args body next, Script.Statement.zone target kind items args body next ∈ program.parts →
    (∀ arg ∈ args, (allowance.limits session).AdmitsValue arg.2) ∧
      ∀ value ∈ next, (allowance.limits session).AdmitsValue value
  results : ∀ result ∈ program.returns, (allowance.limits session).AdmitsValue result.2
  once : allowance.literal (.int 1)

variable {session : Session}

namespace Lawful

variable (lawful : allowance.Lawful) (standard : session.IsStandard) {arguments : Arguments} {spec : KindSpec}
include lawful standard

/-- A kind is allowed where the defaults of its properties are. -/
theorem kind_of (listed : spec ∈ Catalog.standardKinds)
    (h : ∀ decl ∈ spec.properties, allowance.property decl.name decl.default) :
    (allowance.limits session).kind spec.id := by
  intro kind hkind
  obtain ⟨found, hfound, hid, minted⟩ := standard.catalog.exists_spec hkind
  have hsame : found = spec := inj_on_of_nodup_map Catalog.standardKinds_nodup hfound listed hid
  subst hsame
  constructor
  · rw [minted.properties]
    exact h
  · intro port hport value hvalue
    apply lawful.defaults found hfound port.toSocket _ value hvalue
    rw [← minted.inputs, ← minted.outputs, ← map_append]
    exact mem_map_of_mem hport

theorem kind (listed : spec ∈ Catalog.standardKinds) (plain : spec.role ≠ .group) :
    (allowance.limits session).kind spec.id :=
  lawful.kind_of standard listed (lawful.properties spec listed plain)

/-- The kind of groups is allowed where the empty reference is. -/
theorem bareGroup (h : allowance.property graphProperty (.graph "")) : (allowance.limits session).kind groupKind :=
  lawful.kind_of standard bareGroupSpec_mem fun _ hdecl => mem_singleton.mp hdecl ▸ h

theorem limits : (allowance.limits session).Lawful session where
  skip _ := .refl _
  trans := .trans
  plain _ := trivial
  add := by
    intro name kind hname hkind g s
    refine ⟨?_, fun holds => holds.addNode (.ofKind (hname kind hkind) s) _⟩
    unfold Graph.addNode
    split <;> rfl
  assign := by
    intro g id n n' name value allowed hnode hset _
    exact ⟨rfl, fun holds => holds.updateNode id fun _ _ => (holds id n hnode).setProperty allowed hset⟩
  fill := by
    intro g id n value allowed hnode port _
    exact ⟨rfl, fun holds => holds.updateNode id fun _ _ => (holds id n hnode).updatePort allowed port⟩
  link _ _ := ⟨rfl, fun holds => holds.of_nodes rfl⟩
  pair h _ := Graph.keepsHolding_pairZone h
  clear h _ := Graph.keepsHolding_clearZoneItems h
  item := Graph.keepsHolding_addZoneItem
  output g declaration s := ⟨rfl, fun holds => @Graph.Holds.alignBoundary allowance
    { g with interface := { g.interface with outputs := g.interface.outputs ++ [(declaration.mint s).1] } }
    (holds.of_nodes rfl) _⟩
  move g id position _ := ⟨rfl, fun holds => holds.updateNode id fun node hnode =>
    ⟨(holds id node hnode).properties, (holds id node hnode).defaults⟩⟩
  coerce := lawful.coerce
  carrier := by
    intro value carrier _ hcarrier
    obtain ⟨spec, hspec, hid, _⟩ := Literal.constantNode_spec hcarrier
    rw [← hid]
    apply lawful.kind standard (constantKinds_subset hspec)
    rw [(constantKinds_form spec hspec).1]
    exact fun h => by cases h
  carried := lawful.carried
  ends kind := by
    have hentry := lawful.kind standard kind.entrySpec_mem (by cases kind <;> exact fun h => by cases h)
    have hexit := lawful.kind standard kind.exitSpec_mem (by cases kind <;> exact fun h => by cases h)
    cases kind <;> exact ⟨hentry, hexit⟩
  context := by
    rintro b b' ⟨hscope, ⟨g, hg⟩, hcallees⟩ within
    refine ⟨by rw [within.scopes, hscope], ?_, ?_⟩
    · obtain ⟨g', hg', _⟩ := within.current g hg
      exact ⟨g', hg'⟩
    · intro name graph hname hcalled hget
      apply hcallees name graph hname hcalled
      rwa [within.others name (by rw [hscope]; exact fun h => hname (Option.some.inj h).symm) not_false] at hget

/-! ## Calls of graphs -/

omit standard in
/-- The node that stands for a called graph. -/
theorem holds_groupNode {kind : NodeKind} {interface : Interface} (hname : name ≠ allowance.self)
    (hcalled : allowance.called name) (hinterface : interface.Holds allowance) (s : Supply) :
    (Site.groupNode kind name interface s).1.Holds allowance := by
  constructor
  · intro property hproperty
    rw [mem_singleton.mp hproperty]
    exact lawful.callee name hname hcalled
  · intro _ port hport value hvalue
    have hsocket := mem_map_of_mem (f := Port.toSocket) hport
    simp only [Node.ports, Site.groupNode, map_append, Socket.mapM_mint_toSocket, mem_append] at hsocket
    rcases hsocket with hsocket | hsocket
    · obtain ⟨entry, hentry, heq⟩ := mem_map.mp hsocket
      exact hinterface entry (mem_append_left _ hentry) value ((congrArg Socket.default heq).trans hvalue)
    · obtain ⟨entry, hentry, heq⟩ := mem_map.mp hsocket
      exact hinterface entry (mem_append_right _ hentry) value ((congrArg Socket.default heq).trans hvalue)

theorem keeps_callGraph (hcalled : allowance.called name)
    (admitted : (allowance.limits session).AdmitsAll arguments) :
    (allowance.limits session).Keeps (callGraph session name none arguments) := by
  rintro b ⟨hscope, ⟨g, hg⟩, hcallees⟩
  have limits := lawful.limits standard
  let site : Site := ⟨session, ⟨fun _ => none, fun _ => True, fun _ _ => True, fun _ _ => True, fun _ => True, 0⟩,
    allowance.self⟩
  by_cases hself : allowance.self = name
  · subst hself
    exact limits.keepsAt_error rfl fun warnings =>
      @Site.exec_callGraph_self site (b.withWarnings warnings) hscope arguments
  cases htarget : b.store.get? name with
  | none =>
    exact limits.keepsAt_error rfl fun warnings =>
      @Site.exec_callGraph_none site (b.withWarnings warnings) name hscope hself htarget arguments
  | some target =>
    obtain ⟨kind, hkind, minted⟩ := standard.catalog.exists_kind bareGroupSpec_mem
    have hexec := fun warnings =>
      @Site.exec_callGraph site kind (b.withWarnings warnings) name g target hscope hg hkind
      minted hself htarget arguments
    have hnode := @holds_groupNode name allowance lawful kind target.interface (fun h => hself h.symm) hcalled
      (hcallees name target (fun h => hself h.symm) hcalled htarget) b.supply
    have hedit : g.KeepsHolding allowance (g.withNode (Site.groupNode kind name target.interface b.supply).1) :=
      ⟨rfl, fun holds => holds.withNode hnode⟩
    have hnext := limits.keeps_bindArguments (Site.groupNode kind name target.interface b.supply).1.id none admitted
    refine @Limits.Lawful.keepsAt_put _ (Site.groupNode kind name target.interface b.supply).2 _ _ _ _ limits _ _ _
      ⟨hscope, ⟨g, hg⟩, hcallees⟩ hg hedit hnext fun warnings => ?_
    rw [← put_withWarnings]
    exact hexec warnings

/-- Calls keep to the limits where the called kind, the called graph and the arguments do. -/
theorem keeps_call {function : String}
    (hkind : ∀ entry, session.functions.get? function = some entry → (allowance.limits session).kind entry.kind)
    (hcalled : function ∉ Catalog.functionNames → ∀ name, snakeCase name = function → allowance.called name)
    (admitted : (allowance.limits session).AdmitsAll arguments) :
    (allowance.limits session).Keeps (call session function none arguments) := by
  refine (lawful.limits standard).keeps_call hkind (fun hnone name hname => ?_) admitted
  exact lawful.keeps_callGraph standard (hcalled (standard.not_mem_functionNames hnone) name hname) admitted

/-! ## Programs -/

/-- The graph of a program whose calls and values are allowed holds allowed values, whether the
build succeeds or not, and other graphs are as they were. -/
theorem holds_build {program : Script.Program} (covers : allowance.Covers session program)
    {params : List ResolvedParam} (hparams : program.inputs session = .ok params) {b : Build}
    (callees : ∀ name graph, name ≠ program.name → allowance.called name → b.store.get? name = some graph →
      graph.interface.Holds allowance) :
    ∃ graph, (exec (program.build session) b).2.store.get? program.name = some graph ∧
      graph.name = (b.store.getD program.name).name ∧ graph.Holds allowance ∧
      ∀ other, other ≠ program.name → (exec (program.build session) b).2.store.get? other = b.store.get? other := by
  have limits := lawful.limits standard
  obtain ⟨⟨sourceSpec, sourceListed, sourceId, sourceRole, _⟩, ⟨sinkSpec, sinkListed, sinkId, sinkRole, _⟩⟩ :=
    boundaryKinds
  have hsource := lawful.kind standard sourceListed (by rw [sourceRole]; exact fun h => by cases h)
  have hsink := lawful.kind standard sinkListed (by rw [sinkRole]; exact fun h => by cases h)
  rw [sourceId] at hsource
  rw [sinkId] at hsink
  have hstatements : (allowance.limits session).Covers session program.statements := by
    constructor
    · intro target function args hpart environment arguments harguments
      obtain ⟨hkind, hcalled, hargs⟩ := covers.call target function args hpart
      apply lawful.keeps_call standard hkind hcalled
      exact Limits.admitsAll_namedArguments hargs harguments
    · exact fun _ _ _ _ => trivial
    · exact covers.zone
    · exact covers.once
  have hkeeps := limits.keeps_programBody hsource hsink hstatements covers.results params
  have hstart : (allowance.limits session).StartsAt program.name b := by
    rintro start hscopes ⟨graph, hgraph⟩ hothers
    have hscope : start.scopes.head? = some allowance.self := by rw [hscopes, covers.self]; rfl
    refine ⟨hscope, ⟨graph, ?_⟩, ?_⟩
    · rw [current?, hscope, covers.self]
      exact hgraph
    · intro name found hname hcalled hfound
      rw [covers.self] at hname
      rw [hothers name hname] at hfound
      exact callees name found hname hcalled hfound
  obtain ⟨inputs, _, _, changed, _⟩ := limits.changed_program hparams hkeeps hstart
  obtain ⟨graph, hgraph, hedit⟩ := changed.graph
  refine ⟨graph, hgraph, hedit.name, hedit.holds ?_, fun other hother => changed.others other hother not_false⟩
  intro id node hnode
  cases hnode

end Lawful

end Allowance

end NodeScript
