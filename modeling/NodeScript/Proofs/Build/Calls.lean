import NodeScript.Proofs.Build.Arguments

/-!
# Calls as constructions

A call adds one node, binds its arguments and completes it.
-/

namespace NodeScript

open Build Draft List OrderedMap

/-! ## Results -/

variable {selected : String → Prop} {source : Expr}

/-- The value that an output of a node gives. -/
def Port.value (graph : String) (id : NodeId) (port : Port) : Expr := ⟨graph, id, port.id, port.type⟩

/-- Outputs by name; of several with one name the first counts. -/
def nameOutputs (graph : String) (id : NodeId) : List Port → OrderedMap String Expr → OrderedMap String Expr
  | [], named => named
  | port :: rest, named =>
    if named.contains (snakeCase port.name) then nameOutputs graph id rest named
    else nameOutputs graph id rest (named.insert (snakeCase port.name) (port.value graph id))

/-- What a call that made the node gives. -/
def Node.result (graph : String) (id : NodeId) (node : Node) : CallResult :=
  match node.enabledOutputs with
  | [port] => .single (port.value graph id)
  | ports => .named (nameOutputs graph id ports ∅)

theorem get?_nameOutputs (graph : String) (id : NodeId) (ports : List Port) (named : OrderedMap String Expr)
    (name : String) : (nameOutputs graph id ports named).get? name =
      (named.get? name).or
        ((ports.find? fun port => snakeCase port.name = name).map fun port => port.value graph id) := by
  induction ports generalizing named with
  | nil => simp [nameOutputs]
  | cons port rest ih =>
    unfold nameOutputs
    rw [find?_cons]
    by_cases hname : snakeCase port.name = name
    · subst hname
      cases hget : named.get? (snakeCase port.name) with
      | none =>
        have hfree : named.contains (snakeCase port.name) = false :=
          decide_eq_false (get?_eq_none_iff.mp hget)
        rw [if_neg (by rw [hfree]; simp), ih, get?_insert]
        simp
      | some old =>
        have hkey : named.contains (snakeCase port.name) = true :=
          decide_eq_true (mem_keys_iff.mpr ⟨old, hget⟩)
        rw [if_pos hkey, ih, hget]
        simp
    · simp only [hname, decide_false]
      split
      · exact ih named
      · rw [ih, get?_insert, if_neg fun h => hname h.symm]

/-- Values that can be taken from a result: an only output, and of several those whose names are
selected. -/
def CallResult.Offers (selected : String → Prop) : CallResult → Expr → Prop
  | .single expr, source => source = expr
  | .named outputs, source => ∃ name, selected name ∧ outputs.get? name = some source

theorem CallResult.Offers.mem_exprs {result : CallResult} (h : result.Offers selected source) :
    source ∈ result.exprs := by
  cases result with
  | single expr => exact mem_singleton.mpr h
  | named outputs =>
    obtain ⟨name, _, hget⟩ := h
    exact mem_values_iff.mpr ⟨name, hget⟩

/-- Every value that a result offers is the first enabled output of its name, and the only one if it
is not selected. -/
theorem Node.exists_of_offers {graph : String} {id : NodeId} {node : Node}
    (h : (node.result graph id).Offers selected source) :
    ∃ port ∈ node.enabledOutputs, node.FirstNamed port ∧
      (node.enabledOutputs.length = 1 ∨ selected (snakeCase port.name)) ∧ source = port.value graph id := by
  unfold result at h
  split at h
  next port hports => exact ⟨port, by simp [hports], by simp [FirstNamed, hports], by simp [hports], h⟩
  next ports hports =>
    obtain ⟨name, hselected, hget⟩ := h
    rw [get?_nameOutputs] at hget
    simp only [get?_empty, Option.none_or, Option.map_eq_some_iff] at hget
    obtain ⟨port, hfind, rfl⟩ := hget
    have hname : snakeCase port.name = name := by simpa using find?_some hfind
    subst hname
    exact ⟨port, mem_of_find?_eq_some hfind, hfind, Or.inr hselected, rfl⟩

namespace Site

variable {site : Site} {draft draft' : Draft} {path : List NodeId} {id : NodeId} {node : Node} {before : Draft}
  {arguments : Arguments} {spec : KindSpec} {kind : NodeKind} {b : Build} {name : String} {graph : Graph}
  {port : Port}

theorem exec_namedOutputs (hscope : b.scopes.head? = some name)
    (hb : b.current? = some graph) (hnode : graph.node? id = some node) (distinct : (node.ports.map Port.id).Nodup)
    {ports : List Port} (hports : ports ⊆ node.ports) (named : OrderedMap String Expr) :
    exec (namedOutputs id ports named) b = (.ok (nameOutputs name id ports named), b) := by
  induction ports generalizing named with
  | nil => rfl
  | cons port rest ih =>
    have hrest : rest ⊆ node.ports := fun p hp => hports (mem_cons_of_mem _ hp)
    have hport : node.port? port.id = some port := Node.port?_of_mem distinct (hports mem_cons_self)
    unfold namedOutputs nameOutputs
    dsimp only
    by_cases hkey : named.contains (snakeCase port.name) = true
    · rw [if_pos hkey, if_pos hkey]
      exact ih hrest named
    · rw [if_neg hkey, if_neg hkey, exec_bind_ok (exec_expr hscope hb hnode hport)]
      exact ih hrest _

theorem exec_callResult (hscope : b.scopes.head? = some name)
    (hb : b.current? = some graph) (hnode : graph.node? id = some node)
    (distinct : (node.ports.map Port.id).Nodup) :
    exec (callResult id) b = (.ok (node.result name id), b) := by
  have hsub : node.enabledOutputs ⊆ node.ports := fun p hp => mem_append_right _ (mem_of_mem_filter hp)
  unfold callResult Node.result
  rw [exec_bind_ok (exec_node_of hb hnode)]
  revert hsub
  generalize node.enabledOutputs = ports
  intro hsub
  have hnamed := exec_namedOutputs hscope hb hnode distinct hsub ∅
  match ports with
  | [] => exact exec_bind_ok hnamed
  | [port] =>
    have hport : node.port? port.id = some port := Node.port?_of_mem distinct (hsub (mem_singleton_self port))
    exact exec_bind_ok (exec_expr hscope hb hnode hport)
  | _ :: _ :: _ => exact exec_bind_ok hnamed

theorem runs_callResult (sound : draft.Sound site.rules) (hnode : draft.graph.node? id = some node) :
    site.Runs (callResult id) draft fun result draft' =>
      draft' = draft ∧ result = node.result site.name id := by
  refine Runs.ofRead fun b hb => ?_
  rw [exec_callResult hb.scope hb.current hnode (sound.distinct hnode)]
  exact ⟨rfl, fun a ha => by cases ha; exact ⟨rfl, rfl⟩⟩

/-! ## Arguments of a call -/

/-- The enabled inputs of a node to which nothing has been bound can take a value. -/
theorem Unbound.vacant (unbound : Unbound before draft id node) (hport : port ∈ node.enabledInputs) :
    draft.Vacant id port.id := by
  obtain ⟨hmem, henabled⟩ := mem_filter.mp hport
  exact ⟨⟨unbound.opened, node, port, unbound.found, unbound.inner, hmem, rfl, henabled, unbound.pristine _⟩,
    unbound.free port hmem⟩

theorem runs_bindArguments (sound : draft.Sound site.rules) (ready : site.Ready draft path id)
    (unbound : Unbound before draft id node) (plain : arguments.Plain)
    (valid : ∀ name argument, arguments.get? name = some argument → argument.Over (site.Valid draft path)) :
    site.Runs (bindArguments site.session id none arguments) draft fun result draft' =>
      ∃ node', Opened before draft' id node' ∧ result = node'.result site.name id ∧
        node'.pairedOutput = node.pairedOutput ∧ draft'.info id = draft.info id ∧
        (arguments.get? graphProperty = none → node'.graph? = node.graph?) ∧
        ∀ text, node'.graph? = some text → node.graph? = some text ∨ arguments.Refers text := by
  unfold bindArguments
  refine Runs.bindRead sound (p := fun skipped => skipped = none) (Runs.pure ⟨rfl, rfl⟩) fun skipped hskipped => ?_
  refine Runs.bindRead sound (runs_node unbound.found) fun found hfound => ?_
  rw [hskipped, hfound, spreadGroups_eq plain]
  refine Runs.bind sound (runs_bindProperties sound unbound _ arguments) ?_
  rintro rest draft₁ sound₁ later₁ ⟨node₁, unbound₁, hpaired, hrest, hgraph, hrefers⟩
  refine Runs.bindRead sound₁ (runs_node unbound₁.found) fun found₁ hfound₁ => ?_
  rw [hfound₁]
  have hinputs : (node₁.enabledInputs.filter fun port => some port.id ≠ none) = node₁.enabledInputs := by simp
  simp only [hinputs]
  have sorts := PortGroup.sorts_ofPorts node₁.enabledInputs
  have ready₁ := ready.later later₁
  have hids : (node₁.enabledInputs.map Port.id).Nodup :=
    (nodup_inputs sound₁ unbound₁.found).sublist (filter_sublist.map _)
  refine Runs.bind sound₁ (runs_bindGroups (sorts.nodup_ports hids) sound₁ ready₁ (fun portId hportId => ?_)
    fun name argument hget => (valid name argument (hrest name argument hget)).mono fun _ h => h.later later₁) ?_
  · obtain ⟨port, hport, hid⟩ := sorts.exists_port hportId
    exact hid ▸ unbound₁.vacant hport
  rintro _ draft₂ sound₂ later₂ frame₂
  have hown : ∀ portId, portId ∈ (PortGroup.ofPorts node₁.enabledInputs).flatMap PortGroup.ports →
      before.next ≤ portId.code := by
    intro portId hportId
    obtain ⟨port, hport, hid⟩ := sorts.exists_port hportId
    exact hid ▸ unbound₁.ports port (mem_append_left _ (mem_of_mem_filter hport))
  obtain ⟨node₂, opened₂, rebound₂⟩ := unbound₁.toOpened.frame (frame₂.mono hown)
  refine Runs.bind sound₂ (runs_bindRest sound₂ opened₂ _) ?_
  rintro _ draft₃ sound₃ later₃ frame₃
  obtain ⟨node₃, opened₃, rebound₃⟩ := opened₂.frame frame₃
  refine (runs_callResult sound₃ opened₃.found).mono ?_
  rintro result draft' ⟨rfl, rfl⟩
  have rebound := rebound₂.trans rebound₃
  have hsame : node₃.graph? = node₁.graph? := by
    rw [Node.graph?, Node.graph?, Node.property?, Node.property?, rebound.properties]
  refine ⟨node₃, opened₃, rfl, rebound.samePorts.pairedOutput.trans hpaired, ?_,
    fun hnone => hsame.trans (hgraph hnone), fun text htext => hrefers text (hsame ▸ htext)⟩
  rw [later₃.info id (by rw [opened₂.found]; rfl), later₂.info id ready₁.found, later₁.info id ready.found]

/-! ## Completing a call -/

/-- At a node that is no end of a zone the first output of a name can be referred to. -/
theorem referable_first {rules : Rules} (hport : port ∈ node.enabledOutputs)
    (first : node.FirstNamed port ∧ (node.enabledOutputs.length = 1 ∨ rules.selected (snakeCase port.name)))
    (unpaired : node.pairedOutput = none) (noExit : node.role.isZoneExit = true → node.outputs = []) :
    node.Referable rules port := by
  obtain ⟨hmem, henabled⟩ := mem_filter.mp hport
  have hexit : ¬ node.role.isZoneExit = true := by
    intro h
    rw [noExit h] at hmem
    cases hmem
  refine ⟨hmem, henabled, ?_⟩
  cases hrole : node.role with
  | regular | group | groupOutput => exact first
  | groupInput => exact trivial
  | repeatInput | simulationInput => simp [unpaired]
  | repeatOutput | simulationOutput => exact absurd (by rw [hrole]; rfl) hexit

/-- The node that a call has made is completed, and its outputs can be seen where the call
stands. -/
theorem runs_complete {m : BuildM CallResult} (sound : draft.Sound site.rules)
    (h : site.Runs m draft fun result draft' => ∃ node, Opened before draft' id node ∧
      result = node.result site.name id ∧ draft'.Complete site.rules id node ∧ (draft'.info id).shows = path ∧
      node.pairedOutput = none ∧ (node.role.isZoneExit = true → node.outputs = [])) :
    site.Runs m draft fun result draft' =>
      Undisturbed before draft' ∧ ∀ source, result.Offers site.rules.selected source →
        site.Valid draft' path source := by
  refine h.andThen ?_
  rintro result draft' steps ⟨node, opened, rfl, complete, hpath, unpaired, noExit⟩
  have step : Draft.Step site.rules draft' (draft'.closed id) :=
    .close opened.found opened.opened opened.inner complete
  refine ⟨draft'.closed id, step, rfl, rfl,
    opened.undisturbed.close opened.new (step.later (Steps.sound steps sound)), fun source hsource => ?_⟩
  obtain ⟨port, hport, first, selected, rfl⟩ := Node.exists_of_offers hsource
  refine ⟨rfl, mem_append_right _ (mem_singleton_self id), ?_, hpath ▸ suffix_rfl⟩
  exact ⟨node, port, opened.found, rfl, rfl, referable_first hport ⟨first, selected⟩ unpaired noExit⟩

theorem unbound_added {info : Info} {first next : Nat} (sound : draft.Sound site.rules)
    (made : node.Made info.shape first next) (le : draft.next ≤ next)
    (unused : ∀ id ∈ node.id :: node.ports.map Port.id, draft.Unused id)
    (inner : node.role.isBoundary = false) (undisturbed : Undisturbed before draft) (hfirst : before.next ≤ first) :
    Unbound before (draft.added node info next) node.id node where
  toOpened := opened_added sound made le unused inner undisturbed hfirst
  free := fun port hport => sound.linksTo_eq_nil (unused port.id (mem_cons_of_mem _
    (mem_map_of_mem (mem_append_left _ hport))))
  pristine := by
    have hinfo : (draft.added node info next).info node.id = info := Function.update_self _ _ _
    rw [hinfo]
    exact made.pristine

/-- What every call needs. -/
structure Callable (site : Site) (draft : Draft) (path : List NodeId) (arguments : Arguments) : Prop where
  sound : draft.Sound site.rules
  standard : site.session.IsStandard
  depth : path.length ≤ site.rules.depth
  plain : arguments.Plain
  valid : ∀ name argument, arguments.get? name = some argument → argument.Over (site.Valid draft path)

/-- Arguments are bound to a node that has just been added, which completes it. -/
theorem Callable.runs_bindArguments (callable : site.Callable draft path arguments) {next : Nat}
    (made : node.Made spec draft.next next)
    (unpaired : node.pairedOutput = none) (inner : spec.role.isBoundary = false)
    (noExit : spec.role.isZoneExit = true → spec.outputs = [])
    (complete : ∀ (draft' : Draft) (node' : Node), draft'.info node.id = ⟨spec, path, path⟩ →
      node'.pairedOutput = none →
      (arguments.get? graphProperty = none → node'.graph? = node.graph?) →
      (∀ text, node'.graph? = some text → node.graph? = some text ∨ arguments.Refers text) →
      draft'.Complete site.rules node.id node') :
    site.Runs (bindArguments site.session node.id none arguments) (draft.added node ⟨spec, path, path⟩ next)
      fun result draft' => Undisturbed draft draft' ∧
        ∀ source, result.Offers site.rules.selected source → site.Valid draft' path source := by
  have allowed : Allows site.rules ⟨spec, path, path⟩ := ⟨callable.depth, callable.depth⟩
  have hinner : node.role.isBoundary = false := made.shape.role ▸ inner
  have hadd : Draft.Step site.rules draft (draft.added node ⟨spec, path, path⟩ next) :=
    .new callable.sound made hinner allowed unpaired
  have sound := hadd.sound callable.sound
  have later := hadd.later callable.sound
  have unbound := @unbound_added site draft node draft ⟨spec, path, path⟩ _ next callable.sound made made.draws.le
    (@unused_made site.rules draft node ⟨spec, path, path⟩ next callable.sound made) hinner (.refl draft)
    (Nat.le_refl _)
  have hinfo : (draft.added node ⟨spec, path, path⟩ next).info node.id = ⟨spec, path, path⟩ :=
    Function.update_self _ _ _
  have ready : site.Ready (draft.added node ⟨spec, path, path⟩ next) path node.id :=
    ⟨callable.standard, callable.depth, by rw [hinfo], by rw [unbound.found]; rfl⟩
  refine @runs_complete site _ path node.id draft _ sound ?_
  refine (Site.runs_bindArguments sound ready unbound callable.plain fun name argument hget =>
    (callable.valid name argument hget).mono fun _ h => h.later later).andLater sound ?_
  rintro result draft' sound' _ ⟨node', opened, rfl, hpaired, hinfo', hgraph, hrefers⟩
  rw [hinfo] at hinfo'
  have shape : node'.Instantiates spec := by simpa [hinfo'] using opened.shape sound'
  refine ⟨node', opened, rfl, complete draft' node' hinfo' (hpaired.trans unpaired) hgraph hrefers, by rw [hinfo'],
    hpaired.trans unpaired, fun hexit => ?_⟩
  have houtputs := shape.outputs
  rw [shape.role] at hexit
  rw [noExit hexit] at houtputs
  exact forall₂_nil_left_iff.mp houtputs

theorem Callable.runs_lower (callable : site.Callable draft path arguments) (listed : spec ∈ Catalog.standardKinds)
    (inner : spec.role.isBoundary = false)
    (called : spec.role.isZoneEntry = true → ∃ args, site.rules.call (snakeCase spec.name) args) :
    site.Runs (lower site.session spec.id none arguments) draft fun result draft' =>
      Undisturbed draft draft' ∧ ∀ source, result.Offers site.rules.selected source →
        site.Valid draft' path source := by
  unfold lower
  refine Runs.bind callable.sound (runs_addNode callable.sound callable.standard listed inner
    (fun _ => ⟨spec, path, path⟩) (fun _ => rfl) fun _ => ⟨callable.depth, callable.depth⟩) ?_
  rintro id draft₁ _ _ ⟨node, next, made, unpaired, rfl, rfl⟩
  refine callable.runs_bindArguments made unpaired inner (standardKinds_exits spec listed) ?_
  intro draft' node' hinfo hpaired _ _
  exact .plain spec listed inner (by rw [hinfo]) hpaired (by rw [hinfo]) called

/-! ## Calls of graphs -/

/-- The group node that stands for a graph. -/
def groupNode (kind : NodeKind) (name : String) (interface : Interface) (s : Supply) : Node × Supply :=
  let bare := Node.ofKind kind s
  let inputs := (interface.inputSockets.mapM Socket.mint : StateM Supply (List Port)) bare.2
  let outputs := (interface.outputSockets.mapM Socket.mint : StateM Supply (List Port)) inputs.2
  ({ bare.1 with
      name, inputs := inputs.1, outputs := outputs.1
      properties := [⟨⟨graphProperty, .graph, .graph ""⟩, .graph name⟩] }, outputs.2)

theorem made_groupNode (minted : Kind.Minted bareGroupSpec kind)
    (name : String) (interface : Interface) (s : Supply) :
    (groupNode kind name interface s).1.Made (groupSpec name interface)
      s.next (groupNode kind name interface s).2.next := by
  have bare := Node.made_ofKind minted (standardKinds_defaults _ bareGroupSpec_mem) s
  have hinputs := Socket.mapM_mint_toSocket interface.inputSockets (Node.ofKind kind s).2
  have houtputs := Socket.mapM_mint_toSocket interface.outputSockets
    ((interface.inputSockets.mapM Socket.mint : StateM Supply (List Port)) (Node.ofKind kind s).2).2
  have hid : Supply.Draws s.next (Node.ofKind kind s).2.next [(Node.ofKind kind s).1.id] :=
    ⟨bare.draws.le, by simp, by simpa using bare.draws.range _ mem_cons_self⟩
  have hplain : ∀ (entries : List Entry) (direction : Direction),
      ∀ socket ∈ entries.map (fun entry => entry.socket direction), socket.enabledWhen = none := by
    intro entries direction socket hsocket
    obtain ⟨entry, _, rfl⟩ := mem_map.mp hsocket
    rfl
  refine ⟨⟨bare.shape.kind, rfl, bare.shape.role, rfl, ?_, ?_, ?_, ?_⟩, ?_, ?_⟩
  · intro property hproperty
    rw [mem_singleton.mp hproperty]
    rfl
  · exact Node.forall₂_plain hinputs (hplain _ _)
  · exact Node.forall₂_plain houtputs (hplain _ _)
  · refine Node.silent_of_defaults ?_
    have h := congrArg (map fun socket : Socket => socket.default) houtputs
    rwa [map_map] at h
  · simpa [groupNode, Node.ports] using
      hid.append ((Supply.draws_mapM_mint _ _).append (Supply.draws_mapM_mint _ _))
  · refine Node.pristine_of_defaults ?_
    have h := congrArg (map fun socket : Socket => socket.default) hinputs
    rwa [map_map] at h

theorem setProperty_bareGroup (minted : Kind.Minted bareGroupSpec kind) (s : Supply) (name : String) :
    (Node.ofKind kind s).1.setProperty graphProperty (.graph name) =
      .ok { (Node.ofKind kind s).1 with
        properties := [⟨⟨graphProperty, .graph, .graph ""⟩, .graph name⟩] }.refresh := by
  have hproperties : (Node.ofKind kind s).1.properties = [⟨⟨graphProperty, .graph, .graph ""⟩, .graph ""⟩] := by
    change (kind.properties.map fun decl => Property.mk decl decl.default) = _
    rw [minted.properties]
    rfl
  unfold Node.setProperty
  rw [hproperties]
  rfl

/-- Making the group node of a graph comes before binding its arguments. -/
theorem exec_callGraph {target : Graph} (hscope : b.scopes.head? = some site.name)
    (hb : b.current? = some graph) (hkind : site.session.catalog.get? groupKind = some kind)
    (minted : Kind.Minted bareGroupSpec kind) (hne : site.name ≠ name)
    (htarget : b.store.get? name = some target) (arguments : Arguments) :
    exec (callGraph site.session name none arguments) b =
      exec (bindArguments site.session (groupNode kind name target.interface b.supply).1.id none arguments)
        ((b.withSupply (groupNode kind name target.interface b.supply).2).put
          (graph.withNode (groupNode kind name target.interface b.supply).1)) := by
  have hrole : kind.role.isBoundary = false := by rw [minted.role]; rfl
  have hset := setProperty_bareGroup minted b.supply name
  obtain ⟨named, hnamed⟩ : ∃ named, named = { (Node.ofKind kind b.supply).1 with
    properties := [⟨⟨graphProperty, .graph, .graph ""⟩, .graph name⟩] }.refresh := ⟨_, rfl⟩
  rw [← hnamed] at hset
  have hid : named.id = (Node.ofKind kind b.supply).1.id := by rw [hnamed]; rfl
  have hbare := exec_addNode hb hkind hrole
  have hcurrent := current?_put ((current?_withSupply b (Node.ofKind kind b.supply).2).trans hb)
    (graph.withNode (Node.ofKind kind b.supply).1)
  have hfound : (graph.withNode (Node.ofKind kind b.supply).1).node? (Node.ofKind kind b.supply).1.id =
      some (Node.ofKind kind b.supply).1 := by simp
  have hproperty := exec_setProperty hcurrent (Node.ofKind kind b.supply).1.id graphProperty (.graph name)
  rw [hfound] at hproperty
  dsimp only at hproperty
  rw [hset] at hproperty
  dsimp only at hproperty
  rw [put_put, Graph.updateNode_withNode _ hid] at hproperty
  unfold callGraph
  rw [exec_bind_ok (exec_active hscope), if_neg hne, exec_bind_ok (exec_get b), htarget]
  dsimp only
  rw [exec_bind_ok hbare, exec_bind_ok hproperty, exec_bind_ok (exec_draw _ _),
    exec_bind_ok (exec_draw _ _)]
  simp only [withSupply_put, withSupply_withSupply, supply_put, supply_withSupply]
  have hcurrent' : ∀ s, ((b.withSupply s).put (graph.withNode named)).current? = some (graph.withNode named) :=
    fun s => current?_put ((current?_withSupply b s).trans hb) _
  have hnode : (graph.withNode named).node? (Node.ofKind kind b.supply).1.id = some named := by simp [hid]
  rw [exec_bind_ok (exec_node_of (hcurrent' _) hnode),
    exec_bind_ok (exec_putNode (hcurrent' _) _ _), put_put]
  have hgroup : ((graph.withNode named).updateNode named.id fun _ =>
      (groupNode kind name target.interface b.supply).1) =
        graph.withNode (groupNode kind name target.interface b.supply).1 :=
    Graph.updateNode_withNode _ hid.symm
  rw [hid] at hgroup
  rw [← hgroup, hnamed]
  rfl

theorem exec_callGraph_self (hscope : b.scopes.head? = some site.name) (arguments : Arguments) :
    exec (callGraph site.session site.name none arguments) b =
      (.error (.recursiveGroup site.name), b) := by
  unfold callGraph
  rw [exec_bind_ok (exec_active hscope), if_pos rfl]
  rfl

theorem exec_callGraph_none (hscope : b.scopes.head? = some site.name)
    (hne : site.name ≠ name) (htarget : b.store.get? name = none) (arguments : Arguments) :
    exec (callGraph site.session name none arguments) b = (.error (.unknownGraph name), b) := by
  unfold callGraph
  rw [exec_bind_ok (exec_active hscope), if_neg hne, exec_bind_ok (exec_get b), htarget]
  rfl

theorem Callable.runs_call (callable : site.Callable draft path arguments) {function : String}
    (called : site.rules.call function arguments.keys)
    (refers : ∀ text, arguments.Refers text → site.rules.refers function text) :
    site.Runs (call site.session function none arguments) draft fun result draft' =>
      Undisturbed draft draft' ∧ ∀ source, result.Offers site.rules.selected source →
        site.Valid draft' path source := by
  unfold call
  cases hfunction : site.session.functions.get? function with
  | some entry =>
    obtain ⟨spec, listed, hkind, inner, hname⟩ := callable.standard.function hfunction
    dsimp only
    rw [hkind]
    exact callable.runs_lower listed inner fun _ => ⟨_, hname ▸ called⟩
  | none =>
    refine Runs.ofExec callable.sound fun b hb => ?_
    rw [exec_bind_ok (exec_get b)]
    dsimp only
    cases hfind : b.store.graphs.values.find? fun graph => snakeCase graph.name = function with
    | none => exact Or.inl ⟨_, rfl⟩
    | some graph =>
      dsimp only
      by_cases hself : site.name = graph.name
      · exact Or.inl ⟨_, hself ▸ exec_callGraph_self hb.scope arguments⟩
      cases htarget : b.store.get? graph.name with
      | none => exact Or.inl ⟨_, exec_callGraph_none hb.scope hself htarget arguments⟩
      | some target =>
        obtain ⟨kind, hkind, minted⟩ := callable.standard.catalog.exists_kind bareGroupSpec_mem
        have callee := hb.serves function graph target hfunction hfind (fun h => hself h.symm) htarget
        have made := made_groupNode minted graph.name target.interface b.supply
        rw [hb.next] at made
        have inner : (groupNode kind graph.name target.interface b.supply).1.role.isBoundary = false := by
          rw [made.shape.role]
          rfl
        have step := @Step.new site.rules draft _ ⟨groupSpec graph.name target.interface, path, path⟩ _
          callable.sound made inner ⟨callable.depth, callable.depth⟩ rfl
        refine Or.inr ⟨_, _, _, .single step, rfl,
          exec_callGraph hb.scope hb.current hkind minted hself htarget arguments, ?_⟩
        refine callable.runs_bindArguments made rfl rfl (fun h => by cases h) ?_
        intro draft' node' hinfo hpaired hgraph hrefers
        refine .group function graph.name target.interface arguments.keys callee called (by rw [hinfo]) hpaired
          (by rw [hinfo]) (fun hkeys => hgraph (get?_eq_none_iff.mpr hkeys)) fun text htext => ?_
        rcases hrefers text htext with hname | hgiven
        · exact Or.inl (Option.some.inj hname).symm
        · exact Or.inr (refers text hgiven)

end Site

end NodeScript
